import Mathlib.Data.List.AList
import Hysteria.Impl.Transport.ServerSession

/-!
# The UDP service of a server connection

`hysteria-transport`, `udp.rs`: the dispatcher (`spawn_server_udp`) and the
session tasks it starts, with the session table they share. `UdpStep` is one
step of one of them: a critical section of the table's lock, or what a task
does between two waits.
-/

namespace Hysteria.Impl

open Framework

variable {σ τ κ : Type}

def sessionChannelSize : Nat := 1024

/-- `ServerSessionEntry`; `sender` is the task at the other end of the channel. -/
structure ServerSessionEntry where
  token : UInt64
  sender : Nat
deriving DecidableEq

abbrev ServerSessions := AList fun _ : UInt32 => ServerSessionEntry

/-- A session task: the arguments of its `run_server_session`, its channel, and
where it is. -/
structure SessionTask (τ : Type) where
  sessionId : UInt32
  token : UInt64
  queue : List UdpMessage
  spawned : Bool
  state : SessionState τ

def SessionState.waiting : SessionState τ → Bool
  | .first _ => true
  | .relay _ _ => true
  | .removing => false
  | .finished => false

/-- `try_send`: a full channel, or one whose receiver is gone, drops the message. -/
def SessionTask.trySend (task : SessionTask τ) (message : UdpMessage) : SessionTask τ :=
  match task.state with
  | .finished => task
  | _ => if task.queue.length < sessionChannelSize then { task with queue := task.queue ++ [message] } else task

inductive Dispatcher where
  | reading
  /-- It has looked the session up. -/
  | looked (message : UdpMessage) (existing : Option Nat)
  /-- It has entered the new session. -/
  | inserted (message : UdpMessage) (task : Nat)
  /-- It has left its loop. -/
  | leaving
  | stopped

/-- The service: the table, the dispatcher with its token counter, and all
tasks so far in the order of their creation. -/
structure ServerUdp (σ τ : Type) where
  sessions : ServerSessions
  nextToken : UInt64
  dispatcher : Dispatcher
  tasks : List (SessionTask τ)
  world : σ

def ServerUdp.init (world : σ) : ServerUdp σ τ where
  sessions := ∅
  nextToken := 1
  dispatcher := .reading
  tasks := []
  world

/-- The tokens issued so far. -/
def ServerUdp.issued (s : ServerUdp σ τ) : List UInt64 := s.tasks.map (·.token)

def removeServerSession (sessions : ServerSessions) (sessionId : UInt32) (token : UInt64) : ServerSessions :=
  if (sessions.lookup sessionId).any (·.token = token) then sessions.erase sessionId else sessions

/-- No clone of the sender of `task`'s channel is left. -/
def ServerUdp.Closed (s : ServerUdp σ τ) (task : Nat) : Prop :=
  (∀ sessionId entry, s.sessions.lookup sessionId = some entry → entry.sender ≠ task) ∧
    (∀ message, s.dispatcher ≠ .looked message (some task)) ∧ ∀ message, s.dispatcher ≠ .inserted message task

/-- The task after one of its own steps. -/
def SessionTask.step (context : ServerUdpContext σ τ κ) (task : SessionTask τ) (event : SessionEvent) (world : σ) :
    SessionTask τ × σ :=
  let (state, world, _) := sessionStep context task.sessionId task.state event world
  ({ task with state }, world)

inductive UdpStep (context : ServerUdpContext σ τ κ) : ServerUdp σ τ → ServerUdp σ τ → Prop
  | readError {s : ServerUdp σ τ} (hd : s.dispatcher = .reading) : UdpStep context s { s with dispatcher := .leaving }
  /-- A datagram that is not a message is ignored. -/
  | undecodable {s : ServerUdp σ τ} {bytes : List UInt8} {error : ProtocolError} (hd : s.dispatcher = .reading)
    (hbytes : UdpMessage.decode bytes = .error error) : UdpStep context s s
  /-- The traffic logger refuses the message: the connection is closed. -/
  | refused {s : ServerUdp σ τ} {bytes : List UInt8} {message : UdpMessage} {world : σ}
    (hd : s.dispatcher = .reading) (hbytes : UdpMessage.decode bytes = .ok message)
    (hlog : logTraffic context.trafficLogger context.authId (UInt64.ofNat message.data.length) 0 s.world =
      (false, world)) : UdpStep context s { s with dispatcher := .leaving, world }
  /-- The session of a message is looked up. -/
  | lookup {s : ServerUdp σ τ} {bytes : List UInt8} {message : UdpMessage} {world : σ}
    (hd : s.dispatcher = .reading) (hbytes : UdpMessage.decode bytes = .ok message)
    (hlog : logTraffic context.trafficLogger context.authId (UInt64.ofNat message.data.length) 0 s.world =
      (true, world)) :
    UdpStep context s { s with
      dispatcher := .looked message ((s.sessions.lookup message.sessionId).map (·.sender))
      world }
  | deliver {s : ServerUdp σ τ} {message : UdpMessage} {i : Nat} {task : SessionTask τ}
    (hd : s.dispatcher = .looked message (some i)) (htask : s.tasks[i]? = some task) :
    UdpStep context s { s with dispatcher := .reading, tasks := s.tasks.set i (task.trySend message) }
  | insert {s : ServerUdp σ τ} {message : UdpMessage} (hd : s.dispatcher = .looked message none) :
    UdpStep context s { s with
      sessions := s.sessions.insert message.sessionId ⟨s.nextToken, s.tasks.length⟩
      nextToken := s.nextToken + 1
      dispatcher := .inserted message s.tasks.length
      tasks := s.tasks ++ [⟨message.sessionId, s.nextToken, [], false, .first {}⟩] }
  | spawn {s : ServerUdp σ τ} {message : UdpMessage} {i : Nat} {task : SessionTask τ}
    (hd : s.dispatcher = .inserted message i) (htask : s.tasks[i]? = some task) :
    UdpStep context s { s with
      dispatcher := .reading
      tasks := s.tasks.set i { task.trySend message with spawned := true } }
  | clear {s : ServerUdp σ τ} (hd : s.dispatcher = .leaving) :
    UdpStep context s { s with sessions := ∅, dispatcher := .stopped }
  /-- `serve` aborts the dispatcher where it waits. -/
  | abort {s : ServerUdp σ τ} (hd : s.dispatcher = .reading) : UdpStep context s { s with dispatcher := .stopped }
  | receive {s : ServerUdp σ τ} {i : Nat} {task : SessionTask τ} {message : UdpMessage} {rest : List UdpMessage}
    (htask : s.tasks[i]? = some task) (hspawned : task.spawned = true) (hwait : task.state.waiting = true)
    (hqueue : task.queue = message :: rest) :
    UdpStep context s { s with
      tasks := s.tasks.set i ({ task with queue := rest }.step context (.client (some message)) s.world).1
      world := ({ task with queue := rest }.step context (.client (some message)) s.world).2 }
  | closed {s : ServerUdp σ τ} {i : Nat} {task : SessionTask τ}
    (htask : s.tasks[i]? = some task) (hspawned : task.spawned = true) (hwait : task.state.waiting = true)
    (hqueue : task.queue = []) (hclosed : s.Closed i) :
    UdpStep context s { s with
      tasks := s.tasks.set i (task.step context (.client none) s.world).1
      world := (task.step context (.client none) s.world).2 }
  | timeout {s : ServerUdp σ τ} {i : Nat} {task : SessionTask τ}
    (htask : s.tasks[i]? = some task) (hspawned : task.spawned = true) (hwait : task.state.waiting = true)
    (hqueue : task.queue = []) :
    UdpStep context s { s with
      tasks := s.tasks.set i (task.step context .timeout s.world).1
      world := (task.step context .timeout s.world).2 }
  | remote {s : ServerUdp σ τ} {i : Nat} {task : SessionTask τ}
    {received : Except TransportError (List UInt8 × Str)} {connection : Connection} {counter : UInt32}
    (htask : s.tasks[i]? = some task) (hspawned : task.spawned = true) (hwait : task.state.waiting = true) :
    UdpStep context s { s with
      tasks := s.tasks.set i (task.step context (.remote received connection counter) s.world).1
      world := (task.step context (.remote received connection counter) s.world).2 }
  | remove {s : ServerUdp σ τ} {i : Nat} {task : SessionTask τ}
    (htask : s.tasks[i]? = some task) (hstate : task.state = .removing) :
    UdpStep context s { s with
      sessions := removeServerSession s.sessions task.sessionId task.token
      tasks := s.tasks.set i { task with state := .finished } }

end Hysteria.Impl
