import Hysteria.Framework.Bytes
import Hysteria.Framework.Ip
import Hysteria.Framework.Notify
import Hysteria.Framework.Transition

/-!
# The send queue of the sockets

`hysteria-transport`, `obfs_socket.rs`: the sockets given to Quinn do not send
by themselves. `try_send` puts a group of datagrams into a queue, and a worker
task takes the groups out and hands the datagrams to the UDP socket.

`SharedSendState` is what the socket, its pollers and the worker share.
`QueueStep` is the three of them together: a step is a section under the lock, a
read of `closed`, a notification, or a stretch of the worker between two awaits.
The history of a run (`accepted`, `handed`, `woken`) is kept in the state.
-/

namespace Hysteria.Impl

open Framework

def sendQueueCapacity : Nat := 1024

/-- `std::io::ErrorKind`, as far as the source names its values. -/
inductive ErrorKind where
  | wouldBlock
  | invalidData
  | other (name : Str)
  deriving DecidableEq

structure IoError where
  kind : ErrorKind
  message : Str
  deriving DecidableEq

def IoError.wouldBlock : IoError := ⟨.wouldBlock, "operation would block"⟩

structure OutgoingDatagrams where
  destination : SocketAddr
  packets : List (List UInt8)

/-- The task behind a `Waker`; two wakers wake the same task when they are equal. -/
abbrev Waker := Nat

/-- `SharedSendState`, with the fields of its `SendState`. -/
structure SharedSendState where
  queue : List OutgoingDatagrams
  waiters : List Waker
  error : Option IoError
  queued : Notify
  closed : Bool

/-- What the calls of `PacketCodec::encode` in one `try_send` return, by their number. -/
abbrev Encoder := Nat → List UInt8 → Except IoError (List (List UInt8))

/-- Quinn's `Transmit`, as far as the sockets read it. -/
structure Transmit where
  destination : SocketAddr
  contents : List UInt8
  segmentSize : Option Nat
  segmentSize_pos : ∀ size ∈ segmentSize, 0 < size

def Transmit.segments (transmit : Transmit) : List (List UInt8) :=
  match transmit.segmentSize with
  | some size => chunks size transmit.contents
  | none => [transmit.contents]

/-- The loop over the segments. Without a codec a segment is sent as it is. -/
def encodeSegments (codec : Option Encoder) : Nat → List (List UInt8) → Except IoError (List (List UInt8))
  | _, [] => .ok []
  | n, segment :: rest => do
    let packets ← match codec with
      | some encode => encode n segment
      | none => .ok [segment]
    let others ← encodeSegments codec (n + 1) rest
    return packets ++ others

inductive SocketKind where
  | obfuscated
  | realm
  | hopping
  deriving DecidableEq

inductive Writable where
  | ready (result : Except IoError Unit)
  | pending

namespace SharedSendState

def new : SharedSendState := ⟨[], [], none, .new, false⟩

/-- `try_send` up to `drop(state)`; the notification comes after it. -/
def trySend (codec : Option Encoder) (destination : SocketAddr) (transmit : Transmit) (state : SharedSendState) :
    Except IoError Unit × SharedSendState :=
  match state.error with
  | some error => (.error error, { state with error := none })
  | none =>
    if state.queue.length ≥ sendQueueCapacity then (.error .wouldBlock, state)
    else
      match encodeSegments codec 0 transmit.segments with
      | .error error => (.error error, state)
      | .ok packets => (.ok (), { state with queue := state.queue ++ [⟨destination, packets⟩] })

def obfuscatedTrySend (codec : Encoder) (transmit : Transmit) :
    SharedSendState → Except IoError Unit × SharedSendState :=
  trySend (some codec) transmit.destination transmit

def realmTrySend (codec : Option Encoder) (transmit : Transmit) :
    SharedSendState → Except IoError Unit × SharedSendState :=
  trySend codec transmit.destination transmit

/-- `PortHoppingUdpSocket::try_send`: the group goes to the logical remote. -/
def hoppingTrySend (codec : Option Encoder) (logicalRemote : SocketAddr) (transmit : Transmit) :
    SharedSendState → Except IoError Unit × SharedSendState :=
  trySend codec logicalRemote transmit

def pollWritable (waker : Waker) (state : SharedSendState) : Writable × SharedSendState :=
  match state.error with
  | some error => (.ready (.error error), { state with error := none })
  | none =>
    if state.queue.length < sendQueueCapacity then (.ready (.ok ()), state)
    else if waker ∈ state.waiters then (.pending, state)
    else (.pending, { state with waiters := state.waiters ++ [waker] })

/-- The `Drop` of each socket. -/
def drop (kind : SocketKind) (state : SharedSendState) : SharedSendState :=
  let queued := match kind with
    | .obfuscated | .realm => state.queued.notifyOne
    | .hopping => state.queued.notifyWaiters
  { state with closed := true, queued }

end SharedSendState

/-- The group that a transmit asks for. -/
def Transmit.group (transmit : Transmit) (codec : Option Encoder) (destination : SocketAddr) :
    Option OutgoingDatagrams :=
  (encodeSegments codec 0 transmit.segments).toOption.map (⟨destination, ·⟩)

/-- The calls of `try_send` that a socket of the kind makes, with the group of their transmit;
`logicalRemote` is that of a hopping socket. -/
inductive TrySend (logicalRemote : SocketAddr) : SocketKind → SharedSendState → Option OutgoingDatagrams →
    Except IoError Unit × SharedSendState → Prop
  | obfuscated (codec : Encoder) (transmit : Transmit) (state : SharedSendState) :
      TrySend logicalRemote .obfuscated state (transmit.group (some codec) transmit.destination)
        (state.obfuscatedTrySend codec transmit)
  | realm (codec : Option Encoder) (transmit : Transmit) (state : SharedSendState) :
      TrySend logicalRemote .realm state (transmit.group codec transmit.destination)
        (state.realmTrySend codec transmit)
  | hopping (codec : Option Encoder) (transmit : Transmit) (state : SharedSendState) :
      TrySend logicalRemote .hopping state (transmit.group codec logicalRemote)
        (state.hoppingTrySend codec logicalRemote transmit)

/-- Where `send_worker` and `hopping_send_worker` are. -/
inductive Worker where
  /-- At the read of `closed`. -/
  | checking
  /-- `closed` was false; before the lock. -/
  | popping
  /-- The queue was empty; before `notified()`. -/
  | idle
  /-- In the await of `notified()`. -/
  | waiting
  /-- With a group, before its destination is known. -/
  | routing (group : OutgoingDatagrams)
  /-- In the loop over the packets of a group. -/
  | sending (destination : SocketAddr) (packets : List (List UInt8))
  /-- `send_to` failed; before the lock. -/
  | failing (error : IoError)
  | returned

/-- Where a group goes: `hopping_send_worker` takes the remote of the hop state. -/
def SocketKind.route (kind : SocketKind) (remote : SocketAddr) (group : OutgoingDatagrams) : SocketAddr :=
  match kind with
  | .obfuscated | .realm => group.destination
  | .hopping => remote

structure SendQueue where
  shared : SharedSendState
  worker : Worker
  /-- The calls of `try_send` that have put a group into the queue and have not notified yet. -/
  notifying : Nat
  /-- The groups of the successful calls of `try_send`, in order. -/
  accepted : List OutgoingDatagrams
  /-- The calls of `send_to`, in order. -/
  handed : List (SocketAddr × List UInt8)
  /-- The tasks woken by `wake_writers`, in order. -/
  woken : List Waker

inductive SendEvent where
  | trySend (result : Except IoError Unit)
  | notify
  | pollWritable (waker : Waker) (result : Writable)
  | drop
  | pop
  | sendError
  | worker

namespace SendQueue

def new : SendQueue := ⟨.new, .checking, 0, [], [], []⟩

/-- After `try_send` has released the lock; `group` is that of its transmit. -/
def tried (s : SendQueue) (group : Option OutgoingDatagrams) (outcome : Except IoError Unit × SharedSendState) :
    SendQueue :=
  match outcome with
  | (.ok (), shared) => { s with shared, notifying := s.notifying + 1, accepted := s.accepted ++ group.toList }
  | (.error _, shared) => { s with shared }

def wakeWriters (s : SendQueue) : SendQueue :=
  { s with shared := { s.shared with waiters := [] }, woken := s.woken ++ s.shared.waiters }

/-- After the socket is dropped. -/
def dropped (kind : SocketKind) (s : SendQueue) : SendQueue := { s with shared := s.shared.drop kind }

end SendQueue

inductive WorkerStep (kind : SocketKind) (s : SendQueue) : SendEvent → SendQueue → Prop
  | stop (hw : s.worker = .checking) (hclosed : s.shared.closed = true) :
      WorkerStep kind s .worker { s with worker := .returned }
  | goOn (hw : s.worker = .checking) (hopen : s.shared.closed = false) :
      WorkerStep kind s .worker { s with worker := .popping }
  | pop {group : OutgoingDatagrams} {rest : List OutgoingDatagrams} (hw : s.worker = .popping)
      (hqueue : s.shared.queue = group :: rest) :
      WorkerStep kind s .pop
        { s.wakeWriters with
          shared := { s.wakeWriters.shared with queue := rest }
          worker := .routing group }
  | empty (hw : s.worker = .popping) (hqueue : s.shared.queue = []) :
      WorkerStep kind s .worker { s with worker := .idle }
  | create (hw : s.worker = .idle) : WorkerStep kind s .worker
        { s with shared := { s.shared with queued := s.shared.queued.notified }, worker := .waiting }
  /-- The task is polled at once after `create`, and later only when it was woken. -/
  | poll {ready : Bool} {queued : Notify} (hw : s.worker = .waiting) (hawake : s.shared.queued.Awake)
      (hpoll : s.shared.queued.poll = (ready, queued)) :
      WorkerStep kind s .worker
        { s with
          shared := { s.shared with queued }
          worker := if ready then .checking else .waiting }
  | route {group : OutgoingDatagrams} (remote : SocketAddr) (hw : s.worker = .routing group) :
      WorkerStep kind s .worker { s with worker := .sending (kind.route remote group) group.packets }
  | send {destination : SocketAddr} {packet : List UInt8} {packets : List (List UInt8)}
      (hw : s.worker = .sending destination (packet :: packets)) :
      WorkerStep kind s .worker
        { s with worker := .sending destination packets, handed := s.handed ++ [(destination, packet)] }
  | fail {destination : SocketAddr} {packet : List UInt8} {packets : List (List UInt8)} (error : IoError)
      (hw : s.worker = .sending destination (packet :: packets)) :
      WorkerStep kind s .worker
        { s with worker := .failing error, handed := s.handed ++ [(destination, packet)] }
  | sendError {error : IoError} (hw : s.worker = .failing error) : WorkerStep kind s .sendError
        { s.wakeWriters with
          shared := { s.wakeWriters.shared with error := some error }
          worker := .checking }
  | done {destination : SocketAddr} (hw : s.worker = .sending destination []) :
      WorkerStep kind s .worker { s with worker := .checking }

/-- The steps of the others. The socket is dropped when no call on it is in
progress; a poller may outlive it. -/
inductive CallerStep (logicalRemote : SocketAddr) (kind : SocketKind) (s : SendQueue) : SendEvent → SendQueue → Prop
  | trySend {group : Option OutgoingDatagrams} {outcome : Except IoError Unit × SharedSendState}
      (hopen : s.shared.closed = false) (hcall : TrySend logicalRemote kind s.shared group outcome) :
      CallerStep logicalRemote kind s (.trySend outcome.1) (s.tried group outcome)
  | notify {n : Nat} (hnotifying : s.notifying = n + 1) : CallerStep logicalRemote kind s .notify
        { s with shared := { s.shared with queued := s.shared.queued.notifyOne }, notifying := n }
  | pollWritable (waker : Waker) :
      CallerStep logicalRemote kind s (.pollWritable waker (s.shared.pollWritable waker).1)
        { s with shared := (s.shared.pollWritable waker).2 }
  | drop (hopen : s.shared.closed = false) (hnotifying : s.notifying = 0) :
      CallerStep logicalRemote kind s .drop (s.dropped kind)

inductive QueueStep (logicalRemote : SocketAddr) (kind : SocketKind) (s : SendQueue) (event : SendEvent)
    (t : SendQueue) : Prop
  | worker (step : WorkerStep kind s event t)
  | caller (step : CallerStep logicalRemote kind s event t)

end Hysteria.Impl
