import Hysteria.Framework.Interval
import Hysteria.Impl.Realm.PunchPacket

/-!
# The session of a Realm server

`hysteria`, `realm_runtime.rs`: `supervise`, which registers the server again when its
session is lost, and `run_session`, which sends the heartbeats of one. Times are in
nanoseconds. A request is answered at once, so the task is only ever found waiting
(`Waiting`), and it is polled when a timer that it waits for is due.
-/

namespace Hysteria.Impl

open Framework

def fromSecs (secs : Nat) : Nat := secs * 1000000000

structure RegisterResponse where
  sessionId : Str
  ttl : UInt64
deriving DecidableEq

structure HeartbeatResponse where
  ttl : UInt64
deriving DecidableEq

structure PunchEvent where
  addresses : List Str
  punch : PunchMetadata
deriving DecidableEq

inductive Waiting where
  /-- In the loop of `run_session`. -/
  | session (heartbeat : Interval)
  /-- In the sleep before it registers. -/
  | register (wakes : Nat)
  /-- `interval` panics on a period of zero. -/
  | panicked
deriving DecidableEq

/-- The timer it waits for. -/
def Waiting.due : Waiting → Option Nat
  | .session heartbeat => some heartbeat.deadline
  | .register wakes => some wakes
  | .panicked => none

structure Supervisor where
  heartbeatInterval : Option Nat
  now : Nat
  sessionId : Str
  ttl : UInt64
  waiting : Waiting
deriving DecidableEq

inductive SupervisorEvent where
  | elapse (time : Nat)
  | heartbeat (answer : Except Str HeartbeatResponse)
  /-- `events.next` returns. -/
  | event (item : Except Str (Option PunchEvent))
  /-- The answers to `register` and then to `events`. -/
  | register (answer : Except Str RegisterResponse) (stream : Except Str Unit)

namespace Supervisor

/-- `run_session` has returned an error. -/
def lost (s : Supervisor) : Supervisor := { s with waiting := .register (s.now + fromSecs 1) }

/-- `interval` in `run_session`. -/
def interval (s : Supervisor) : Nat := s.heartbeatInterval.getD (max (fromSecs (max s.ttl.toNat 2 / 2)) (fromSecs 1))

/-- `run_session`, up to its loop. -/
def runSession (s : Supervisor) (stream : Except Str Unit) : Supervisor :=
  match stream with
  | .error _ => s.lost
  | .ok () =>
    if s.interval = 0 then { s with waiting := .panicked }
    else
      match (Interval.start s.now s.interval).tick s.now with
      | none => s
      | some heartbeat => { s with waiting := .session heartbeat }

/-- The answer to a heartbeat; the next one is due at `heartbeat.deadline`. -/
def heartbeat (s : Supervisor) (heartbeat : Interval) (answer : Except Str HeartbeatResponse) : Supervisor :=
  match answer with
  | .error _ => s.lost
  | .ok response =>
    { s with
      waiting := .session heartbeat
      ttl := if s.heartbeatInterval.isNone ∧ response.ttl ≠ 0 then response.ttl else s.ttl }

/-- `spawn_response` leaves the session as it is. -/
def event (s : Supervisor) (item : Except Str (Option PunchEvent)) : Supervisor :=
  match item with
  | .error _ => s.lost
  | .ok none => s.lost
  | .ok (some _) => s

def register (s : Supervisor) (answer : Except Str RegisterResponse) (stream : Except Str Unit) : Supervisor :=
  match answer with
  | .error _ => { s with waiting := .register (s.now + fromSecs 5) }
  | .ok registration => runSession { s with ttl := registration.ttl, sessionId := registration.sessionId } stream

/-- The beginning of the task that `start` spawns. -/
def start (heartbeatInterval : Option Nat) (now : Nat) (registration : RegisterResponse) (stream : Except Str Unit) :
    Supervisor :=
  runSession ⟨heartbeatInterval, now, registration.sessionId, registration.ttl, .register now⟩ stream

end Supervisor

inductive SupervisorStep : Supervisor → SupervisorEvent → Supervisor → Prop
  | elapse {s : Supervisor} (time : Nat) (h : ∀ due ∈ s.waiting.due, s.now + time ≤ due) :
      SupervisorStep s (.elapse time) { s with now := s.now + time }
  | heartbeat {s : Supervisor} {timer next : Interval} (answer : Except Str HeartbeatResponse)
      (hwaiting : s.waiting = .session timer) (htick : timer.tick s.now = some next) :
      SupervisorStep s (.heartbeat answer) (s.heartbeat next answer)
  | event {s : Supervisor} {timer : Interval} (item : Except Str (Option PunchEvent))
      (hwaiting : s.waiting = .session timer) : SupervisorStep s (.event item) (s.event item)
  | register {s : Supervisor} {wakes : Nat} (answer : Except Str RegisterResponse) (stream : Except Str Unit)
      (hwaiting : s.waiting = .register wakes) (hwakes : wakes ≤ s.now) :
      SupervisorStep s (.register answer stream) (s.register answer stream)

end Hysteria.Impl
