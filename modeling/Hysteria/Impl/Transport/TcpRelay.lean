import Hysteria.Impl.Transport.ServerConnection
import Hysteria.Impl.Transport.TcpTunnel
import Mathlib.Logic.Function.Basic

/-!
# The relay of a TCP stream

`hysteria-transport`, `proxy.rs`: `handle_tcp_stream` once the target is dialled
and the client told, with `write_hooked_prefix` and the two `copy_with_traffic`.
A direction is named by the `tx` that `copy_with_traffic` gets: `true` is client
to target. `RelayStep` is one poll of the task that makes progress, or something
that happens to its streams.
-/

namespace Hysteria.Impl

open Framework

variable {σ τ κ : Type}

def closeTrafficLimitReached : UInt32 := 0x107

/-- The buffer of `copy_with_traffic`. -/
def copyBufferSize : Nat := 32 * 1024

inductive CopyState where
  /-- `copy_with_traffic` is in `read`. -/
  | reading
  /-- It is in `write_all`, with this left of the chunk. -/
  | writing (left : List UInt8)
  /-- It has returned; the destination is being shut down. -/
  | closing
  | returned (result : Except TransportError Unit)

/-- A direction, with all that has come for it behind the request, and all that
was written to its destination. -/
structure Direction where
  source : RecvStream
  content : List UInt8
  written : List UInt8
  state : CopyState

inductive RelayStage where
  /-- Before `write_hooked_prefix`. -/
  | hooked (putback : List UInt8)
  /-- In its `write_all`. -/
  | writingPrefix (left : List UInt8)
  /-- In `try_join!`. -/
  | joining
  | returned

/-- A call of `log_traffic` and its verdict. -/
structure Logged where
  tx : UInt64
  rx : UInt64
  allowed : Bool
deriving DecidableEq

/-- The task, with its calls of `log_traffic` and the code with which it closed
the connection. -/
structure Relay (σ : Type) where
  stage : RelayStage
  direction : Bool → Direction
  logged : List Logged
  closed : Option UInt32
  world : σ

/-- What the hook did: it took bytes off the stream and returned `putback`, here
the bytes that it took. Nothing was taken if the hook was not asked. -/
structure HookOutcome where
  content : List UInt8
  consumed : Nat
  putback : List UInt8
  putback_eq : putback = content.take consumed
  /-- The length of a `Vec`. -/
  fits : putback.length < 2 ^ 64

namespace Relay

/-- The client has sent `content` so far, the target nothing. -/
def start (hook : HookOutcome) (world : σ) : Relay σ where
  stage := .hooked hook.putback
  direction
    | true => ⟨⟨hook.content.drop hook.consumed, false⟩, hook.content, [], .reading⟩
    | false => ⟨⟨[], false⟩, [], [], .reading⟩
  logged := []
  closed := none
  world

def set (s : Relay σ) (tx : Bool) (d : Direction) : Relay σ :=
  { s with direction := Function.update s.direction tx d }

variable (context : TcpServerContext σ τ κ)

def log (s : Relay σ) (tx rx : UInt64) : Bool × Relay σ :=
  let (allowed, world) := context.log tx rx s.world
  let logged := if context.trafficLogger.isSome then s.logged ++ [⟨tx, rx, allowed⟩] else s.logged
  (allowed, { s with world, logged })

/-- `write_hooked_prefix` up to its `write_all`. -/
def writeHookedPrefix (s : Relay σ) (putback : List UInt8) : Relay σ :=
  if putback = [] then { s with stage := .joining }
  else
    match s.log context (UInt64.ofNat putback.length) 0 with
    | (false, s) => { s with stage := .returned, closed := some closeTrafficLimitReached }
    | (true, s) => { s with stage := .writingPrefix putback }

/-- The target takes `n` bytes of the prefix. -/
def prefixWritten (s : Relay σ) (left : List UInt8) (n : Nat) : Relay σ :=
  let d := s.direction true
  let s := s.set true { d with written := d.written ++ left.take n }
  { s with stage := if left.drop n = [] then .joining else .writingPrefix (left.drop n) }

def joined (s : Relay σ) (result : Except TransportError Unit) : Relay σ :=
  { s with
    stage := .returned
    closed := match result with
      | .error .trafficLimitReached => some closeTrafficLimitReached
      | _ => s.closed }

/-- A direction returns: `try_join!` waits for the other one, unless it failed. -/
def directionReturned (s : Relay σ) (tx : Bool) (result : Except TransportError Unit) : Relay σ :=
  let s := s.set tx { s.direction tx with state := .returned result }
  match result, (s.direction !tx).state with
  | .error error, _ => s.joined (.error error)
  | .ok (), .returned (.ok ()) => s.joined (.ok ())
  | .ok (), _ => s

/-- The rest of a round of `copy_with_traffic`, after `read`. -/
def received (s : Relay σ) (tx : Bool) (bytes : List UInt8) (source : RecvStream) : Relay σ :=
  let s := s.set tx { s.direction tx with source }
  if bytes.length = 0 then s.set tx { s.direction tx with state := .closing }
  else
    let size := UInt64.ofNat bytes.length
    match s.log context (if tx then size else 0) (if tx then 0 else size) with
    | (false, s) => s.directionReturned tx (.error .trafficLimitReached)
    | (true, s) => s.set tx { s.direction tx with state := .writing bytes }

/-- The destination takes `n` bytes of the chunk. -/
def chunkWritten (s : Relay σ) (tx : Bool) (left : List UInt8) (n : Nat) : Relay σ :=
  let d := s.direction tx
  s.set tx { d with
    written := d.written ++ left.take n
    state := if left.drop n = [] then .reading else .writing (left.drop n) }

end Relay

/-- One step. Writes take at least a byte: `write_all` fails on a write of none. -/
inductive RelayStep (context : TcpServerContext σ τ κ) : Relay σ → Relay σ → Prop
  | arrive {s : Relay σ} (tx : Bool) (bytes : List UInt8) (hopen : (s.direction tx).source.finished = false) :
    RelayStep context s (s.set tx { s.direction tx with
      source := { (s.direction tx).source with buffer := (s.direction tx).source.buffer ++ bytes }
      content := (s.direction tx).content ++ bytes })
  | finish {s : Relay σ} (tx : Bool) : RelayStep context s (s.set tx { s.direction tx with
      source := { (s.direction tx).source with finished := true } })
  /-- Other tasks use the logger. -/
  | outside {s : Relay σ} (world : σ) : RelayStep context s { s with world }
  | hooked {s : Relay σ} {putback : List UInt8} (hstage : s.stage = .hooked putback) :
    RelayStep context s (s.writeHookedPrefix context putback)
  | prefixWritten {s : Relay σ} {left : List UInt8} (n : Nat) (hstage : s.stage = .writingPrefix left) (hn : 0 < n) :
    RelayStep context s (s.prefixWritten left n)
  | prefixError {s : Relay σ} {left : List UInt8} (hstage : s.stage = .writingPrefix left) :
    RelayStep context s { s with stage := .returned }
  | received {s : Relay σ} {tx : Bool} {bytes : List UInt8} {source : RecvStream} (piece : Nat)
    (hstage : s.stage = .joining) (hstate : (s.direction tx).state = .reading)
    (hread : (s.direction tx).source.pollRead copyBufferSize piece = (.ready (.ok bytes), source)) :
    RelayStep context s (s.received context tx bytes source)
  | readError {s : Relay σ} {tx : Bool} (text : Str) (hstage : s.stage = .joining)
    (hstate : (s.direction tx).state = .reading) :
    RelayStep context s (s.directionReturned tx (.error (.io text)))
  | chunkWritten {s : Relay σ} {tx : Bool} {left : List UInt8} (n : Nat) (hstage : s.stage = .joining)
    (hstate : (s.direction tx).state = .writing left) (hn : 0 < n) :
    RelayStep context s (s.chunkWritten tx left n)
  | writeError {s : Relay σ} {tx : Bool} {left : List UInt8} (text : Str) (hstage : s.stage = .joining)
    (hstate : (s.direction tx).state = .writing left) :
    RelayStep context s (s.directionReturned tx (.error (.io text)))
  | shutdown {s : Relay σ} {tx : Bool} (hstage : s.stage = .joining) (hstate : (s.direction tx).state = .closing) :
    RelayStep context s (s.directionReturned tx (.ok ()))
  | shutdownError {s : Relay σ} {tx : Bool} (text : Str) (hstage : s.stage = .joining)
    (hstate : (s.direction tx).state = .closing) :
    RelayStep context s (s.directionReturned tx (.error (.io text)))

end Hysteria.Impl
