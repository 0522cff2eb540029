import Hysteria.Framework.Ip
import Hysteria.Framework.Tally

/-!
# UDP flow dispatchers of the client

`hysteria`: the loops that hand the datagrams of local peers to one task for each
flow: a UDP forwarding (`runtime.rs`, `run_udp_forwarding`, keyed by the peer), the
TUN device (`tun.rs`, `run_udp`) and the transparent proxy (`transparent.rs`,
`serve_udp_tproxy`, both keyed by source and destination). The tasks run beside the
dispatcher: `FlowStep` is one action of the dispatcher on a channel or on its table,
or of a flow.
-/

namespace Hysteria.Impl

open Framework

inductive FlowKind where
  | forwarding
  | tun
  | tproxy
deriving DecidableEq

/-- Whether the loop begins with `flows.retain(|_, sender| !sender.is_closed())`. -/
def FlowKind.retains : FlowKind → Bool
  | .forwarding => false
  | .tun | .tproxy => true

/-- What `mpsc::channel` is called with. -/
def flowCapacity : Nat := 256

structure Flow (κ : Type) where
  key : κ
  queue : List (List UInt8)
  /-- The receiver is not dropped. -/
  live : Bool

/-- `try_send`: none if the channel is full or closed. -/
def Flow.trySend {κ : Type} (flow : Flow κ) (packet : List UInt8) : Option (Flow κ) :=
  if flow.live ∧ flow.queue.length < flowCapacity then some { flow with queue := flow.queue ++ [packet] } else none

inductive FlowPhase (κ : Type) where
  | idle
  /-- In `retain`, with the entries it has still to look at. -/
  | retaining (key : κ) (packet : List UInt8) (unchecked : List κ)
  | sending (key : κ) (packet : List UInt8)
  /-- With a new channel for the packet, before `insert`. -/
  | spawning (key : κ) (packet : List UInt8)

inductive FlowEvent (κ : Type) where
  | receive (key : κ) (packet : List UInt8)
  | check (key : κ)
  | retained
  | offer
  | spawn
  | take (flow : Nat)
  | finish (flow : Nat)

variable {κ : Type} [DecidableEq κ]

/-- The flows in the order they were spawned, and the table from keys to senders. -/
structure FlowDispatcher (κ : Type) where
  flows : List (Flow κ) := []
  table : AList fun _ : κ => Nat := ∅
  phase : FlowPhase κ := .idle

namespace FlowDispatcher

def live (s : FlowDispatcher κ) (flow : Nat) : Bool := s.flows[flow]?.any (·.live)

/-- How many flows have their receiver. -/
def openFlows (s : FlowDispatcher κ) : Nat := s.flows.countP (·.live)

/-- What `retain` makes of an entry. -/
def retain (s : FlowDispatcher κ) (key : κ) : AList fun _ : κ => Nat :=
  match s.table.lookup key with
  | none => s.table
  | some flow => if s.live flow then s.table else s.table.erase key

def offer (s : FlowDispatcher κ) (key : κ) (packet : List UInt8) : FlowDispatcher κ :=
  match s.table.lookup key with
  | none => { s with phase := .spawning key packet }
  | some i =>
    match s.flows[i]?.bind (·.trySend packet) with
    | none => { s with phase := .spawning key packet }
    | some flow => { s with flows := s.flows.set i flow, phase := .idle }

/-- The first `try_send` of the new channel has room. -/
def spawn (s : FlowDispatcher κ) (key : κ) (packet : List UInt8) : FlowDispatcher κ :=
  { flows := s.flows ++ [{ key, queue := [packet], live := true }]
    table := s.table.insert key s.flows.length
    phase := .idle }

end FlowDispatcher

inductive FlowStep (kind : FlowKind) : FlowDispatcher κ → FlowEvent κ → FlowDispatcher κ → Prop
  | receive {s : FlowDispatcher κ} (key : κ) (packet : List UInt8) (hphase : s.phase = .idle) :
      FlowStep kind s (.receive key packet)
        { s with phase := if kind.retains then .retaining key packet s.table.keys else .sending key packet }
  -- the order of the table is not known
  | check {s : FlowDispatcher κ} {key : κ} {packet : List UInt8} {unchecked : List κ} (entry : κ)
      (hphase : s.phase = .retaining key packet unchecked) (hentry : entry ∈ unchecked) :
      FlowStep kind s (.check entry)
        { s with table := s.retain entry, phase := .retaining key packet (unchecked.erase entry) }
  | retained {s : FlowDispatcher κ} {key : κ} {packet : List UInt8}
      (hphase : s.phase = .retaining key packet []) :
      FlowStep kind s .retained { s with phase := .sending key packet }
  | offer {s : FlowDispatcher κ} {key : κ} {packet : List UInt8} (hphase : s.phase = .sending key packet) :
      FlowStep kind s .offer (s.offer key packet)
  | spawn {s : FlowDispatcher κ} {key : κ} {packet : List UInt8} (hphase : s.phase = .spawning key packet) :
      FlowStep kind s .spawn (s.spawn key packet)
  | take {s : FlowDispatcher κ} {i : Nat} {flow : Flow κ} {packet : List UInt8} {queue : List (List UInt8)}
      (hflow : s.flows[i]? = some flow) (hlive : flow.live = true) (hqueue : flow.queue = packet :: queue) :
      FlowStep kind s (.take i) { s with flows := s.flows.set i { flow with queue } }
  | finish {s : FlowDispatcher κ} {i : Nat} {flow : Flow κ} (hflow : s.flows[i]? = some flow)
      (hlive : flow.live = true) :
      FlowStep kind s (.finish i) { s with flows := s.flows.set i { flow with queue := [], live := false } }

end Hysteria.Impl
