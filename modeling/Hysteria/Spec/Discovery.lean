import Hysteria.Impl.Transport.RealmSocket

/-!
# STUN discovery

What `discover` and `RealmPunchController::discover` have in common: both wait for
the answers to the requests they sent, and return the addresses in them (`Agree`).
`Answers` says what the datagrams are that come in meanwhile.
-/

namespace Hysteria.Spec

open Framework Impl

/-- The datagrams of a run, with their sources. -/
def datagrams (events : List RealmEvent) : List (SocketAddr × List UInt8) := events.filterMap fun
    | .datagram source datagram => some (source, datagram)
    | _ => none

def response (datagram : SocketAddr × List UInt8) : Option (List UInt8 × SocketAddr) :=
  parseStunResponse (datagram.2.take maxWireDatagramSize)

def ids (requests : List StunRequest) : Finset (List UInt8) := (requests.map (·.transaction)).toFinset

/-- The responses among the datagrams that have transactions of the call are answers to
requests that were sent, from their servers. `report` is the address in the answer to a
transaction. The buffer of `discover` is long enough for what is to be read. -/
def Answers (report : List UInt8 → SocketAddr) (c : DiscoverCall) (received : List (SocketAddr × List UInt8)) : Prop :=
  ∀ datagram ∈ received, parseStunResponse (datagram.2.take discoverBufferSize) = response datagram ∧
    ∀ id address, response datagram = some (id, address) → id ∈ ids c.requests →
      address = report id ∧ ∃ request ∈ c.sent, request.transaction = id ∧ request.server = datagram.1

/-- Every transaction that was sent has an answer. -/
def AllAnswered (sent : List StunRequest) (received : List (SocketAddr × List UInt8)) : Prop :=
  ∀ request ∈ sent, ∃ datagram ∈ received, ∃ address, response datagram = some (request.transaction, address)

/-- What `discover` reads. -/
def receivedBy (received : List (SocketAddr × List UInt8)) : List (Except Str (List UInt8)) :=
  received.map fun datagram => .ok datagram.2

/-- The loop of `discover` has ended without the deadline. -/
def Stops (sent : List StunRequest) (received : List (SocketAddr × List UInt8)) : Prop :=
  ∃ d, (Discovery.new sent).run (receivedBy received) = .ok d ∧ d.waits = false

/-- Both functions have the same result, and stop waiting once every transaction that was
sent has an answer. -/
def Agree (c : DiscoverCall) (received : List (SocketAddr × List UInt8)) : Prop :=
  c.result = discover c.sent (receivedBy received) ∧
  (Stops c.sent received ↔ AllAnswered c.sent received) ∧
  (c.waits = false ↔ AllAnswered c.sent received)

end Hysteria.Spec
