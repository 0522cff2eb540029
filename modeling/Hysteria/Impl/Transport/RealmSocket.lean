import Mathlib.Data.Finset.Card
import Mathlib.Logic.Function.Basic
import Hysteria.Impl.Realm.Stun

/-!
# The Realm socket

`hysteria-transport`, `obfs_socket.rs`: `RealmUdpSocket::poll_recv`, which takes the
answers of STUN servers and the punch packets off the UDP socket it shares with
QUIC, and `RealmPunchController::discover`, which runs beside it. `RealmStep` is one
step of a call of `discover`, or one datagram in `poll_recv`.

A channel is part of the call that receives from it. Between the look into the
table and `try_send`, only this call could do something with the channel: take an
address off it, or drop it. So a datagram is one step.
-/

namespace Hysteria.Impl

open Framework

/-- `MAX_WIRE_DATAGRAM_SIZE`, the length of the buffer of `poll_recv`. -/
def maxWireDatagramSize : Nat := 65535

structure DiscoverCall where
  requests : List StunRequest
  /-- Those the loop that sends has not come to. -/
  unsent : List StunRequest
  /-- Those that could be sent; the source counts them. -/
  sent : List StunRequest
  /-- What is in the channel. -/
  queue : List SocketAddr
  addresses : Finset SocketAddr
  /-- The call has not returned. -/
  live : Bool
deriving DecidableEq

namespace DiscoverCall

def capacity (c : DiscoverCall) : Nat := max c.requests.length 1

def trySend (c : DiscoverCall) (address : SocketAddr) : Option DiscoverCall :=
  if c.live ∧ c.queue.length < c.capacity then some { c with queue := c.queue ++ [address] } else none

/-- `addresses.len() < sent`. -/
def waits (c : DiscoverCall) : Bool := c.addresses.card < c.sent.length

def result (c : DiscoverCall) : Except StunError (Finset SocketAddr) :=
  if c.sent = [] then .error (.invalidConfig "failed to send STUN binding requests")
  else discovered c.addresses

end DiscoverCall

/-- The table of transactions, with the server and the call of each, and the calls in the
order they began. -/
structure RealmSocket where
  transactions : List UInt8 → Option (SocketAddr × Nat) := fun _ => none
  calls : List DiscoverCall := []

/-- What `poll_recv` asks for: the punch attempt that reads a packet, what the codec makes of
one (all of it without a codec), and the length of the buffer of QUIC. -/
structure RealmReaders where
  punch : List UInt8 → Option Nat
  codec : SocketAddr → List UInt8 → Option (List UInt8)
  bufferSize : Nat

inductive Dispatched where
  /-- To a call of `discover`; `isOk` is what `try_send` returns. -/
  | stun (call : Nat) (isOk : Bool)
  | punch (attempt : Nat)
  | discarded
  | quic (packet : List UInt8)
deriving DecidableEq

namespace RealmSocket

/-- The call a datagram is an answer for, and the address in it. -/
def answers (s : RealmSocket) (source : SocketAddr) (wire : List UInt8) : Option (Nat × SocketAddr) := do
  let (transaction, address) ← parseStunResponse wire
  let (server, call) ← s.transactions transaction
  if server = source then some (call, address) else none

def pollRecv (readers : RealmReaders) (s : RealmSocket) (source : SocketAddr) (datagram : List UInt8) :
    Dispatched × RealmSocket :=
  let wire := datagram.take maxWireDatagramSize
  match s.answers source wire with
  | some (call, address) =>
    match s.calls[call]?.bind (·.trySend address) with
    | some c => (.stun call true, { s with calls := s.calls.set call c })
    | none => (.stun call false, s)
  | none =>
    match readers.punch wire with
    | some attempt => (.punch attempt, s)
    | none =>
      match readers.codec source wire with
      | none => (.discarded, s)
      | some packet => (.quic (packet.take readers.bufferSize), s)

/-- `discover`, up to the first `send_to`. -/
def register (s : RealmSocket) (requests : List StunRequest) : Except StunError RealmSocket :=
  let ids := requests.map (·.transaction)
  if ¬ids.Nodup ∨ ids.any fun id => (s.transactions id).isSome then
    .error (.invalidConfig "duplicate STUN transaction")
  else
    .ok {
      transactions := requests.foldl
        (fun table request => Function.update table request.transaction (some (request.server, s.calls.length)))
        s.transactions
      calls := s.calls ++ [⟨requests, requests, [], [], ∅, true⟩] }

/-- `send_to` of the next request. -/
def send (s : RealmSocket) (call : Nat) (c : DiscoverCall) (request : StunRequest) (rest : List StunRequest)
    (isOk : Bool) : RealmSocket :=
  let c := { c with unsent := rest, sent := if isOk then c.sent ++ [request] else c.sent }
  { s with calls := s.calls.set call c }

def take (s : RealmSocket) (call : Nat) (c : DiscoverCall) (address : SocketAddr) (rest : List SocketAddr) :
    RealmSocket :=
  { s with calls := s.calls.set call { c with queue := rest, addresses := insert address c.addresses } }

/-- The `Drop` of `StunTransactionGuard`, and the end of the call. -/
def leave (s : RealmSocket) (call : Nat) (c : DiscoverCall) : RealmSocket where
  transactions := c.requests.foldl (fun table request => Function.update table request.transaction none) s.transactions
  calls := s.calls.set call { c with live := false }

end RealmSocket

inductive RealmEvent where
  | register (requests : List StunRequest)
  | send (call : Nat) (isOk : Bool)
  | datagram (source : SocketAddr) (datagram : List UInt8)
  | take (call : Nat)
  | leave (call : Nat)
deriving DecidableEq

inductive RealmStep : RealmSocket → RealmEvent → RealmSocket → Prop
  | register {s t : RealmSocket} {requests : List StunRequest} (h : s.register requests = .ok t) :
      RealmStep s (.register requests) t
  | send {s : RealmSocket} {call : Nat} {c : DiscoverCall} {request : StunRequest} {rest : List StunRequest}
      (isOk : Bool) (hcall : s.calls[call]? = some c) (hlive : c.live = true) (hunsent : c.unsent = request :: rest) :
      RealmStep s (.send call isOk) (s.send call c request rest isOk)
  | datagram {s : RealmSocket} (readers : RealmReaders) (source : SocketAddr) (datagram : List UInt8) :
      RealmStep s (.datagram source datagram) (s.pollRecv readers source datagram).2
  | take {s : RealmSocket} {call : Nat} {c : DiscoverCall} {address : SocketAddr} {rest : List SocketAddr}
      (hcall : s.calls[call]? = some c) (hlive : c.live = true) (hunsent : c.unsent = []) (hwaits : c.waits = true)
      (hqueue : c.queue = address :: rest) : RealmStep s (.take call) (s.take call c address rest)
  | leave {s : RealmSocket} {call : Nat} {c : DiscoverCall} (hcall : s.calls[call]? = some c)
      (hlive : c.live = true) : RealmStep s (.leave call) (s.leave call c)

end Hysteria.Impl
