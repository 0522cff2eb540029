import Mathlib.Logic.Relation
import Hysteria.Impl.Protocol.Fragment

/-!
# Sending UDP messages over one connection

`hysteria-transport`, `udp.rs`: `DatagramSender`, shared by all sessions of a
connection. `send` is one call, alone. `SendStep` is the sender with any number
of calls in progress: the sessions call `send` concurrently, and the calls
interleave at the atomic `fetch_add` on the packet ID counter and at each
datagram passed to the connection.
-/

namespace Hysteria.Impl

open Framework Relation

/-- The QUIC connection, as one call of `send` sees it. -/
structure Connection where
  maxDatagramSize : Option Nat
  /-- The outcome of the `n`-th `send_datagram_wait` of the call. -/
  sendDatagramWait : Nat → Except Str Unit

/-- One round of the loop in `next_packet_id`: the incremented counter, and its
low two bytes unless they are zero. -/
def fetchPacketId (counter : UInt32) : Option UInt16 × UInt32 :=
  let id := (counter + 1).toUInt16
  (if id ≠ 0 then some id else none, counter + 1)

theorem fetchPacketId_eq_none {counter counter' : UInt32} (h : fetchPacketId counter = (none, counter')) :
    counter' = counter + 1 ∧ (counter + 1).toUInt16 = 0 := by
  simp only [fetchPacketId, Prod.mk.injEq, ite_eq_right_iff, reduceCtorEq, imp_false, ne_eq, not_not] at h
  exact ⟨h.2.symm, h.1⟩

theorem toUInt16_succ_ne_zero {counter : UInt32} (h : counter.toUInt16 = 0) : (counter + 1).toUInt16 ≠ 0 := by
  rw [UInt32.toUInt16_add, h]
  decide

/-- The next packet ID and the counter after it. -/
def nextPacketId (counter : UInt32) : UInt16 × UInt32 :=
  match _ : fetchPacketId counter with
  | (some id, counter') => (id, counter')
  | (none, counter') => nextPacketId counter'
termination_by if (counter + 1).toUInt16 = 0 then 1 else 0
decreasing_by
  obtain ⟨rfl, h0⟩ := fetchPacketId_eq_none ‹_›
  rw [if_neg (toUInt16_succ_ne_zero h0), if_pos h0]
  decide

def sendOne (connection : Connection) (n : Nat) (message : UdpMessage) : Except TransportError (List UInt8) :=
  match message.encode with
  | .error error => .error (.protocol error.display)
  | .ok encoded =>
    match connection.sendDatagramWait n with
    | .error error => .error (.io error)
    | .ok () => .ok encoded

/-- The loop over the fragments: the result and the datagrams that were sent. -/
def sendFragments (connection : Connection) : Nat → List UdpMessage → Except TransportError Unit × List (List UInt8)
  | _, [] => (.ok (), [])
  | n, fragment :: rest =>
    match sendOne connection n fragment with
    | .error error => (.error error, [])
    | .ok encoded =>
      let (result, sent) := sendFragments connection (n + 1) rest
      (result, encoded :: sent)

/-- What a call of `send` leaves behind. -/
structure Sent where
  result : Except TransportError Unit
  counter : UInt32
  datagrams : List (List UInt8)

def send (connection : Connection) (counter : UInt32) (message : UdpMessage) : Sent :=
  if message.encodedSize > maxUdpSize then
    ⟨.error (.datagramTooLarge message.encodedSize), counter, []⟩
  else
    match connection.maxDatagramSize with
    | none => ⟨.error (.protocol "peer did not enable QUIC datagrams".toList), counter, []⟩
    | some maxSize =>
      if message.encodedSize ≤ maxSize then
        let (result, sent) := sendFragments connection 0 [message]
        ⟨result, counter, sent⟩
      else
        let (packetId, counter) := nextPacketId counter
        let message := { message with packetId }
        match fragmentUdpMessage message maxSize with
        | .error error => ⟨.error (.protocol error.display), counter, []⟩
        | .ok [] => ⟨.error (.datagramTooLarge message.encodedSize), counter, []⟩
        | .ok fragments =>
          let (result, sent) := sendFragments connection 0 fragments
          ⟨result, counter, sent⟩

/-! ## Concurrent calls -/

inductive SendState where
  | allocating (maxSize : Nat)
  | sending (fragments : List UdpMessage)
  | returned (result : Except TransportError Unit)

/-- A call of `send`. `allocation` is the number of its packet ID in the order
in which the calls obtained theirs. -/
structure SendCall where
  message : UdpMessage
  maxDatagramSize : Option Nat
  allocation : Option Nat
  state : SendState

/-- The call up to its first access to the counter or the connection. -/
def SendCall.start (message : UdpMessage) (maxDatagramSize : Option Nat) : SendCall where
  message
  maxDatagramSize
  allocation := none
  state :=
    if message.encodedSize > maxUdpSize then .returned (.error (.datagramTooLarge message.encodedSize))
    else
      match maxDatagramSize with
      | none => .returned (.error (.protocol "peer did not enable QUIC datagrams".toList))
      | some maxSize => if message.encodedSize ≤ maxSize then .sending [message] else .allocating maxSize

/-- The state after `next_packet_id` returned `packetId`. -/
def SendState.fragment (message : UdpMessage) (packetId : UInt16) (maxSize : Nat) : SendState :=
  let message := { message with packetId }
  match fragmentUdpMessage message maxSize with
  | .error error => .returned (.error (.protocol error.display))
  | .ok [] => .returned (.error (.datagramTooLarge message.encodedSize))
  | .ok fragments => .sending fragments

/-- The sender and its history: the packet IDs in the order in which they were
obtained, all calls so far, and the datagrams the connection accepted. -/
structure Sender where
  counter : UInt32
  issued : List UInt16
  calls : List SendCall
  wire : List (List UInt8)

def Sender.init (counter : UInt32) : Sender := { counter, issued := [], calls := [], wire := [] }

/-- The message both callers of `send` build (`UdpSession::send`,
`run_server_session`). -/
def udpPacket (sessionId : UInt32) (address : Str) (data : List UInt8) : UdpMessage :=
  { sessionId, packetId := 0, fragmentId := 0, fragmentCount := 1, address, data }

/-- One step of one of the calls. -/
inductive SendStep : Sender → Sender → Prop
  | call (s : Sender) (sessionId : UInt32) (address : Str) (data : List UInt8) (maxDatagramSize : Option Nat) :
    SendStep s { s with calls := s.calls ++ [.start (udpPacket sessionId address data) maxDatagramSize] }
  | retry {s : Sender} {i : Nat} {call : SendCall} {maxSize : Nat} {counter : UInt32}
    (hcall : s.calls[i]? = some call) (hstate : call.state = .allocating maxSize)
    (hfetch : fetchPacketId s.counter = (none, counter)) :
    SendStep s { s with counter }
  | allocate {s : Sender} {i : Nat} {call : SendCall} {maxSize : Nat} {packetId : UInt16} {counter : UInt32}
    (hcall : s.calls[i]? = some call) (hstate : call.state = .allocating maxSize)
    (hfetch : fetchPacketId s.counter = (some packetId, counter)) :
    SendStep s { s with
      counter
      issued := s.issued ++ [packetId]
      calls := s.calls.set i { call with
        allocation := some s.issued.length
        state := .fragment call.message packetId maxSize } }
  | sendOne {s : Sender} {i : Nat} {call : SendCall} {fragment : UdpMessage} {rest : List UdpMessage}
    {encoded : List UInt8} (hcall : s.calls[i]? = some call)
    (hstate : call.state = .sending (fragment :: rest)) (hencode : fragment.encode = .ok encoded) :
    SendStep s { s with
      calls := s.calls.set i { call with state := .sending rest }
      wire := s.wire ++ [encoded] }
  | encodeError {s : Sender} {i : Nat} {call : SendCall} {fragment : UdpMessage} {rest : List UdpMessage}
    {error : ProtocolError} (hcall : s.calls[i]? = some call)
    (hstate : call.state = .sending (fragment :: rest)) (hencode : fragment.encode = .error error) :
    SendStep s { s with
      calls := s.calls.set i { call with state := .returned (.error (.protocol error.display)) } }
  | sendError {s : Sender} {i : Nat} {call : SendCall} {fragment : UdpMessage} {rest : List UdpMessage}
    {encoded : List UInt8} (error : Str) (hcall : s.calls[i]? = some call)
    (hstate : call.state = .sending (fragment :: rest)) (hencode : fragment.encode = .ok encoded) :
    SendStep s { s with calls := s.calls.set i { call with state := .returned (.error (.io error)) } }
  | done {s : Sender} {i : Nat} {call : SendCall}
    (hcall : s.calls[i]? = some call) (hstate : call.state = .sending []) :
    SendStep s { s with calls := s.calls.set i { call with state := .returned (.ok ()) } }

/-! ## Receiving -/

/-- The messages of one session among the datagrams that arrive. -/
def receivedOn (sessionId : UInt32) (datagrams : List (List UInt8)) : List UdpMessage :=
  (datagrams.filterMap fun bytes => (UdpMessage.decode bytes).toOption).filter (·.sessionId = sessionId)

/-- The messages a new session emits. -/
def emittedOn (sessionId : UInt32) (datagrams : List (List UInt8)) : List UdpMessage :=
  (Defragger.feedAll {} (receivedOn sessionId datagrams)).filterMap id

end Hysteria.Impl
