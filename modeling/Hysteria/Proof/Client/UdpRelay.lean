import Hysteria.Impl.Client.UdpRelay
import Hysteria.Proof.Transport.RemoteDatagram

/-!
# What the UDP relays of the client survive

`turn_iff`: the datagrams after which a loop goes on, while the connection and
the local side are open. Each of the loops returns when a datagram cannot be
sent, and that of a SOCKS5 association also when a reply names its source by
something else than a socket address.

`udp_relay_survives_iff` adds the runs: a loop comes to its end as it should, if
all datagrams are such that it goes on.
-/

namespace Hysteria.Proof

open Framework Impl List

/-! ## While nothing fails -/

/-- The connection takes the datagrams that it is given. -/
def OpenUplink (uplink : Uplink) : Prop := ∀ n, uplink.connection.sendDatagramWait n = .ok ()

/-- The local socket takes the packets of up to `largest` bytes. -/
def Takes (largest : Nat) (sendTo : List UInt8 → Except Str Unit) : Prop :=
  ∀ packet, sendTo packet = .ok () ↔ packet.length ≤ largest

def Socks5Open (largest : Nat) : Socks5Event → Prop
  | .control _ => True
  | .localDatagram _ uplink => OpenUplink uplink
  | .message _ sendTo => Takes largest sendTo

def FlowOpen (Accepts : (List UInt8 → Except Str Unit) → Prop) : UdpEvent → Prop
  | .timeout => True
  | .localPacket _ uplink => OpenUplink uplink
  | .message _ deliver => Accepts deliver

/-- The connection and the local side are open at an event. -/
def RelayOpen (largest : Nat) : (kind : RelayKind) → kind.Event → Prop
  | .socks5 => Socks5Open largest
  | .forwarding => FlowOpen (Takes largest)
  -- Packets for the TUN device go through a channel.
  | .tun => FlowOpen fun send => ∀ packet, send packet = .ok ()

def Socks5Ends : Socks5Event → Prop
  | .control (.ok size) => size = 0
  | .control (.error _) => True
  | .localDatagram (.error _) _ => True
  | .message none _ => True
  | _ => False

def FlowEnds : UdpEvent → Prop
  | .timeout => True
  | .localPacket none _ => True
  | .message none _ => True
  | _ => False

/-- The ends that a loop is meant to have: the idle timeout, a closed control
stream or channel, a failure of the local socket. -/
def RelayEnds : (kind : RelayKind) → kind.Event → Prop
  | .socks5 => Socks5Ends
  | .forwarding | .tun => FlowEnds

/-! ## The datagrams that a loop survives -/

/-- The datagram can be sent with its target. -/
def CanSend (session : UdpSession) (uplink : Uplink) (data : List UInt8) (target : Str) : Prop :=
  ∃ maxSize, uplink.connection.maxDatagramSize = some maxSize ∧
    (udpPacket session.sessionId target data).addressLen ≤ maxMessageLength ∧
    Sendable maxSize (udpPacket session.sessionId target data)

/-- A datagram of the client can be sent, and a reply has a socket address for
its source and fits the local socket. -/
def Socks5Survives (texts : RelayTexts) (largest : Nat) (relay : Socks5Relay) : Socks5Event → Prop
  | .localDatagram (.ok (datagram, source)) uplink =>
    ∀ target payload, relay.clientAddress.any (· ≠ source) = false →
      decodeUdpDatagram texts datagram = .ok (target, payload) → CanSend relay.session uplink payload target
  | .message (some message) _ =>
    ∀ payload source, relay.clientAddress ≠ none → (relay.session.receive message).1 = some (payload, source) →
      ∃ address, parseSocketAddr source = some address ∧
        3 + (encodeSocketAddress address).length + payload.length ≤ largest
  | _ => True

def PeerSurvives (largest : Nat) (flow : UdpPeer) : UdpEvent → Prop
  | .localPacket (some packet) uplink => CanSend flow.session uplink packet flow.remote
  | .message (some message) _ =>
    ∀ payload source, (flow.session.receive message).1 = some (payload, source) → payload.length ≤ largest
  | _ => True

def TunSurvives (flow : TunFlow) : UdpEvent → Prop
  | .localPacket (some packet) uplink => CanSend flow.session uplink packet flow.destination.display
  | _ => True

def Survives (texts : RelayTexts) (largest : Nat) : (kind : RelayKind) → kind.State → kind.Event → Prop
  | .socks5 => Socks5Survives texts largest
  | .forwarding => PeerSurvives largest
  | .tun => TunSurvives

/-! ## One event -/

variable {txts : RelayTexts} {largest : Nat} {uplink : Uplink}

/-- The loop goes on. -/
def Goes {σ : Type} : Turn σ → Prop
  | .next _ _ => True
  | .stop _ => False

/-- A loop that sends a datagram, and returns if that fails. -/
theorem goes_sent_iff {σ : Type} (sess : UdpSession) (ho : OpenUplink uplink) (data : List UInt8) (tgt : Str)
    (res : TransportError → Except Str Unit) (st : σ) :
    Goes (match (sess.send uplink data tgt).result with
      | .error err => .stop (res err)
      | .ok () => .next st (.sent (sess.send uplink data tgt).datagrams)) ↔
      CanSend sess uplink data tgt := by
  have hi := send_result_iff ho uplink.counter (udpPacket sess.sessionId tgt data)
  rcases hr : (sess.send uplink data tgt).result with err | u
  · exact iff_of_false id fun h => by cases hr.symm.trans (hi.mpr h)
  · exact iff_of_true trivial (hi.mp hr)

/-- A loop that delivers a packet, and returns if that fails. -/
theorem goes_delivered_iff {σ : Type} (deliver : List UInt8 → Except Str Unit) (pkt : List UInt8)
    (res : Str → Except Str Unit) (st : σ) (relayed : Relayed) :
    Goes (match deliver pkt with
      | .error err => .stop (res err)
      | .ok () => .next st relayed) ↔ deliver pkt = .ok () := by
  rcases deliver pkt with err | u
  · exact iff_of_false id nofun
  · exact iff_of_true trivial rfl

theorem encodeUdpDatagram_eq {src : Str} {addr : SocketAddr} (h : parseSocketAddr src = some addr) (pay : List UInt8) :
    encodeUdpDatagram txts src pay = .ok ([0, 0, 0] ++ encodeSocketAddress addr ++ pay) := by
  rw [encodeUdpDatagram, h]

theorem relayUdp_goes_iff (relay : Socks5Relay) {ev : Socks5Event} (ho : Socks5Open largest ev)
    (he : ¬ Socks5Ends ev) : Goes (relayUdp txts relay ev) ↔ Socks5Survives txts largest relay ev := by
  cases ev with
  | control read =>
    rcases read with err | size
    · exact absurd trivial he
    · have hs : size ≠ 0 := he
      simp [relayUdp, hs, Goes, Socks5Survives]
  | localDatagram recv uplink =>
    rcases recv with err | recv
    · exact absurd trivial he
    obtain ⟨dg, src⟩ := recv
    simp only [relayUdp, Socks5Survives]
    cases relay.clientAddress.any (· ≠ src) with
    | true => simp [Goes]
    | false =>
      rcases decodeUdpDatagram txts dg with err | decoded
      · simp [Goes]
      obtain ⟨tgt, pay⟩ := decoded
      refine (goes_sent_iff relay.session ho pay tgt _ _).trans ?_
      simp
  | message msg sendTo =>
    rcases msg with _ | msg
    · exact absurd trivial he
    have ht : Takes largest sendTo := ho
    simp only [relayUdp, Socks5Survives]
    rcases relay.clientAddress with _ | client
    · simp [Goes]
    rcases hr : relay.session.receive msg with ⟨_ | ⟨pay, src⟩, sess⟩
    · simp [Goes]
    rcases hp : parseSocketAddr src with _ | addr
    · simp [Goes, encodeUdpDatagram, hp]
    have hl : ([0, 0, 0] ++ encodeSocketAddress addr ++ pay).length =
        3 + (encodeSocketAddress addr).length + pay.length := by
      grind
    simp only [encodeUdpDatagram_eq hp]
    refine (goes_delivered_iff sendTo _ _ _ _).trans ((ht _).trans ?_)
    rw [hl]
    simp [hp]

theorem runUdpPeer_goes_iff (flow : UdpPeer) {ev : UdpEvent} (ho : FlowOpen (Takes largest) ev)
    (he : ¬ FlowEnds ev) : Goes (runUdpPeer flow ev) ↔ PeerSurvives largest flow ev := by
  cases ev with
  | timeout => exact absurd trivial he
  | localPacket pkt uplink =>
    rcases pkt with _ | pkt
    · exact absurd trivial he
    · exact goes_sent_iff flow.session ho pkt flow.remote _ flow
  | message msg deliver =>
    rcases msg with _ | msg
    · exact absurd trivial he
    have ht : Takes largest deliver := ho
    simp only [runUdpPeer, PeerSurvives]
    rcases hr : flow.session.receive msg with ⟨_ | ⟨pay, src⟩, sess⟩
    · simp [Goes]
    · refine (goes_delivered_iff deliver pay _ _ _).trans ((ht pay).trans ?_)
      simp

theorem runUdpFlow_goes_iff (flow : TunFlow) {ev : UdpEvent} (ho : FlowOpen (fun send => ∀ pkt, send pkt = .ok ()) ev)
    (he : ¬ FlowEnds ev) : Goes (runUdpFlow flow ev) ↔ TunSurvives flow ev := by
  cases ev with
  | timeout => exact absurd trivial he
  | localPacket pkt uplink =>
    rcases pkt with _ | pkt
    · exact absurd trivial he
    · exact goes_sent_iff flow.session ho pkt flow.destination.display _ flow
  | message msg send =>
    rcases msg with _ | msg
    · exact absurd trivial he
    have ht : ∀ pkt, send pkt = .ok () := ho
    simp only [runUdpFlow, TunSurvives, iff_true]
    rcases flow.session.receive msg with ⟨_ | ⟨pay, src⟩, sess⟩
    · trivial
    rcases hp : parseSocketAddr src with _ | addr
    · simp only [hp]; trivial
    · simp only [hp, ht]; trivial

theorem turn_iff (txts : RelayTexts) (largest : Nat) (kind : RelayKind) (st : kind.State) (ev : kind.Event)
    (ho : RelayOpen largest kind ev) (he : ¬ RelayEnds kind ev) :
    Goes (kind.turn txts st ev) ↔ Survives txts largest kind st ev := by
  cases kind with
  | socks5 => exact relayUdp_goes_iff st ho he
  | forwarding => exact runUdpPeer_goes_iff st ho he
  | tun => exact runUdpFlow_goes_iff st ho he

/-! ## Runs -/

/-- The loop goes on to the next state. -/
def Onward (texts : RelayTexts) (kind : RelayKind) (state : kind.State) (event : kind.Event) (next : kind.State) :
    Prop :=
  ∃ relayed, kind.turn texts state event = .next next relayed

theorem goes_iff_onward {txts : RelayTexts} {kind : RelayKind} {st : kind.State} {ev : kind.Event} :
    Goes (kind.turn txts st ev) ↔ ∃ next, Onward txts kind st ev next := by
  unfold Onward
  cases kind.turn txts st ev with
  | next next relayed => exact iff_of_true trivial ⟨next, relayed, rfl⟩
  | stop res => exact iff_of_false id nofun

theorem onward_iff (txts : RelayTexts) (largest : Nat) (kind : RelayKind) (st : kind.State) (ev : kind.Event)
    (ho : RelayOpen largest kind ev) (he : ¬ RelayEnds kind ev) :
    (∃ next, Onward txts kind st ev next) ↔ Survives txts largest kind st ev :=
  goes_iff_onward.symm.trans (turn_iff txts largest kind st ev ho he)

/-- While the connection and the local side are open, a loop goes on after a
datagram exactly if it can be sent, or delivered with its source. In a run in
which all datagrams are such, the loop sees all events, or one of them is an end
that it is meant to have. -/
theorem udp_relay_survives_iff (texts : RelayTexts) (largest : Nat) (kind : RelayKind) (state : kind.State) :
    (∀ event, RelayOpen largest kind event → ¬ RelayEnds kind event →
      ((∃ next, Onward texts kind state event next) ↔ Survives texts largest kind state event)) ∧
    ∀ events, (∀ event ∈ events, RelayOpen largest kind event) →
      (∀ before event after s, events = before ++ event :: after → Trace (Onward texts kind) state before s →
        Survives texts largest kind s event) →
      (∃ last, Trace (Onward texts kind) state events last) ∨ ∃ event ∈ events, RelayEnds kind event := by
  constructor
  · exact onward_iff texts largest kind state
  intro events hop hs
  refine Trace.through (C := fun s event => RelayOpen largest kind event ∧ Survives texts largest kind s event)
    ?_ fun before event after s heq run => ⟨hop event (by simp [heq]), hs before event after s heq run⟩
  rintro s event ⟨ho, hsr⟩
  by_cases he : RelayEnds kind event
  · exact .inl he
  · exact .inr ((onward_iff texts largest kind s event ho he).mpr hsr)

/-! ## Datagrams that end a relay -/

/-- A connection that takes datagrams of 1200 bytes. -/
def wideUplink : Uplink := ⟨wideConnection, 0⟩

theorem openUplink_wide : OpenUplink wideUplink := fun _ => rfl

def exampleRelayTexts : RelayTexts := ⟨fun _ => [], fun _ => []⟩

/-- A socket that takes packets of up to 65507 bytes. -/
def exampleSendTo (packet : List UInt8) : Except Str Unit :=
  if packet.length ≤ 65507 then .ok () else .error "Message too long"

theorem takes_exampleSendTo : Takes 65507 exampleSendTo := by
  intro pkt
  unfold exampleSendTo
  split
  · rename_i h
    exact iff_of_true rfl h
  · rename_i h
    exact iff_of_false nofun h

def forwardingPeer : UdpPeer := ⟨⟨7, {}⟩, nameServer, "a.test:53"⟩

def exampleFlow : TunFlow := ⟨⟨7, {}⟩, nameServer, nameServer⟩

/-- The client is known, as it has sent a datagram already. -/
def exampleRelay : Socks5Relay := ⟨⟨7, {}⟩, some nameServer⟩

/-- 4096 bytes from the local side. -/
def fullPacket : UdpEvent := .localPacket (some (List.replicate maxUdpSize 0)) wideUplink

/-- A reply that names its source by a domain. -/
def domainReply : Socks5Event := .message (some (udpPacket 7 "a.test:53" [1])) exampleSendTo

/-- A datagram of 4096 bytes ends a forwarding and a TUN flow, and a reply from
`a.test:53` ends a SOCKS5 association. -/
theorem udp_relay_ends : (RelayOpen 65507 .forwarding fullPacket ∧ ¬ RelayEnds .forwarding fullPacket ∧
      ¬ ∃ next, Onward exampleRelayTexts .forwarding forwardingPeer fullPacket next) ∧
    (RelayOpen 65507 .tun fullPacket ∧ ¬ RelayEnds .tun fullPacket ∧
      ¬ ∃ next, Onward exampleRelayTexts .tun exampleFlow fullPacket next) ∧
    (RelayOpen 65507 .socks5 domainReply ∧ ¬ RelayEnds .socks5 domainReply ∧
      ¬ ∃ next, Onward exampleRelayTexts .socks5 exampleRelay domainReply next) := by
  have hf (sess : UdpSession) (tgt : Str) : ¬ CanSend sess wideUplink (replicate maxUdpSize 0) tgt := by
    rintro ⟨maxSize, -, -, hs, -⟩
    simp only [UdpMessage.encodedSize, UdpMessage.headerSize, udpPacket, length_replicate] at hs
    omega
  refine ⟨⟨openUplink_wide, id, ?_⟩, ⟨openUplink_wide, id, ?_⟩, ⟨takes_exampleSendTo, id, ?_⟩⟩
  · rw [onward_iff exampleRelayTexts 65507 .forwarding forwardingPeer fullPacket openUplink_wide id]
    exact hf _ _
  · rw [onward_iff exampleRelayTexts 65507 .tun exampleFlow fullPacket openUplink_wide id]
    exact hf _ _
  rw [onward_iff exampleRelayTexts 65507 .socks5 exampleRelay domainReply takes_exampleSendTo id]
  intro hs
  obtain ⟨addr, hp, -⟩ := hs [1] "a.test:53" (by decide) rfl
  cases hp

/-- One byte for the remote of a forwarding, and then the idle timeout. -/
theorem udp_relay_survives_small :
    (∃ next, Onward exampleRelayTexts .forwarding forwardingPeer (.localPacket (some [1]) wideUplink) next) ∧
    ((∃ last, Trace (Onward exampleRelayTexts .forwarding) forwardingPeer
        [UdpEvent.localPacket (some [1]) wideUplink, .timeout] last) ∨
      ∃ event ∈ [UdpEvent.localPacket (some [1]) wideUplink, .timeout], RelayEnds .forwarding event) := by
  obtain ⟨hev, hr⟩ := udp_relay_survives_iff exampleRelayTexts 65507 .forwarding forwardingPeer
  have hs : CanSend forwardingPeer.session wideUplink [1] forwardingPeer.remote := by
    refine ⟨1200, rfl, by decide +kernel, ?_⟩
    unfold Sendable
    decide +kernel
  refine ⟨(hev (.localPacket (some [1]) wideUplink) openUplink_wide id).mpr hs, hr _ ?_ ?_⟩
  · intro event hm
    simp only [mem_cons, not_mem_nil, or_false] at hm
    rcases hm with rfl | rfl
    · exact openUplink_wide
    · trivial
  · rintro before event after s heq run
    rcases before with _ | ⟨first, before⟩
    · cases run
      cases heq
      exact hs
    rcases before with _ | ⟨second, before⟩
    · cases heq
      trivial
    · simp at heq

end Hysteria.Proof
