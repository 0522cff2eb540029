import Hysteria.Impl.Outbound.Direct
import Hysteria.Proof.Outbound.Socks5
import Hysteria.Proof.Transport.DatagramSender
import Hysteria.Proof.Transport.ServerSession

/-!
# Datagrams from the remote side

`send_ok_iff`: which messages `send` gets to the client over a connection that
takes datagrams. `remote_datagram_survived`: which datagrams a session survives,
and that nothing else but the ends it is meant to have ends it in a run of such
datagrams.
-/

namespace Hysteria.Proof

open Framework Impl Spec List

variable {σ τ κ : Type} {conn : Connection} {maxSize : Nat}

variable {payload : List UInt8} {d : RemoteDatagram} {m : UdpMessage}

/-! ## Sending -/

/-- The connection is open and takes datagrams of up to `maxSize` bytes. -/
structure Accepting (connection : Connection) (maxSize : Nat) : Prop where
  size : connection.maxDatagramSize = some maxSize
  sends : ∀ n, connection.sendDatagramWait n = .ok ()

/-- With its header the message has at most `maxUdpSize` bytes, and it fits one
datagram or at most 255 fragments. -/
def Sendable (maxSize : Nat) (m : UdpMessage) : Prop := m.encodedSize ≤ maxUdpSize ∧ (m.encodedSize ≤ maxSize ∨
    m.headerSize < maxSize ∧ divCeil m.data.length (maxSize - m.headerSize) ≤ 255)

theorem sendFragments_ok (h : Accepting conn maxSize) :
    ∀ (n : Nat) (fs : List UdpMessage), (∀ f ∈ fs, f.addressLen ≤ maxMessageLength) →
      (sendFragments conn n fs).1 = .ok ()
  | _, [], _ => rfl
  | n, f :: fs, hfs => by
    obtain ⟨bs, he, -⟩ := UdpMessage.encode_ok (hfs f mem_cons_self)
    have hs : sendOne conn n f = .ok bs := by simp only [sendOne, he, h.sends]
    rw [sendFragments, hs]
    exact sendFragments_ok h (n + 1) fs fun f hf => hfs f (mem_cons_of_mem _ hf)

theorem afterId_ok_iff (h : Accepting conn maxSize) (had : m.addressLen ≤ maxMessageLength)
    (hft : maxSize < m.encodedSize) (pid : UInt16) (ctr : UInt32) :
    (afterId conn m maxSize pid ctr).result = .ok () ↔
      m.headerSize < maxSize ∧ divCeil m.data.length (maxSize - m.headerSize) ≤ 255 := by
  -- A packet ID does not change the sizes.
  have hfit' : maxSize < ({ m with packetId := pid } : UdpMessage).encodedSize := hft
  unfold afterId SendState.fragment
  constructor
  · intro hok
    simp only at hok
    rcases hfr : fragmentUdpMessage { m with packetId := pid } maxSize with err | fs
    · rw [hfr] at hok
      cases hok
    rw [hfr] at hok
    rcases fragmentUdpMessage_cases hfr with ⟨hle, -⟩ | ⟨-, -, rfl⟩ | ⟨p, hp, -, hm, hc, -⟩
    · exact absurd hle (by omega)
    · cases hok
    have hs : maxSize = m.headerSize + p := hm
    grind
  · rintro ⟨hh, hc⟩
    have hfr := fragmentUdpMessage_pieces hfit' hh (Nat.lt_succ_of_le hc)
    have ha : ∀ f ∈ pieces { m with packetId := pid } (maxSize - m.headerSize), f.addressLen ≤ maxMessageLength := by
      intro f hf
      rw [UdpMessage.addressLen, (encodedSize_piece (by omega) hf).1]
      exact had
    simp only
    rw [show fragmentUdpMessage { m with packetId := pid } maxSize = _ from hfr]
    have hne : pieces { m with packetId := pid } (maxSize - m.headerSize) ≠ [] := by
      rw [← length_pos_iff, length_pieces, lt_divCeil (by omega)]
      grind [UdpMessage.encodedSize]
    cases hpc : pieces { m with packetId := pid } (maxSize - m.headerSize) with
    | nil => exact absurd hpc hne
    | cons f fs =>
      rw [hpc] at ha
      rw [show pieces { m with packetId := pid } (maxSize - UdpMessage.headerSize { m with packetId := pid }) = f :: fs
        from hpc]
      exact sendFragments_ok h 0 (f :: fs) ha

theorem send_ok_iff (h : Accepting conn maxSize) (ctr : UInt32) (ha : m.addressLen ≤ maxMessageLength) :
    (send conn ctr m).result = .ok () ↔ Sendable maxSize m := by
  unfold Sendable
  by_cases hs : m.encodedSize > maxUdpSize
  · simp_all [send]
  simp only [Nat.le_of_not_lt hs, true_and]
  by_cases hf : m.encodedSize ≤ maxSize
  · refine iff_of_true ?_ (.inl hf)
    simp only [send, if_neg hs, h.size, if_pos hf]
    exact sendFragments_ok h 0 [m] (by simpa using ha)
  · rw [send_eq_afterId hs h.size hf, afterId_ok_iff h ha (by omega)]
    simp only [hf, false_or]

theorem sendFragments_address (h : maxMessageLength < m.addressLen) (n : Nat) (fs : List UdpMessage) :
    (sendFragments conn n (m :: fs)).1 ≠ .ok () := by
  have he : m.encode = .error (.invalidAddressLength (UInt64.ofNat m.addressLen)) := by
    rw [UdpMessage.encode, if_pos h]
    rfl
  simp [sendFragments, sendOne, he]

/-- Every piece has the address of the message. -/
theorem address_of_fragment {f : UdpMessage} {fs : List UdpMessage} (h : fragmentUdpMessage m maxSize = .ok fs)
    (hf : f ∈ fs) : f.address = m.address := by
  rcases fragmentUdpMessage_cases h with ⟨-, rfl⟩ | ⟨-, -, rfl⟩ | ⟨p, hp, -, -, -, rfl⟩
  · rw [mem_singleton.mp hf]
  · cases hf
  · exact (encodedSize_piece hp hf).1

/-- A message with an address that is too long is not sent, in whatever pieces. -/
theorem send_address (h : maxMessageLength < m.addressLen) (ctr : UInt32) : (send conn ctr m).result ≠ .ok () := by
  unfold send
  split
  · exact nofun
  split
  · exact nofun
  split
  · exact sendFragments_address h 0 []
  dsimp only
  split
  · exact nofun
  · exact nofun
  rename_i maxSize _ _ fs hne hf
  rcases fs with _ | ⟨f, fs⟩
  · exact absurd rfl hne
  have ha : f.addressLen = m.addressLen := by
    rw [UdpMessage.addressLen, address_of_fragment hf mem_cons_self]
    rfl
  exact sendFragments_address (ha ▸ h) 0 fs

/-- Over an open connection, the size of the message decides. -/
theorem send_result_iff (hsn : ∀ n, conn.sendDatagramWait n = .ok ()) (ctr : UInt32) (m : UdpMessage) :
    (send conn ctr m).result = .ok () ↔
      ∃ maxSize, conn.maxDatagramSize = some maxSize ∧ m.addressLen ≤ maxMessageLength ∧ Sendable maxSize m := by
  by_cases ha : m.addressLen ≤ maxMessageLength
  · rcases hs : conn.maxDatagramSize with _ | maxSize
    · refine iff_of_false (fun hok => ?_) (by simp)
      rw [send, hs] at hok
      split at hok <;> cases hok
    · simp [send_ok_iff ⟨hs, hsn⟩ ctr ha, ha]
  · exact iff_of_false (send_address (by omega) ctr) (by simp [ha])

/-! ## What the sockets make of a datagram -/

/-- A datagram that reaches the socket of a session, of either kind. -/
inductive RemoteDatagram where
  | direct (data : List UInt8) (source : SocketAddr)
  | socks5 (packet : List UInt8)

/-- It is not longer than what the socket reads at once. -/
def RemoteDatagram.Fits : RemoteDatagram → Prop
  | .direct data _ => data.length ≤ maxUdpSize
  | .socks5 packet => packet.length ≤ maxUdpSize + 262

/-- `recv_from` with the buffer of the session. -/
def RemoteDatagram.recvFrom : RemoteDatagram → Except TransportError (List UInt8 × Str)
  | .direct data source => .ok (ConfigurableDirectUdp.recvFrom maxUdpSize data source)
  | .socks5 packet => socks5RecvFrom maxUdpSize packet

/-- The payload that a datagram carries, and where it is from. -/
def RemoteDatagram.Carries : RemoteDatagram → List UInt8 → Str → Prop
  | .direct data address, payload, source => payload = data ∧ source = address.display
  | .socks5 packet, payload, source => UdpPacket packet payload source

theorem recvFrom_iff (hf : d.Fits) {src : Str} :
    d.recvFrom = .ok (payload, src) ↔ d.Carries payload src ∧ payload.length ≤ maxUdpSize := by
  cases d with
  | direct data addr =>
    simp only [RemoteDatagram.recvFrom, ConfigurableDirectUdp.recvFrom, RemoteDatagram.Carries,
      take_of_length_le hf, Except.ok.injEq, Prod.mk.injEq]
    constructor
    · rintro ⟨rfl, rfl⟩
      exact ⟨⟨rfl, rfl⟩, hf⟩
    grind
  | socks5 pkt => exact socks5RecvFrom_iff hf

theorem length_formatAuthority_le (host : Str) (port : UInt16) :
    (formatAuthority host port).length ≤ host.length + 8 := by
  have hp : (showNat port.toNat).length ≤ 5 := length_showNat_le (by decide) (Nat.lt_trans port.toNat_lt (by decide))
  have hb : "]:".toList.length = 2 := rfl
  unfold formatAuthority
  grind

theorem length_host_le {bs : List UInt8} {host : Str} (h : HostBytes bs host) : host.length ≤ 255 := by
  cases h with
  | v4 _ => exact Nat.le_trans (length_display_le _) (by decide)
  | v6 _ => exact Nat.le_trans (length_display_le _) (by decide)
  | domain hl hn =>
    rename_i len name
    have := length_le_of_fromUtf8 hn
    have := len.toNat_lt
    omega

theorem addressLen_le_of_carries {src : Str} (h : d.Carries payload src) (sid : UInt32) :
    (udpPacket sid src payload).addressLen ≤ maxMessageLength := by
  have hl : src.length ≤ 263 := by
    cases d with
    | direct data addr =>
      rw [h.2]
      exact Nat.le_trans (length_socketDisplay_le addr) (by decide)
    | socks5 pkt =>
      obtain ⟨bs, host, port, hbs, -, rfl, -⟩ := h
      grind [length_formatAuthority_le, length_host_le]
  have := length_utf8_le src
  simp only [UdpMessage.addressLen, udpPacket, maxMessageLength]
  omega

/-! ## The relay loop -/

/-- The payload passes the traffic limit. -/
def Allowed (context : ServerUdpContext σ τ κ) (payload : List UInt8) (world : σ) : Prop :=
  (logTraffic context.trafficLogger context.authId 0 (UInt64.ofNat payload.length) world).1 = true

theorem relayRemote_cases (ctx : ServerUdpContext σ τ κ) (sid : UInt32) (df : Defragger) (sock : τ)
    (h : Accepting conn maxSize) (ctr : UInt32) {src : Str} (hc : d.Carries payload src) (w : σ) :
    let r := relayRemote ctx sid df sock payload src conn ctr w
    ¬ Allowed ctx payload w ∧ r.1 = .removing ∧ r.2.2 = [.close] ∨
      Allowed ctx payload w ∧ Sendable maxSize (udpPacket sid src payload) ∧ r.1 = .relay df sock ∧
        r.2.2 = [.reply (send conn ctr (udpPacket sid src payload)).datagrams] ∨
      Allowed ctx payload w ∧ ¬ Sendable maxSize (udpPacket sid src payload) ∧
        r.1 = .removing ∧ .close ∉ r.2.2 := by
  have hsn := send_ok_iff h ctr (addressLen_le_of_carries hc sid)
  unfold relayRemote Allowed
  cases logTraffic ctx.trafficLogger ctx.authId 0 (UInt64.ofNat payload.length) w with
  | mk allowed w =>
  cases allowed with
  | false => exact .inl ⟨by simp, rfl, rfl⟩
  | true =>
  simp only
  rcases hr : (send conn ctr (udpPacket sid src payload)).result with err | u
  · grind
  grind

/-- The datagram can be delivered to the client: it carries a payload of at
most `maxUdpSize` bytes that can be sent with its source. -/
def Deliverable (maxSize : Nat) (sessionId : UInt32) (d : RemoteDatagram) : Prop :=
  ∃ payload source, d.Carries payload source ∧ payload.length ≤ maxUdpSize ∧
    Sendable maxSize (udpPacket sessionId source payload)

theorem datagram_step_iff (ctx : ServerUdpContext σ τ κ) (sid : UInt32) (df : Defragger)
    (sock : τ) (h : Accepting conn maxSize) (ctr : UInt32) (hf : d.Fits) (w : σ) :
    let r := sessionStep ctx sid (.relay df sock) (.remote d.recvFrom conn ctr) w
    r.1 = .relay df sock ∨ .close ∈ r.2.2 ↔ ∃ payload src, d.Carries payload src ∧ payload.length ≤ maxUdpSize ∧
        (Allowed ctx payload w → Sendable maxSize (udpPacket sid src payload)) := by
  rcases hr : d.recvFrom with err | recv
  · simp only [sessionStep]
    refine iff_of_false (by simp) ?_
    rintro ⟨payload, src, hc, hl, -⟩
    rw [(recvFrom_iff hf).mpr ⟨hc, hl⟩] at hr
    cases hr
  · obtain ⟨payload, src⟩ := recv
    obtain ⟨hc, hl⟩ := (recvFrom_iff hf).mp hr
    simp only [sessionStep]
    constructor
    · intro hgo
      refine ⟨payload, src, hc, hl, fun ha => ?_⟩
      rcases relayRemote_cases ctx sid df sock h ctr hc w with
        ⟨hno, -⟩ | ⟨-, hs, -⟩ | ⟨-, -, hst, hcl⟩
      · exact absurd ha hno
      · exact hs
      grind
    · rintro ⟨pay', src', hcar', hlen', hs⟩
      have hsm := (recvFrom_iff hf).mpr ⟨hcar', hlen'⟩
      rw [hr] at hsm
      cases hsm
      rcases relayRemote_cases ctx sid df sock h ctr hc w with
        ⟨-, -, hac⟩ | ⟨-, -, hst, -⟩ | ⟨ha, hno, -⟩
      · exact .inr (by simp [hac])
      · exact .inl hst
      · exact absurd (hs ha) hno

/-- What a session in its relay loop may see. -/
inductive RelayEvent where
  | timeout
  | client (message : Option UdpMessage)
  | socketFailure (error : TransportError)
  | datagram (d : RemoteDatagram) (connection : Connection) (counter : UInt32)

def RelayEvent.event : RelayEvent → SessionEvent
  | .timeout => .timeout
  | .client message => .client message
  | .socketFailure error => .remote (.error error) { maxDatagramSize := none, sendDatagramWait := fun _ => .ok () } 0
  | .datagram d connection counter => .remote d.recvFrom connection counter

/-- The ends that a session is meant to have, up to the traffic limit. -/
def RelayEvent.Ends (e : RelayEvent) : Prop := e = .timeout ∨ e = .client none ∨ ∃ error, e = .socketFailure error

/-- A datagram arrives while the connection takes datagrams, and can be delivered. -/
def RelayEvent.Delivers (sessionId : UInt32) : RelayEvent → Prop
  | .datagram d connection _ => d.Fits ∧ ∃ maxSize, Accepting connection maxSize ∧ Deliverable maxSize sessionId d
  | _ => True

/-- One event that is not an end: the loop goes on, or the traffic limit is reached. -/
theorem relay_step (ctx : ServerUdpContext σ τ κ) {sid : UInt32} (df : Defragger) (sock : τ)
    {e : RelayEvent} (he : ¬ e.Ends) (hd : e.Delivers sid) (w : σ) :
    let r := sessionStep ctx sid (.relay df sock) e.event w
    (∃ df', r.1 = .relay df' sock) ∨ .close ∈ r.2.2 := by
  cases e with
  | timeout => exact absurd (.inl rfl) he
  | socketFailure err => exact absurd (.inr (.inr ⟨err, rfl⟩)) he
  | client msg =>
    rcases msg with _ | msg
    · exact absurd (.inr (.inl rfl)) he
    · exact .inl ⟨_, (relayClient_forwards ctx df sock msg w).1⟩
  | datagram d conn ctr =>
    obtain ⟨hf, maxSize, ha, payload, src, hc, hl, hs⟩ := hd
    exact ((datagram_step_iff ctx sid df sock ha ctr hf w).mpr
      ⟨payload, src, hc, hl, fun _ => hs⟩).imp_left fun h => ⟨df, h⟩

theorem relay_run (ctx : ServerUdpContext σ τ κ) (sid : UInt32) (sock : τ) :
    ∀ (evs : List RelayEvent) (df : Defragger) (w : σ), (∀ e ∈ evs, e.Delivers sid) →
      let r := runSession ctx sid (.relay df sock) (evs.map (·.event)) w
      (∃ df', r.1 = .relay df' sock) ∨ (∃ e ∈ evs, e.Ends) ∨ .close ∈ r.2.2
  | [], df, _, _ => .inl ⟨df, rfl⟩
  | e :: evs, df, w, ha => by
    by_cases hen : e.Ends
    · grind
    simp only [map_cons, runSession]
    rcases relay_step ctx df sock hen (ha e mem_cons_self) w with ⟨d', hst⟩ | hc
    · have ih := relay_run ctx sid sock evs d'
        (sessionStep ctx sid (.relay df sock) e.event w).2.1
        fun e he => ha e (mem_cons_of_mem _ he)
      grind
    · exact .inr (.inr (mem_append_left _ hc))

/-- A datagram from the remote side leaves a session going, up to the traffic
limit, exactly if it can be delivered (a datagram that the limit stops need not
be). In a run in which all datagrams can be delivered, the loop ends only with
the idle timeout, the closed channel, a failure of the socket or the traffic
limit. -/
theorem remote_datagram_survived (context : ServerUdpContext σ τ κ) (sessionId : UInt32) (defragger : Defragger)
    (socket : τ) (world : σ) :
    (∀ (d : RemoteDatagram) (connection : Connection) (maxSize : Nat) (counter : UInt32), d.Fits →
      Accepting connection maxSize →
      let r := sessionStep context sessionId (.relay defragger socket) (.remote d.recvFrom connection counter) world
      (r.1 = .relay defragger socket ∨ .close ∈ r.2.2 ↔
        ∃ payload source, d.Carries payload source ∧ payload.length ≤ maxUdpSize ∧
          (Allowed context payload world → Sendable maxSize (udpPacket sessionId source payload)))) ∧
    ∀ events : List RelayEvent, (∀ e ∈ events, e.Delivers sessionId) →
      let r := runSession context sessionId (.relay defragger socket) (events.map (·.event)) world
      (∃ df', r.1 = .relay df' socket) ∨ (∃ e ∈ events, e.Ends) ∨ .close ∈ r.2.2 :=
  ⟨fun _ _ _ counter hf ha =>
      datagram_step_iff context sessionId defragger socket ha counter hf world,
    fun events => relay_run context sessionId socket events defragger world⟩

/-! ## Datagrams that end a session -/

/-- A server without a traffic limit. -/
def unlimitedContext : ServerUdpContext Unit Unit Unit := { namingContext with requestHook := none }

/-- A connection that takes datagrams of 1200 bytes. -/
def wideConnection : Connection where
  maxDatagramSize := some 1200
  sendDatagramWait _ := .ok ()

theorem accepting_wide : Accepting wideConnection 1200 := ⟨rfl, fun _ => rfl⟩

/-- `192.0.2.1:53`. -/
def nameServer : SocketAddr := { ip := .v4 0xc0000201, port := 53 }

/-- 4096 bytes. -/
def fullDatagram : RemoteDatagram := .direct (List.replicate maxUdpSize 0) nameServer

/-- A SOCKS5 packet with an address type that there is not. -/
def strayPacket : RemoteDatagram := .socks5 [0, 0, 0, 9]

theorem full_datagram_ends {data : List UInt8} (hd : d = .direct data nameServer) (hl : data.length = maxUdpSize) :
    d.Fits ∧ let r := sessionStep unlimitedContext 7 (.relay {} ()) (.remote d.recvFrom wideConnection 0) ()
      ¬ (r.1 = .relay {} () ∨ .close ∈ r.2.2) := by
  subst hd
  have hf : (RemoteDatagram.direct data nameServer).Fits := Nat.le_of_eq hl
  refine ⟨hf, fun hgo => ?_⟩
  obtain ⟨payload, src, ⟨rfl, rfl⟩, -, hs⟩ :=
    (datagram_step_iff unlimitedContext 7 {} () accepting_wide 0 hf ()).mp hgo
  have hsz := (hs rfl).1
  simp only [UdpMessage.encodedSize, UdpMessage.headerSize, udpPacket, hl] at hsz
  omega

/-- A datagram that fills the buffer ends the session, and so does a SOCKS5
packet that is not well formed. -/
theorem remote_datagram_ends : (fullDatagram.Fits ∧
      let r := sessionStep unlimitedContext 7 (.relay {} ()) (.remote fullDatagram.recvFrom wideConnection 0) ()
      ¬ (r.1 = .relay {} () ∨ .close ∈ r.2.2)) ∧
    (strayPacket.Fits ∧
      let r := sessionStep unlimitedContext 7 (.relay {} ()) (.remote strayPacket.recvFrom wideConnection 0) ()
      ¬ (r.1 = .relay {} () ∨ .close ∈ r.2.2)) := by
  refine ⟨full_datagram_ends rfl length_replicate, by simp [strayPacket, RemoteDatagram.Fits], ?_⟩
  have hd : decodeAddress [0, 0, 0, 9] 3 = .error (protocolError "invalid SOCKS5 address type") := rfl
  simp [strayPacket, RemoteDatagram.recvFrom, socks5RecvFrom, hd, sessionStep, maxUdpSize]

/-- A datagram of one byte. -/
def smallDatagram : RemoteDatagram := .direct [1] nameServer

theorem sendable_small : Sendable 1200 (udpPacket 7 nameServer.display [1]) := by
  unfold Sendable
  decide +kernel

theorem remote_datagram_survived_small :
    (let r := sessionStep unlimitedContext 7 (.relay {} ()) (.remote smallDatagram.recvFrom wideConnection 0) ()
     r.1 = .relay {} () ∨ .close ∈ r.2.2) ∧
    (let r := runSession unlimitedContext 7 (.relay {} ())
       ([RelayEvent.datagram smallDatagram wideConnection 0, .timeout].map (·.event)) ()
     (∃ defragger', r.1 = .relay defragger' ()) ∨
       (∃ e ∈ [RelayEvent.datagram smallDatagram wideConnection 0, .timeout], e.Ends) ∨ .close ∈ r.2.2) := by
  have hf : smallDatagram.Fits := by simp [smallDatagram, RemoteDatagram.Fits, maxUdpSize]
  have hc : smallDatagram.Carries [1] nameServer.display := ⟨rfl, rfl⟩
  obtain ⟨hs, hr⟩ := remote_datagram_survived unlimitedContext 7 {} () ()
  refine ⟨(hs smallDatagram wideConnection 1200 0 hf accepting_wide).mpr
    ⟨[1], _, hc, by decide, fun _ => sendable_small⟩, hr _ ?_⟩
  intro e he
  rcases mem_cons.mp he with rfl | he
  · exact ⟨hf, 1200, accepting_wide, [1], _, hc, by decide, sendable_small⟩
  · rw [mem_singleton.mp he]
    trivial

end Hysteria.Proof
