import Hysteria.Framework.Fallible
import Hysteria.Impl.Realm.Runtime
import Hysteria.Proof.Transport.RealmSocket

/-!
# STUN answers on the socket of a Realm server

The table of the Realm socket has the addresses that the lookup of the servers
gave, and `poll_recv` compares them with the source of a datagram. The socket of a
server that is for both families is an IPv6 socket, on which an IPv4 server has
another address (`reports_eq_iff`). So `poll_recv` delivers the answers of all
servers but these (`stun_response_delivered_iff`).
-/

namespace Hysteria.Proof

open Framework Impl List

variable {fam : AddrFamily} {addrs : List SocketAddr}
  {lookupHost : Str → UInt16 → Except Str (List SocketAddr)} {servers : List Str} {s : RealmSocket}
  {src addr : SocketAddr} {dg : List UInt8} {call : Nat} {c : DiscoverCall}

/-! ## The servers that are asked -/

theorem addServers_allowed {output : List SocketAddr} (h : ∀ server ∈ output, fam.allows server.ip = true) :
    ∀ server ∈ addServers fam output addrs, fam.allows server.ip = true := by
  induction addrs generalizing output with
  | nil => exact h
  | cons addr addrs ih =>
    refine ih fun server hs => ?_
    grind

theorem resolveServers_allowed (h : resolveServers lookupHost fam servers = .ok addrs) :
    ∀ server ∈ addrs, fam.allows server.ip = true := by
  refine foldlM_invariant (I := fun output => ∀ server ∈ output, fam.allows server.ip = true) ?_ ?_ h
  · intro output server next ho hr
    rcases hs : splitServer server with err | tgt
    · rw [hs] at hr
      cases hr
    simp only [hs, bind, Except.bind] at hr
    grind [addServers_allowed]
  · simp

theorem prepareRequests_allowed {transactionId : Nat → Except Str (List UInt8)} {reqs : List StunRequest}
    (h : prepareRequests lookupHost transactionId fam servers = .ok reqs) :
    ∀ req ∈ reqs, fam.allows req.server.ip = true := by
  intro req hrq
  unfold prepareRequests at h
  split at h
  · cases h
  rcases hr : resolveServers lookupHost fam servers with err | addrs
  · rw [hr] at h
    cases h
  simp only [hr, bind, Except.bind] at h
  split at h
  · cases h
  obtain ⟨⟨server, idx⟩, hm, hrn⟩ := (mem_mapM_iff h).mp hrq
  grind [resolveServers_allowed, fst_mem_of_mem_zipIdx]

/-! ## Their addresses on the socket -/

theorem reports_eq_iff (localPort : Option UInt16) {server : SocketAddr} (ha : fam.allows server.ip = true) :
    (startSocket fam localPort).reports server = server ↔ (fam = .any → server.ip.isIpv4 = false) := by
  obtain ⟨ip, port, scopeId⟩ := server
  cases fam <;> cases ip <;>
    simp_all [AddrFamily.allows, startSocket, udpSocket, bindAddress, UdpBinding.reports, mappedIp, IpAddr.isIpv4]

/-! ## Delivery -/

/-- `poll_recv` hands the address in a datagram to a call. -/
def DeliversResponse (readers : RealmReaders) (s : RealmSocket) (source : SocketAddr) (datagram : List UInt8)
    (call : Nat) (c : DiscoverCall) (address : SocketAddr) : Prop :=
  s.pollRecv readers source datagram =
    (.stun call true, { s with calls := s.calls.set call { c with queue := c.queue ++ [address] } })

theorem delivers_of_answers (readers : RealmReaders) (hc : s.calls[call]? = some c) (hl : c.live = true)
    (ha : s.answers src (dg.take maxWireDatagramSize) = some (call, addr))
    (hr : c.queue.length < c.capacity) : DeliversResponse readers s src dg call c addr := by
  have hs : s.calls[call]?.bind (·.trySend addr) = some { c with queue := c.queue ++ [addr] } := by
    rw [hc, Option.bind_some, DiscoverCall.trySend, if_pos ⟨hl, hr⟩]
  simp only [DeliversResponse, RealmSocket.pollRecv, ha, hs]

theorem answers_of_delivers {readers : RealmReaders} (hc : s.calls[call]? = some c)
    (h : DeliversResponse readers s src dg call c addr) :
    ∃ reported, s.answers src (dg.take maxWireDatagramSize) = some (call, reported) ∧
      c.queue.length < c.capacity := by
  have hs : (s.pollRecv readers src dg).1 = .stun call true := by rw [h]
  simp only [RealmSocket.pollRecv] at hs
  rcases ha : s.answers src (dg.take maxWireDatagramSize) with _ | ans
  · grind
  · obtain ⟨owner, reported⟩ := ans
    rw [ha] at hs
    dsimp only at hs
    split at hs
    · rename_i c' hsn
      cases hs
      rw [hc, Option.bind_some] at hsn
      exact ⟨reported, rfl, (trySend_eq_some hsn).2.1⟩
    · cases hs

/-- A response of a server that was asked is delivered if the source `recv_from` gives is
the address of this server, and the channel has room. Only an IPv4 server of a Realm server
for both families has another address there. -/
theorem stun_response_delivered_iff (readers : RealmReaders) (family : AddrFamily) (localPort : Option UInt16)
    {events : List RealmEvent} {s : RealmSocket} (run : Trace RealmStep {} events s) {call : Nat} {c : DiscoverCall}
    (hcall : s.calls[call]? = some c) (hlive : c.live = true)
    {lookupHost : Str → UInt16 → Except Str (List SocketAddr)} {transactionId : Nat → Except Str (List UInt8)}
    {servers : List Str} (hprepared : prepareRequests lookupHost transactionId family servers = .ok c.requests)
    {request : StunRequest} (hrequest : request ∈ c.requests) {datagram : List UInt8} {address : SocketAddr}
    (hresponse : parseStunResponse (datagram.take maxWireDatagramSize) = some (request.transaction, address)) :
    DeliversResponse readers s ((startSocket family localPort).reports request.server) datagram call c address ↔
      (family = .any → request.server.ip.isIpv4 = false) ∧ c.queue.length < c.capacity := by
  have hr := Registered.run run
  rw [← reports_eq_iff localPort (prepareRequests_allowed hprepared request hrequest)]
  constructor
  · intro h
    obtain ⟨reported, ha, hrm⟩ := answers_of_delivers hcall h
    obtain ⟨req', hrequest', hp, hs⟩ := (answers_eq_some_iff hr hcall hlive).mp ha
    refine ⟨?_, hrm⟩
    -- Both requests have the transaction of the response, so the table has one server for them.
    have hid : req'.transaction = request.transaction := by
      grind
    have hl := hr.lookup request call ⟨c, hcall, hlive, hrequest⟩
    rw [← hid, hr.lookup req' call ⟨c, hcall, hlive, hrequest'⟩] at hl
    grind
  grind [delivers_of_answers, answers_eq_some_iff]

def exampleServer : SocketAddr := { ip := .v4 0xc0000201#32, port := 3478 }

def exampleRequest : StunRequest := { server := exampleServer, transaction := List.replicate 12 0x11 }

/-- A response with the address 203.0.113.9:54321. -/
def responseTo (request : StunRequest) : List UInt8 :=
  [0x01, 0x01, 0, 12, 0x21, 0x12, 0xa4, 0x42] ++ request.transaction ++
    [0, 0x20, 0, 8, 0, 1, 0xf5, 0x23, 0xea, 0x12, 0xd5, 0x4b]

def exampleReported : SocketAddr := { ip := .v4 0xcb007109#32, port := 54321 }

/-- A Realm socket with no punch attempt and no obfuscation. -/
def plainReaders : RealmReaders where
  punch _ := none
  codec _ wire := some wire
  bufferSize := 1500

/-- A call of `discover` before its request is sent. -/
def exampleCall : DiscoverCall := ⟨[exampleRequest], [exampleRequest], [], [], ∅, true⟩

def exampleSocket : RealmSocket where
  transactions := Function.update (fun _ => none) exampleRequest.transaction (some (exampleServer, 0))
  calls := [exampleCall]

theorem register_exampleSocket : RealmStep {} (.register [exampleRequest]) exampleSocket := .register rfl

/-- The requests for one server with an IPv4 address. -/
def exampleRequests (family : AddrFamily) : Except StunError (List StunRequest) :=
  prepareRequests (fun _ _ => .ok [exampleServer]) (fun _ => .ok exampleRequest.transaction) family
    ["192.0.2.1"]

theorem stun_response_delivered_ipv4 :
    DeliversResponse plainReaders exampleSocket ((startSocket .ipv4 none).reports exampleServer)
      (responseTo exampleRequest) 0 exampleCall exampleReported := by
  have hr : exampleRequests .ipv4 = .ok exampleCall.requests := by decide
  have hrq : exampleRequest ∈ exampleCall.requests := by decide
  have hrs : parseStunResponse ((responseTo exampleRequest).take maxWireDatagramSize) =
      some (exampleRequest.transaction, exampleReported) := by decide
  exact (stun_response_delivered_iff plainReaders .ipv4 none (.single register_exampleSocket) rfl rfl hr
    hrq hrs).mpr ⟨nofun, by decide⟩

/-- `realm.ipMode` is `dual`, and the STUN server has an IPv4 address: its response goes to
QUIC. -/
theorem dual_stack_response_goes_to_quic :
    ∃ family s c, parseFamily "dual".toList = .ok family ∧ exampleRequests family = .ok [exampleRequest] ∧
      Trace RealmStep {} [.register [exampleRequest], .send 0 true] s ∧
      s.calls[0]? = some c ∧ c.live = true ∧ c.sent = [exampleRequest] ∧
      parseStunResponse ((responseTo exampleRequest).take maxWireDatagramSize) =
        some (exampleRequest.transaction, exampleReported) ∧
      (s.pollRecv plainReaders ((startSocket family none).reports exampleServer) (responseTo exampleRequest)).1 =
        .quic (responseTo exampleRequest) := by
  have hs : RealmStep exampleSocket (.send 0 true) (exampleSocket.send 0 exampleCall exampleRequest [] true) :=
    .send true rfl rfl rfl
  exact ⟨.any, _, _, by decide, by decide, .cons register_exampleSocket (.single hs), rfl, rfl, rfl, by decide,
    by decide⟩

end Hysteria.Proof
