import Mathlib.Data.List.Forall2
import Hysteria.Impl.Outbound.Acl
import Hysteria.Proof.Transport.ServerSession

/-!
# Routing of UDP sessions

With fixed DNS answers, `select` is a function of the address (`select_fixed`),
and so is the outbound that a session's socket comes from (`server_udp`).
`udp_session_routing` is what that means for a whole session.
-/

namespace Hysteria.Proof

open Framework Impl List

variable {ω τ κ : Type} {lib : Libraries} {out : Outside} {acl : AclOutbound ω}
  {obs : ω → ServerOutbound World τ κ}
variable {answers : Str → UInt16 → Resolved} {address : Str} {w w' : World}

/-- The resolver always gives these answers. -/
def FixedDns (outside : Outside) (resolver : Resolver) (answers : Str → UInt16 → Resolved) : Prop :=
  ∀ host port w, (resolver.resolve outside host port w).1 = answers host port

/-- What `select` returns for an address under fixed answers. -/
def route (lib : Libraries) (acl : AclOutbound ω) (answers : Str → UInt16 → Resolved) (protocol : AclProtocol)
    (address : Str) : Except TransportError (ω × Str) :=
  match parseHostPort lib address with
  | .error error => .error (.protocol error)
  | .ok (host, port) => .ok (acl.pick address (normalizedHost lib host) (answers host port).ips port protocol)

theorem select_fixed (lib : Libraries)
    (h : FixedDns out acl.resolver answers) (address : Str) (proto : AclProtocol) (w : World) :
    (acl.select lib out address proto w).1 = route lib acl answers proto address := by
  unfold AclOutbound.select route
  rcases parseHostPort lib address with err | hostPort
  · rfl
  · simp only [h hostPort.1 hostPort.2 w]

/-- The target is the hijack address of a rule. -/
def Hijacked (acl : AclOutbound ω) (target : Str) : Prop :=
  ∃ rule ∈ acl.rules, ∃ ip port, rule.hijack = some ip ∧ target = formatAuthority ip.display port

/-- A target that no rule hijacks is the address itself. -/
theorem pick_target (acl : AclOutbound ω) (address host : Str) (ips : List IpAddr) (port : UInt16)
    (proto : AclProtocol) :
    address = (acl.pick address host ips port proto).2 ∨
      Hijacked acl (acl.pick address host ips port proto).2 := by
  unfold AclOutbound.pick
  split
  · rename_i rule hf
    unfold AclRule.target
    split
    · exact .inl rfl
    · rename_i ip hip
      exact .inr ⟨rule, mem_of_find?_eq_some hf, ip, port, hip, rfl⟩
  · exact .inl rfl

theorem route_target {proto : AclProtocol} {tgt : Str} {ob : ω}
    (h : route lib acl answers proto address = .ok (ob, tgt)) : address = tgt ∨ Hijacked acl tgt := by
  unfold route at h
  split at h <;> [cases h; skip]
  grind [pick_target, Except.ok.inj]

/-- The socket of a session comes from the outbound that is selected for the
address it was opened for. -/
theorem server_udp {sock : ω × τ} (h : (acl.server lib out obs).udp address w = (.ok sock, w')) :
    ∃ tgt w₁, acl.select lib out address .udp w = (.ok (sock.1, tgt), w₁) ∧
      (obs sock.1).udp tgt w₁ = (.ok sock.2, w') := by
  simp only [AclOutbound.server] at h
  split at h <;> [cases h; skip]
  grind

/-- A message passes if the outbound that is selected for its own address lets
it pass. -/
theorem server_checkUdp (h : (acl.server lib out obs).checkUdp address w = (.ok (), w')) :
    ∃ ob tgt w₁, acl.select lib out address .udp w = (.ok (ob, tgt), w₁) ∧
      (obs ob).checkUdp tgt w₁ = (.ok (), w') := by
  simp only [AclOutbound.server] at h
  grind

/-- A session has one socket, from the outbound that `select` returns for its
first address; every message it forwards leaves through that. A later message
is forwarded only if `select` returns an outbound for the message's own address
that lets it pass. A message whose target no rule hijacks is sent to that
target. -/
theorem udp_session_routing (lib : Libraries) (outside : Outside) (acl : AclOutbound ω)
    (outbounds : ω → ServerOutbound World τ κ) {answers : Str → UInt16 → Resolved}
    (hdns : FixedDns outside acl.resolver answers) (context : ServerUdpContext World (ω × τ) (ω × κ))
    (hout : context.outbound = acl.server lib outside outbounds) (sessionId : UInt32)
    (events : List SessionEvent) (world : World) :
    forwards (runServerSession context sessionId events world).2.2 = [] ∨
      ∃ (first : UdpMessage) (rest ms : List UdpMessage) (address target destination : Str) (outbound : ω)
        (socket : τ) (later : List ((ω × τ) × List UInt8 × Str)),
        reassembled {} events = first :: rest ∧ ms.Sublist rest ∧
        hookAddress context.requestHook first = .ok address ∧
        route lib acl answers .udp address = .ok (outbound, target) ∧
        (destination = target ∨ Hijacked acl target) ∧
        forwards (runServerSession context sessionId events world).2.2 =
          ((outbound, socket), first.data, destination) :: later ∧
        List.Forall₂ (fun m f => f.1 = (outbound, socket) ∧ f.2.1 = m.data ∧
          ∃ o t, route lib acl answers .udp m.address = .ok (o, t) ∧
            (∃ w w', (outbounds o).checkUdp t w = (.ok (), w')) ∧ (f.2.2 = t ∨ Hijacked acl t)) ms later := by
  rcases forwards_first context sessionId events {} world with
    hn | ⟨first, rest, address, socket, w, w', ms, hre, hh, hu, hms, hp, hfw⟩
  · exact .inl hn
  rw [hout] at hu
  obtain ⟨target, w₁, hs, -⟩ := server_udp hu
  have hrt := select_fixed lib hdns address .udp w
  rw [hs] at hrt
  refine .inr ⟨first, rest, ms, address, target, address, socket.1, socket.2, _, hre, hms, hh, hrt.symm,
    route_target hrt.symm, hfw, ?_⟩
  rw [forall₂_map_right_iff, forall₂_same]
  intro m hm
  obtain ⟨w₂, w₃, hc⟩ := hp m hm
  rw [hout] at hc
  obtain ⟨o, t, w₄, hsel', hchk'⟩ := server_checkUdp hc
  have hrt' := select_fixed lib hdns m.address .udp w₂
  rw [hsel'] at hrt'
  exact ⟨rfl, rfl, o, t, hrt'.symm, ⟨w₄, w₃, hchk'⟩, route_target hrt'.symm⟩

/-! ## Two outbounds -/

/-- The libraries on addresses of letters, digits and dots with a port. -/
def plainLibraries : Libraries where
  authority address :=
    match rsplitOnce ':' address with
    | none => .ok (address, none)
    | some (host, port) => .ok (host, parseU16 port)
  domainToUnicode host := host
  regex _ := .error "no regular expressions"
  debug text := '"' :: text ++ ['"']

/-- A network that knows no names and takes everything. -/
def silentOutside : Outside where
  lookupHost _ _ := .error "no such host"
  exchange _ _ _ := .error (protocolError "DNS UDP query timed out")
  bind _ _ := .ok ()
  connect _ _ := .ok ()
  race _ := true
  sendTo _ _ data := .ok data.length

/-- `192.0.2.1` goes to the outbound `true`, everything else to `false`. -/
def twoWays : AclOutbound Bool where
  rules :=
    [{ outbound := true, matcher := .ip (.v4 0xc0000201), protocol := .both, startPort := 0, endPort := 0
       hijack := none }]
  default := false
  resolver := .system

def openOutbound : ServerOutbound World Unit Unit where
  tcp _ w := (.ok (), w)
  udp _ w := (.ok (), w)
  sendTo _ data _ w := (.ok data.length, w)

def twoWaysContext : ServerUdpContext World (Bool × Unit) (Bool × Unit) where
  trafficLogger := none
  authId := []
  outbound := twoWays.server plainLibraries silentOutside fun _ => openOutbound
  requestHook := none

/-- A session to both. -/
def twoWaysEvents : List SessionEvent :=
  [.client (some (udpPacket 7 "192.0.2.1:53" [1])), .client (some (udpPacket 7 "192.0.2.2:53" [2]))]

theorem silent_fixedDns : FixedDns silentOutside .system fun host _ =>
    match parseIpAddr host with
    | some (.v4 ip) => { ipv4 := some (.v4 ip) }
    | some (.v6 ip) => { ipv6 := some (.v6 ip) }
    | none => {} := by
  intro host port w
  unfold Resolver.resolve
  split <;> simp_all [silentOutside]

/-- The second message leaves through the outbound of the first, though
`select` returns the other one for its address. -/
theorem udp_session_routing_differs :
    ¬ ∀ f ∈ forwards (runServerSession twoWaysContext 7 twoWaysEvents {}).2.2,
      (twoWays.select plainLibraries silentOutside f.2.2 .udp {}).1 = .ok (f.1.1, f.2.2) := by
  decide +kernel

theorem udp_session_routing_twoWays :
    forwards (runServerSession twoWaysContext 7 twoWaysEvents {}).2.2 = [] ∨
      ∃ (ms : List UdpMessage) (outbound : Bool) (socket : Unit) (destination : Str)
        (later : List ((Bool × Unit) × List UInt8 × Str)),
        forwards (runServerSession twoWaysContext 7 twoWaysEvents {}).2.2 =
          ((outbound, socket), [1], destination) :: later ∧
        List.Forall₂ (fun m f => f.1 = (outbound, socket) ∧ f.2.1 = m.data) ms later := by
  rcases udp_session_routing plainLibraries silentOutside twoWays (fun _ => openOutbound) silent_fixedDns
    twoWaysContext rfl 7 twoWaysEvents {} with
    h | ⟨first, rest, ms, address, target, destination, outbound, socket, later, hre, -, -, -, -, hfw, hl⟩
  · exact .inl h
  have hf : first = udpPacket 7 "192.0.2.1:53" [1] := (cons.inj hre).1.symm
  rw [hf] at hfw
  exact .inr ⟨ms, outbound, socket, destination, later, hfw, hl.imp fun _ _ h => ⟨h.1, h.2.1⟩⟩

end Hysteria.Proof
