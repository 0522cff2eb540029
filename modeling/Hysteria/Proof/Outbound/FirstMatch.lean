import Hysteria.Proof.Outbound.AclText
import Hysteria.Proof.Outbound.UdpRouting

/-!
# First match

A compiled rule accepts what the line covers, and more if its ports start at 0,
since 0 stands for all ports there (`accepts_compiled`). `select_firstMatch`
says when `select` returns what the text says.
-/

namespace Hysteria.Proof

open Framework Impl Spec List

variable {ω : Type}

/-- The rule accepts a request to a port that it does not cover: its ports are
written with 0 as the first. -/
def Overreaches (line : Line ω) (q : Query) : Prop :=
  line.Concerns q ∧ match line.ports with
    | .all => False
    | .range first last => first = 0 ∧ last < q.port

instance (line : Line ω) (q : Query) : Decidable (Overreaches line q) := by
  unfold Overreaches
  cases line.ports <;> infer_instance

theorem formatAuthority_display (ip : IpAddr) (port : UInt16) :
    formatAuthority ip.display port = SocketAddr.display { ip, port } := by
  cases ip with
  | v4 bits =>
    have hc : ':' ∉ displayV4 bits := not_mem_displayV4 (by decide) (by decide) bits
    rw [formatAuthority, if_neg fun h => hc h.1]
    rfl
  | v6 bits =>
    have hh : (displayV6 bits).head? ≠ some '[' := fun h =>
      bracket_not_mem_displayV6 bits (mem_of_mem_head? h)
    rw [formatAuthority, if_pos ⟨colon_mem_displayV6 bits, hh⟩]
    simp [SocketAddr.display, IpAddr.display]

theorem target_compiled (line : Line ω) (addr : Str) (port : UInt16) :
    (compiled line).target addr port = line.target addr port := by
  unfold AclRule.target Line.target
  rcases hh : line.hijack with _ | ip
  · simp [compiled, hh]
  · simp [compiled, hh, formatAuthority_display]

theorem bounds_accept_iff (ports : Ports) (port : UInt16) :
    ((bounds ports).1 = 0 ∨ (bounds ports).1 ≤ port ∧ port ≤ (bounds ports).2) ↔
      ports.Covers port ∨ match ports with
        | .all => False
        | .range first last => first = 0 ∧ last < port := by
  cases ports with
  | all => simp [bounds, Ports.Covers]
  | range first last =>
    constructor
    · rintro (rfl | h)
      · rcases Nat.lt_or_ge last.toNat port.toNat with hlt | hle
        · exact .inr ⟨rfl, hlt⟩
        · exact .inl ⟨Nat.zero_le _, hle⟩
      · exact .inl h
    · rintro (h | ⟨rfl, -⟩)
      · exact .inr h
      · exact .inl rfl

theorem accepts_compiled (line : Line ω) (q : Query) :
    (compiled line).accepts q.host q.ips q.port q.protocol = true ↔ line.Covers q ∨ Overreaches line q := by
  unfold AclRule.accepts Line.Covers Overreaches Line.Concerns
  rw [decide_eq_true_eq, ← and_or_left, ← bounds_accept_iff]
  simp only [compiled, and_comm, and_left_comm]

/-- The rules after compilation, in the words of the lines. -/
theorem pick_compiled (lines : List (Line ω)) (dflt : ω) (rslv : Resolver) (addr : Str) (q : Query) :
    AclOutbound.pick { rules := lines.map compiled, default := dflt, resolver := rslv } addr q.host q.ips q.port
        q.protocol =
      match lines.find? (fun line => line.Covers q ∨ Overreaches line q) with
      | some line => (line.outbound, line.target addr q.port)
      | none => (dflt, addr) := by
  have ha : ((fun rule => AclRule.accepts rule q.host q.ips q.port q.protocol) ∘ compiled : Line ω → Bool) =
      fun line => decide (line.Covers q ∨ Overreaches line q) := by
    funext line
    rw [Function.comp_apply, Bool.eq_iff_iff, accepts_compiled, decide_eq_true_eq]
  unfold AclOutbound.pick
  rw [find?_map, ha]
  cases lines.find? fun line => decide (line.Covers q ∨ Overreaches line q) with
  | none => rfl
  | some line =>
    exact congrArg (Prod.mk line.outbound) (target_compiled line addr q.port)

/-- No rule that overreaches stands before the first rule that covers the
request, or the first such rule decides as the text does anyway. -/
def Undisturbed (lines : List (Line ω)) (default : ω) (address : Str) (q : Query) : Prop :=
  ∀ line, lines.find? (fun l => l.Covers q ∨ Overreaches l q) = some line → Overreaches line q →
    (line.outbound, line.target address q.port) = firstMatch lines default address q

theorem pick_eq_firstMatch_iff (lines : List (Line ω)) (dflt : ω) (rslv : Resolver) (addr : Str) (q : Query) :
    AclOutbound.pick { rules := lines.map compiled, default := dflt, resolver := rslv } addr q.host q.ips q.port
        q.protocol =
      firstMatch lines dflt addr q ↔ Undisturbed lines dflt addr q := by
  rw [pick_compiled]
  unfold Undisturbed
  cases ht : lines.find? fun line => decide (line.Covers q ∨ Overreaches line q) with
  | none =>
    grind [firstMatch]
  | some line =>
    obtain ⟨htk, before, after, hln, hb⟩ := find?_eq_some_iff_append.mp ht
    rcases of_decide_eq_true htk with hc | ho
    · -- The rule that is taken is the first match.
      grind [firstMatch]
    grind

/-! ## Texts -/

/-- What `select` makes of a request: the name and the addresses that the rules are matched against. -/
def selectQuery (lib : Libraries) (outside : Outside) (resolver : Resolver) (host : Str) (port : UInt16)
    (protocol : AclProtocol) (w : World) : Query where
  host := normalizedHost lib host
  ips := (resolver.resolve outside host port w).1.ips
  port := port
  protocol := protocol

/-- An ACL text that `parse_acl` accepts says something, and `select` returns
what the first of its lines that covers the request says exactly if that is
undisturbed by rules whose ports start at 0. -/
theorem select_firstMatch (lib : Libraries) (geo : Option GeoDatabases) (outbounds : Str → Option ω) {text : Str}
    {rules : List (AclRule ω)} (hparse : parseAcl lib text outbounds geo = .ok rules) :
    (∃ readings, List.Forall₂ (Reads outbounds (hostMatcher lib geo)) (lines text) readings) ∧
      ∀ readings, List.Forall₂ (Reads outbounds (hostMatcher lib geo)) (lines text) readings →
        ∀ (default : ω) (resolver : Resolver) (outside : Outside) (w : World) (address host : Str) (port : UInt16)
          (protocol : AclProtocol), parseHostPort lib address = .ok (host, port) →
          ((AclOutbound.select lib outside { rules, default, resolver } address protocol w).1 =
              .ok (firstMatch (readings.filterMap id) default address
                (selectQuery lib outside resolver host port protocol w)) ↔
            Undisturbed (readings.filterMap id) default address
              (selectQuery lib outside resolver host port protocol w)) := by
  obtain ⟨readings, hr, -⟩ := parseAcl_iff.mp hparse
  refine ⟨⟨readings, hr⟩, ?_⟩
  intro readings' hread' default resolver outside w address host port protocol ha
  -- Whatever the text is read as, its rules are these.
  have hrs := parseAcl_iff.mpr ⟨readings', hread', rfl⟩
  rw [hparse] at hrs
  cases hrs
  rw [← pick_eq_firstMatch_iff _ default resolver]
  unfold AclOutbound.select
  simp only [ha, selectQuery, Except.ok.injEq]

/-! ## A range from 0 -/

/-- TCP to the ports up to 100 is rejected, the rest goes out. -/
def lowPortsText : Str := "reject(all, tcp/0-100)\ndirect(all) # the rest"

def directOrReject (name : Str) : Option Bool :=
  if name = "direct" then some true else if name = "reject" then some false else none

def lowPortsLines : List (Line Bool) :=
  [{ outbound := false, host := .all, protocol := .tcp, ports := .range 0 100, hijack := none },
    { outbound := true, host := .all, protocol := .both, ports := .all, hijack := none }]

theorem lineText_of_aclLine (num : Nat) {raw name : Str} {flds : List Str}
    (h : aclLine num raw = .ok (some (name :: flds))) : LineText raw (some (name, flds)) := by
  rcases text_of_aclLine h with ⟨h, -⟩ | ⟨_, _, h, ht, -⟩
  · cases h
  · cases h
    exact ht

theorem lowPorts_reads : List.Forall₂ (Reads directOrReject (hostMatcher plainLibraries none)) (lines lowPortsText)
    (lowPortsLines.map some) := by
  have hf : LineText "reject(all, tcp/0-100)"
      (some ("reject", ["all", "tcp/0-100"])) :=
    lineText_of_aclLine 1 (by decide +kernel)
  have hs : LineText "direct(all) # the rest" (some ("direct", ["all"])) := lineText_of_aclLine 2 (by decide +kernel)
  have hp : ProtoPortText "tcp/0-100" .tcp (.range 0 100) :=
    .ports (a := "tcp") .tcp (.range (a := "0") (b := "100") rfl rfl (by decide))
  refine .cons (.rule hf ?_) (.cons (.rule hs ?_) .nil)
  · exact ⟨by decide, rfl, ⟨"all", rfl, by decide, rfl⟩, hp, .none⟩
  · exact ⟨by decide, rfl, ⟨"all", rfl, by decide, rfl⟩, .empty, .none⟩

/-- The rule for the ports up to 100 rejects TCP to port 443. -/
theorem select_firstMatch_differs :
    validateAcl plainLibraries lowPortsText (fun name => (directOrReject name).isSome) = .ok () ∧
      ∃ rules, parseAcl plainLibraries lowPortsText directOrReject none = .ok rules ∧
        List.Forall₂ (Reads directOrReject (hostMatcher plainLibraries none)) (lines lowPortsText)
          (lowPortsLines.map some) ∧
        parseHostPort plainLibraries "192.0.2.1:443".toList = .ok ("192.0.2.1".toList, 443) ∧
        (AclOutbound.select plainLibraries silentOutside { rules, default := true, resolver := .system }
            "192.0.2.1:443".toList .tcp {}).1 = .ok (false, "192.0.2.1:443".toList) ∧
        firstMatch lowPortsLines true "192.0.2.1:443".toList
            (selectQuery plainLibraries silentOutside .system "192.0.2.1".toList 443 .tcp {}) =
          (true, "192.0.2.1:443".toList) := by
  refine ⟨by decide, _, parseAcl_iff.mpr ⟨_, lowPorts_reads, rfl⟩, lowPorts_reads, ?_⟩
  decide +kernel

/-- To port 80, the same text is followed. -/
theorem select_firstMatch_covered : ∃ rules, parseAcl plainLibraries lowPortsText directOrReject none = .ok rules ∧
      (AclOutbound.select plainLibraries silentOutside { rules, default := true, resolver := .system }
          "192.0.2.1:80".toList .tcp {}).1 =
        .ok (firstMatch lowPortsLines true "192.0.2.1:80".toList
          (selectQuery plainLibraries silentOutside .system "192.0.2.1".toList 80 .tcp {})) := by
  have hp := parseAcl_iff.mpr ⟨_, lowPorts_reads, rfl⟩
  have hn : ∀ line ∈ lowPortsLines, ¬ Overreaches line
      (selectQuery plainLibraries silentOutside .system "192.0.2.1" 80 .tcp {}) := by decide +kernel
  refine ⟨_, hp, ?_⟩
  refine ((select_firstMatch plainLibraries none directOrReject hp).2 _ lowPorts_reads true .system
    silentOutside {} _ _ 80 .tcp (by decide +kernel)).mpr ?_
  intro line hl ho
  exact absurd ho (hn line (mem_of_find?_eq_some hl))

end Hysteria.Proof
