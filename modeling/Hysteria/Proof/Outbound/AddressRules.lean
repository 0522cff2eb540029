import Mathlib.Data.List.Find
import Hysteria.Proof.Outbound.FirstMatch

/-!
# Rules about addresses

IP, CIDR and GeoIP rules look at the addresses of the host. An inverse GeoIP
entry holds where no address is in its networks. So it holds where there is no
address at all (`matches_nil`): it is a rule for every host then
(`pick_addressless`), and the others could be deleted. Of several addresses it
asks for all to be outside, not for one (`matches_pointwise_iff`).
-/

namespace Hysteria.Proof

open Framework Impl List

variable {ω : Type} {m : HostMatcher} {rule : AclRule ω}

/-- The matcher looks at addresses. -/
def byAddress : HostMatcher → Bool
  | .ip _ => true
  | .cidr _ _ => true
  | .geoIp _ => true
  | _ => false

/-- The matcher is made from a GeoIP entry with `inverse_match`. -/
def inverted : HostMatcher → Bool
  | .geoIp matcher => matcher.inverse
  | _ => false

/-- The conditions on the protocol and the port. -/
def admits (rule : AclRule ω) (port : UInt16) (protocol : AclProtocol) : Bool :=
  (rule.protocol = .both ∨ rule.protocol = protocol) ∧
    (rule.startPort = 0 ∨ rule.startPort ≤ port ∧ port ≤ rule.endPort)

theorem accepts_eq (rule : AclRule ω) (host : Str) (ips : List IpAddr) (port : UInt16) (proto : AclProtocol) :
    rule.accepts host ips port proto = (admits rule port proto && rule.matcher.matches host ips) := by
  rw [Bool.eq_iff_iff, Bool.and_eq_true]
  simp only [AclRule.accepts, admits, decide_eq_true_eq, and_assoc]

/-! ## No address -/

theorem matches_nil (hm : byAddress m) (host : Str) : m.matches host [] = inverted m := by
  cases m with
  | ip expected => rfl
  | cidr network len => rfl
  | geoIp matcher =>
    simp only [HostMatcher.matches, GeoIpMatcher.matches, any_nil, inverted]
    cases matcher.inverse <;> rfl
  | _ => cases hm

theorem byAddress_of_inverted (h : inverted m) : byAddress m := by
  cases m with
  | geoIp matcher => rfl
  | _ => cases h

/-- What a rule comes to where no address is known. -/
def addressless (rule : AclRule ω) : Option (AclRule ω) :=
  if inverted rule.matcher then some { rule with matcher := .all }
  else if byAddress rule.matcher then none
  else some rule

theorem any_addressless (rule : AclRule ω) (host : Str) (port : UInt16) (proto : AclProtocol) :
    ((addressless rule).any fun r => r.accepts host [] port proto) = rule.accepts host [] port proto := by
  unfold addressless
  by_cases hi : inverted rule.matcher = true
  · rw [if_pos hi, accepts_eq, matches_nil (byAddress_of_inverted hi), hi, Option.any_some, accepts_eq]
    rfl
  rw [if_neg hi]
  by_cases hb : byAddress rule.matcher = true
  · rw [if_pos hb, accepts_eq, matches_nil hb, Bool.eq_false_iff.mpr hi, Bool.and_false]
    rfl
  · rw [if_neg hb]
    rfl

theorem addressless_keeps {rule rule' : AclRule ω} (h : addressless rule = some rule') (addr : Str)
    (port : UInt16) : (rule'.outbound, rule'.target addr port) = (rule.outbound, rule.target addr port) := by
  unfold addressless at h
  split at h
  · cases h
    rfl
  split at h
  · cases h
  · cases h
    rfl

theorem pick_addressless (acl : AclOutbound ω) (addr host : Str) (port : UInt16) (proto : AclProtocol) :
    acl.pick addr host [] port proto =
      { acl with rules := acl.rules.filterMap addressless }.pick addr host [] port proto := by
  simp only [AclOutbound.pick, find?_filterMap, any_addressless]
  cases hf : acl.rules.find? (·.accepts host [] port proto) with
  | none => rfl
  | some rule =>
    have ha := find?_some hf
    rw [← any_addressless] at ha
    cases hr : addressless rule with
    | none =>
      rw [hr] at ha
      cases ha
    | some rule' =>
      simp only [Option.bind_some, hr]
      exact (addressless_keeps hr addr port).symm

/-- Where a request without addresses goes by the rules about hosts. -/
def hostOutcome (default : ω) (rules : List (AclRule ω)) (address host : Str) (port : UInt16)
    (protocol : AclProtocol) : ω × Str :=
  (rules.find? fun rule => !byAddress rule.matcher && rule.accepts host [] port protocol).elim (default, address)
    fun rule => (rule.outbound, rule.target address port)

/-- A rule of an inverse entry that takes the request before all other rules names the
outbound and the target that the rules about hosts after it give. -/
def InverseAgrees (default : ω) (rules : List (AclRule ω)) (address host : Str) (port : UInt16)
    (protocol : AclProtocol) : Prop :=
  ∀ before rule after, rules = before ++ rule :: after → inverted rule.matcher → admits rule port protocol →
    (∀ earlier ∈ before, ¬ earlier.accepts host [] port protocol) →
    (rule.outbound, rule.target address port) = hostOutcome default after address host port protocol

variable {addr host : Str} {port : UInt16} {proto : AclProtocol} {dflt : ω} {rules : List (AclRule ω)}

theorem pick_hostRules (acl : AclOutbound ω) (rules : List (AclRule ω)) :
    { acl with rules := rules.filter (!byAddress ·.matcher) }.pick addr host [] port proto =
      hostOutcome acl.default rules addr host port proto := by
  have hp (rule : AclRule ω) : (!byAddress rule.matcher && rule.accepts host [] port proto) =
      decide ((!byAddress rule.matcher) = true ∧ rule.accepts host [] port proto = true) := by simp
  rw [AclOutbound.pick, hostOutcome, find?_filter]
  simp only [hp]
  cases rules.find? _ <;> rfl

theorem inverseAgrees_cons_of_accepts (ha : rule.accepts host [] port proto) :
    InverseAgrees dflt (rule :: rules) addr host port proto ↔
      (inverted rule.matcher →
        (rule.outbound, rule.target addr port) = hostOutcome dflt rules addr host port proto) := by
  constructor
  · intro h hi
    rw [accepts_eq, Bool.and_eq_true] at ha
    exact h [] rule rules rfl hi ha.1 (by simp)
  · rintro h (_ | ⟨first, before⟩) other after heq hi _ hb
    · obtain ⟨rfl, rfl⟩ := cons.inj heq
      exact h hi
    · obtain ⟨rfl, -⟩ := cons.inj heq
      exact absurd ha (hb rule mem_cons_self)

theorem inverseAgrees_cons_of_not (ha : ¬ rule.accepts host [] port proto) :
    InverseAgrees dflt (rule :: rules) addr host port proto ↔ InverseAgrees dflt rules addr host port proto := by
  constructor
  · intro h before other after heq hi hadm hb
    exact h (rule :: before) other after (by rw [heq]; rfl) hi hadm (forall_mem_cons.mpr ⟨ha, hb⟩)
  · rintro h (_ | ⟨first, before⟩) other after heq hi hadm hb
    · obtain ⟨rfl, rfl⟩ := cons.inj heq
      rw [accepts_eq, matches_nil (byAddress_of_inverted hi), hi, hadm] at ha
      exact absurd rfl ha
    · obtain ⟨rfl, rfl⟩ := cons.inj heq
      exact h before other after rfl hi hadm (forall_mem_cons.mp hb).2

/-- What is deleted matters if the first rule to take the request is one about addresses, so
one of an inverse entry, and the rules about hosts after it lead elsewhere. -/
theorem pick_delete_iff (acl : AclOutbound ω) (addr host : Str) (port : UInt16) (proto : AclProtocol)
    (rules : List (AclRule ω)) :
    { acl with rules }.pick addr host [] port proto =
      { acl with rules := rules.filter (!byAddress ·.matcher) }.pick addr host [] port proto ↔
      InverseAgrees acl.default rules addr host port proto := by
  rw [pick_hostRules]
  induction rules with
  | nil => exact iff_of_true rfl (by simp [InverseAgrees])
  | cons rule rules ih =>
    by_cases ha : rule.accepts host [] port proto = true
    · have hp : { acl with rules := rule :: rules }.pick addr host [] port proto =
          (rule.outbound, rule.target addr port) := by
        simp only [AclOutbound.pick, find?_cons, ha]
      rw [inverseAgrees_cons_of_accepts ha, hp]
      by_cases hb : byAddress rule.matcher = true
      · have hi : inverted rule.matcher = true := by
          rw [accepts_eq, matches_nil hb, Bool.and_eq_true] at ha
          exact ha.2
        rw [hostOutcome, find?_cons_of_neg (by simp [hb]), ← hostOutcome]
        exact ⟨fun h _ => h, fun h => h hi⟩
      · rw [hostOutcome, find?_cons_of_pos (by simp [hb, ha])]
        exact iff_of_true rfl fun hi => absurd (byAddress_of_inverted hi) hb
    · have hp : { acl with rules := rule :: rules }.pick addr host [] port proto =
          { acl with rules }.pick addr host [] port proto := by
        simp only [AclOutbound.pick, find?_cons, Bool.eq_false_iff.mpr ha]
      rw [inverseAgrees_cons_of_not ha, ← ih, hp, hostOutcome, find?_cons_of_neg (by simp [ha]), ← hostOutcome]

/-! ## Several addresses -/

theorem matches_pointwise (hm : byAddress m) (hi : ¬ inverted m) (host : Str) (ips : List IpAddr) :
    m.matches host ips = true ↔ ∃ ip ∈ ips, m.matches host [ip] = true := by
  cases m with
  | ip expected => simp [HostMatcher.matches]
  | cidr network len => simp [HostMatcher.matches]
  | geoIp matcher =>
    have hin : matcher.inverse = false := by simpa [inverted] using hi
    simp [HostMatcher.matches, GeoIpMatcher.matches, hin]
  | _ => cases hm

/-- An inverse entry holds for addresses if it holds for each of them. -/
theorem matches_inverted (hi : inverted m) (host : Str) (ips : List IpAddr) :
    m.matches host ips = true ↔ ∀ ip ∈ ips, m.matches host [ip] = true := by
  cases m with
  | geoIp matcher =>
    have hin : matcher.inverse = true := hi
    simp [HostMatcher.matches, GeoIpMatcher.matches, hin]
  | _ => cases hi

/-- Some address is in the networks of the entry, and some is not. -/
def Straddles (m : HostMatcher) (host : Str) (ips : List IpAddr) : Prop :=
  inverted m = true ∧ (∃ ip ∈ ips, m.matches host [ip] = true) ∧ ∃ ip ∈ ips, m.matches host [ip] = false

theorem matches_pointwise_iff (hm : byAddress m) (host : Str) {ips : List IpAddr} (his : ips ≠ []) :
    (m.matches host ips = true ↔ ∃ ip ∈ ips, m.matches host [ip] = true) ↔ ¬ Straddles m host ips := by
  by_cases hi : inverted m = true
  · rw [matches_inverted hi]
    constructor
    · rintro h ⟨-, hs, ip, hip, hf⟩
      rw [h.mpr hs ip hip] at hf
      cases hf
    intro h
    constructor
    · intro ha
      obtain ⟨ip, hip⟩ := exists_mem_of_ne_nil ips his
      exact ⟨ip, hip, ha ip hip⟩
    intro hs ip hip
    by_contra hf
    exact h ⟨hi, hs, ip, hip, Bool.eq_false_iff.mpr hf⟩
  · exact iff_of_true (matches_pointwise hm hi host ips) (fun h => hi h.1)

/-! ## The outbound -/

/-- Without addresses, rules about addresses do nothing, but those of inverse
entries take every host, so they can be deleted exactly if these lead where the rules
about hosts do; with addresses, they hold as they do for one of these,
unless the entry is inverse and the addresses straddle its networks. -/
theorem select_address_rules (lib : Libraries) (outside : Outside) (acl : AclOutbound ω) (address : Str)
    (protocol : AclProtocol) (w : World) {host : Str} {port : UInt16}
    (haddress : parseHostPort lib address = .ok (host, port)) :
    let ips := (acl.resolver.resolve outside host port w).1.ips
    let selected (rules : List (AclRule ω)) := AclOutbound.select lib outside { acl with rules } address protocol w
    (ips = [] → selected acl.rules = selected (acl.rules.filterMap addressless) ∧
      ((∀ rule ∈ acl.rules, inverted rule.matcher → ¬ admits rule port protocol) →
        selected acl.rules = selected (acl.rules.filter (!byAddress ·.matcher))) ∧
      (selected acl.rules = selected (acl.rules.filter (!byAddress ·.matcher)) ↔
        InverseAgrees acl.default acl.rules address (normalizedHost lib host) port protocol)) ∧
    (ips ≠ [] → ∀ rule ∈ acl.rules, byAddress rule.matcher →
      ((rule.matcher.matches (normalizedHost lib host) ips = true ↔
          ∃ ip ∈ ips, rule.matcher.matches (normalizedHost lib host) [ip] = true) ↔
        ¬ Straddles rule.matcher (normalizedHost lib host) ips)) := by
  intro ips selected
  have hs (rules : List (AclRule ω)) : selected rules =
      (.ok ({ acl with rules }.pick address (normalizedHost lib host) ips port protocol),
        (acl.resolver.resolve outside host port w).2) := by
    grind [AclOutbound.select]
  refine ⟨fun hi => ?_, fun hi rule _ hb => matches_pointwise_iff hb _ hi⟩
  rw [hs, hs, hs, hi]
  have hd := pick_delete_iff acl address (normalizedHost lib host) port protocol acl.rules
  refine ⟨?_, fun h => ?_, ?_⟩
  · rw [← pick_addressless]
  · rw [hd.mpr fun before rule after heq hi ha _ => absurd ha (h rule (by simp [heq]) hi)]
  · rw [← hd, Prod.mk.injEq, and_iff_left rfl, Except.ok.injEq]

/-! ## An inverse entry -/

/-- The one entry is for everything outside `10.0.0.0/8`. -/
def abroadGeo : GeoDatabases where
  ip := some fun name =>
    if name = "abroad" then some { cidr := [{ ip := [10, 0, 0, 0], length := 8 }], inverseMatch := true }
    else none
  site := none

def abroadRule : AclRule Bool where
  outbound := false
  matcher := .geoIp { networks := [(.v4 0x0a000000, 8)], inverse := true }
  protocol := .both
  startPort := 0
  endPort := 0
  hijack := none

/-- A name without addresses is taken for a host abroad, and a host with an
address abroad is not, if it has another one. -/
theorem select_inverse_differs :
    parseAcl plainLibraries "reject(geoip:abroad)".toList directOrReject (some abroadGeo) = .ok [abroadRule] ∧
      (Resolver.system.resolve silentOutside "a.example".toList 80 {}).1.ips = [] ∧
      (AclOutbound.select plainLibraries silentOutside
          { rules := [abroadRule], default := true, resolver := .system } "a.example:80".toList .tcp {}).1 =
        .ok (false, "a.example:80".toList) ∧
      (AclOutbound.select plainLibraries silentOutside
          { rules := [abroadRule].filter (!byAddress ·.matcher), default := true, resolver := .system }
          "a.example:80".toList .tcp {}).1 = .ok (true, "a.example:80".toList) ∧
      abroadRule.matcher.matches "a.example".toList [.v6 1] = true ∧
      abroadRule.matcher.matches "a.example".toList [.v4 0x0a000001, .v6 1] = false := by
  refine ⟨rfl, ?_⟩
  decide +kernel

/-- The rule does not concern UDP: a request for UDP is sent as if it were deleted. -/
theorem select_address_rules_udp : let rules := [{ abroadRule with protocol := .tcp }]
    AclOutbound.select plainLibraries silentOutside { rules, default := true, resolver := .system }
        "a.example:80".toList .udp {} =
      AclOutbound.select plainLibraries silentOutside
        { rules := rules.filter (!byAddress ·.matcher), default := true, resolver := .system }
        "a.example:80".toList .udp {} := by
  intro rules
  have ha : parseHostPort plainLibraries "a.example:80" = .ok ("a.example", 80) := by
    decide +kernel
  have hi : (Resolver.system.resolve silentOutside "a.example" 80 {}).1.ips = [] := by decide +kernel
  exact ((select_address_rules plainLibraries silentOutside { rules, default := true, resolver := .system }
    _ .udp {} ha).1 hi).2.1 (by decide)

end Hysteria.Proof
