import Hysteria.Impl.Outbound.Build
import Hysteria.Proof.Outbound.AddressRules

/-!
# What is validated can be built

`validate_acl` and `parse_acl` go through the same lines. Every name that validation
knows is in the map (`aclOutbounds_isSome`), and a matcher that validation skips is one of the geo
databases (`compileMatcher_of_validated`).
-/

namespace Hysteria.Proof

open Framework Impl Spec List

variable {ω γ : Type} {lib : Libraries}

variable {geo : GeoDatabases} {cfgs : List (OutboundConfig γ)} {num : Nat} {name : Str}
  {obs : Str → Option ω}
variable {other host raw txt : Str} {ob : ω} {buildBackend : OutboundConfig γ → Except Str ω}
  {flds : List Str} {names : Str → Bool} {hosts : Str → Option HostMatcher} {files : Files} {acl : AclConfig}

/-! ## Names -/

theorem isSome_insertOutbound (h : other = name ∨ (obs other).isSome) : (insertOutbound obs name ob other).isSome := by
  unfold insertOutbound
  grind

theorem isSome_orInsertOutbound (h : other = name ∨ (obs other).isSome) :
    (orInsertOutbound obs name ob other).isSome := by
  unfold orInsertOutbound
  grind [isSome_insertOutbound]

theorem isSome_buildBackends {start : Str → Option ω} (h : cfgs.foldlM (fun obs cfg => do
      return insertOutbound obs (toAsciiLowercase cfg.name) (← buildBackend cfg)) start = .ok obs)
    (hn : (∃ cfg ∈ cfgs, name = toAsciiLowercase cfg.name) ∨ (start name).isSome) : (obs name).isSome := by
  induction cfgs generalizing start with
  | nil =>
    cases h
    grind
  | cons cfg cfgs ih =>
    rw [foldlM_cons] at h
    rcases hc : buildBackend cfg with err | ob
    · rw [hc] at h
      cases h
    rw [hc] at h
    refine ih h ?_
    rcases hn with ⟨other, hm, rfl⟩ | hn
    · grind [isSome_insertOutbound]
    · exact .inr (isSome_insertOutbound (.inr hn))

theorem aclOutbounds_isSome {direct reject dflt : ω}
    (h : aclOutbounds buildBackend direct reject cfgs = .ok (obs, dflt))
    (hn : (aclNames cfgs).contains name = true) : (obs name).isSome := by
  unfold aclOutbounds at h
  rcases hb : buildBackends buildBackend cfgs with err | bends
  · rw [hb] at h
    cases h
  rw [hb] at h
  cases h
  rw [contains_iff_mem, aclNames, mem_append] at hn
  rcases hn with hn | hn
  · obtain ⟨cfg, hm, rfl⟩ := mem_map.mp hn
    have hbc := isSome_buildBackends hb (.inl ⟨cfg, hm, rfl⟩)
    grind [isSome_orInsertOutbound]
  rw [mem_cons, mem_cons, mem_singleton] at hn
  rcases hn with rfl | rfl | rfl
  · grind [isSome_orInsertOutbound]
  · grind [isSome_orInsertOutbound]
  · exact isSome_orInsertOutbound (.inl rfl)

/-! ## Matchers -/

/-- The addresses are IPv4 or IPv6, the lengths are bytes. -/
def GeoIpWellFormed (entry : GeoIp) : Prop :=
  ∀ cidr ∈ entry.cidr, (cidr.ip.length = 4 ∨ cidr.ip.length = 16) ∧ cidr.length.toNat < 2 ^ 8

/-- The regular expressions can be compiled. -/
def GeoSiteWellFormed (lib : Libraries) (entry : GeoSite) : Prop :=
  ∀ domain ∈ entry.domain, domain.kind = 1 → ∃ regex, lib.regex domain.value = .ok regex

/-- What a host field names in the geo databases is there. -/
structure GeoKnown (lib : Libraries) (geo : GeoDatabases) (host : Str) : Prop where
  ip : ∀ name, stripStart "geoip:" (plainName host) = some name →
    ∃ entry, geo.ip.bind (· (toAsciiLowercase name)) = some entry ∧ GeoIpWellFormed entry
  site : ∀ value, stripStart "geosite:" (plainName host) = some value →
    ∃ entry, geo.site.bind (· (toAsciiLowercase (trim ((value.splitOn '@').headD [])))) = some entry ∧
      GeoSiteWellFormed lib entry

theorem cidr_network_ok {cidr : Cidr} (hip : cidr.ip.length = 4 ∨ cidr.ip.length = 16)
    (hl : cidr.length.toNat < 2 ^ 8) : ∃ network, cidr.network = .ok network := by
  unfold Cidr.network
  rcases hip with hip | hip
  · exact ⟨_, by simp only [hip, if_true, hl]; rfl⟩
  · exact ⟨_, by simp only [hip, if_true, hl]; rfl⟩

theorem domain_compile_ok {dom : Domain} (h : dom.kind = 1 → ∃ regex, lib.regex dom.value = .ok regex) :
    ∃ compiled, dom.compile lib = .ok compiled := by
  unfold Domain.compile
  by_cases hk : dom.kind = 1
  · obtain ⟨regex, hr⟩ := h hk
    exact ⟨_, by simp only [hk, if_true, hr]; rfl⟩
  · exact ⟨_, by simp only [hk, if_false]; rfl⟩

theorem ipMatcher_ok (lib : Libraries) {ent : GeoIp} (he : geo.ip.bind (· (toAsciiLowercase name)) = some ent)
    (hw : GeoIpWellFormed ent) : ∃ matcher, geo.ipMatcher lib name = .ok matcher := by
  obtain ⟨networks, hn⟩ := mapM_exists_iff.mpr fun cidr hc =>
    cidr_network_ok (hw cidr hc).1 (hw cidr hc).2
  simp_all [GeoDatabases.ipMatcher]

theorem siteMatcher_ok {val : Str} {ent : GeoSite}
    (he : geo.site.bind (· (toAsciiLowercase (trim ((val.splitOn '@').headD [])))) = some ent)
    (hw : GeoSiteWellFormed lib ent) : ∃ matcher, geo.siteMatcher lib val = .ok matcher := by
  obtain ⟨doms, hd⟩ := mapM_exists_iff.mpr fun dom hdm => domain_compile_ok (hw dom hdm)
  simp_all [GeoDatabases.siteMatcher]

/-- Both passes see the same geo databases named. -/
theorem stripStart_plainName {start : Str} (hl : ∃ d ∈ start.getLast?, d ≠ '.') :
    (stripStart start (plainName host)).isSome = start.isPrefixOf (toAsciiLowercase host) := by
  rw [isSome_stripStart, Bool.eq_iff_iff, isPrefixOf_iff_prefix, isPrefixOf_iff_prefix, plainName,
    toAsciiLowercase_trimEndMatches (by decide)]
  constructor
  · intro h
    exact h.trans ( rdropWhile_prefix _ _)
  rintro ⟨rest, hr⟩
  rw [← hr, trimEndMatches_append hl]
  exact prefix_append _ _

/-- Only the geo matchers look at the databases. -/
theorem compileMatcher_no_geo (num : Nat) (geo : Option GeoDatabases)
    (hip : stripStart "geoip:" (plainName host) = none) (hs : stripStart "geosite:" (plainName host) = none) :
    compileMatcher lib host num geo = compileMatcher lib host num none := by
  have hv : toAsciiLowercase (trimEndMatches '.' host) = plainName host := rfl
  unfold compileMatcher
  simp only [hv, hip, hs]

theorem compileMatcher_of_validated (hg : GeoKnown lib geo host)
    (h : ¬ "geoip:".toList.isPrefixOf (toAsciiLowercase host) →
      ¬ "geosite:".toList.isPrefixOf (toAsciiLowercase host) →
        ∃ matcher, compileMatcher lib host num none = .ok matcher) :
    ∃ matcher, compileMatcher lib host num (some geo) = .ok matcher := by
  have hv : toAsciiLowercase (trimEndMatches '.' host) = plainName host := rfl
  rw [← stripStart_plainName ⟨':', rfl, by decide⟩, ← stripStart_plainName ⟨':', rfl, by decide⟩] at h
  by_cases ha : plainName host = "*" ∨ plainName host = "all"
  · exact ⟨.all, by unfold compileMatcher; simp only [hv, ha, if_true]⟩
  cases hip : stripStart "geoip:" (plainName host) with
  | some name =>
    obtain ⟨ent, he, hw⟩ := hg.ip name hip
    obtain ⟨matcher, hm⟩ := ipMatcher_ok lib he hw
    refine ⟨.geoIp matcher, ?_⟩
    unfold compileMatcher
    simp only [hv, ha, if_false, hip, hm]
    rfl
  | none =>
  cases hs : stripStart "geosite:" (plainName host) with
  | some val =>
    obtain ⟨ent, he, hw⟩ := hg.site val hs
    obtain ⟨matcher, hm⟩ := siteMatcher_ok he hw
    refine ⟨.geoSite matcher, ?_⟩
    unfold compileMatcher
    simp only [hv, ha, if_false, hip, hs, hm]
    rfl
  | none =>
    rw [hip, hs] at h
    rw [compileMatcher_no_geo num (some geo) hip hs]
    grind

/-! ## Rules -/

theorem validateAclLine_ports (h : (do
      let _ ← parseProtoPort lib (flds.getD 2 []) num
      if let some hijack := flds[3]? then
        if parseIpAddr hijack = none then
          throw (aclLineText num ++ ": invalid hijack address " ++ lib.debug hijack)) = Except.ok ()) :
    (∃ protoPort, parseProtoPort lib (flds.getD 2 []) num = .ok protoPort) ∧
      ∀ hijack, flds[3]? = some hijack → ∃ ip, parseIpAddr hijack = some ip := by
  rcases hp : parseProtoPort lib (flds.getD 2 []) num with err | protoPort
  · rw [hp] at h
    cases h
  rw [hp] at h
  refine ⟨⟨protoPort, rfl⟩, fun hijack hh => ?_⟩
  cases hip : parseIpAddr hijack with
  | some ip => exact ⟨ip, rfl⟩
  | none =>
    rw [hh] at h
    change (if parseIpAddr hijack = none then _ else _) = _ at h
    rw [if_pos hip] at h
    cases h

theorem validateAclLine_ok (h : validateAclLine lib names num flds = .ok ()) :
    names (toAsciiLowercase (flds.getD 0 [])) = true ∧
      (¬ "geoip:".toList.isPrefixOf (toAsciiLowercase (flds.getD 1 [])) →
        ¬ "geosite:".toList.isPrefixOf (toAsciiLowercase (flds.getD 1 [])) →
          ∃ matcher, compileMatcher lib (flds.getD 1 []) num none = .ok matcher) ∧
      (∃ protoPort, parseProtoPort lib (flds.getD 2 []) num = .ok protoPort) ∧
      ∀ hijack, flds[3]? = some hijack → ∃ ip, parseIpAddr hijack = some ip := by
  unfold validateAclLine at h
  dsimp only at h
  split at h <;> [cases h; skip]
  rename_i hn
  split at h <;> [cases h; skip]
  split at h <;> [cases h; skip]
  split at h
  · rcases hm : compileMatcher lib (flds.getD 1 []) num none with err | matcher
    · rw [hm] at h
      cases h
    · rw [hm] at h
      exact ⟨not_not.mp hn, fun _ _ => ⟨matcher, rfl⟩, validateAclLine_ports h⟩
  · rename_i hg
    exact ⟨not_not.mp hn, fun hip hs => absurd ⟨hip, hs⟩ hg, validateAclLine_ports h⟩

theorem aclRule_of_validated (hn : ∀ name, names name = true → (obs name).isSome)
    (hg : GeoKnown lib geo (flds.getD 1 [])) (h : validateAclLine lib names num flds = .ok ()) :
    ∃ rule, aclRule lib obs (some geo) num flds = .ok rule := by
  obtain ⟨hnm, hm, ⟨⟨proto, startPort, endPort⟩, hp⟩, hh⟩ := validateAclLine_ok h
  obtain ⟨ob, ho⟩ := Option.isSome_iff_exists.mp (hn _ hnm)
  obtain ⟨matcher, hm⟩ := compileMatcher_of_validated hg hm
  obtain ⟨hijack, hh⟩ : ∃ hijack, HijackText flds[3]? hijack := by
    rcases hf : flds[3]? with _ | txt
    · exact ⟨none, .none⟩
    · obtain ⟨ip, hip⟩ := hh txt hf
      exact ⟨some ip, .some hip⟩
  exact ⟨⟨ob, matcher, proto, startPort, endPort, hijack⟩, aclRule_ok_iff.mpr ⟨hp, ho, hm, hh⟩⟩

/-! ## Texts -/

/-- Nothing but white space and a comment. -/
def blankLine (raw : Str) : Bool := trim (before '#' raw) = []

theorem blankLine_of_text (h : LineText raw none) : blankLine raw = true := by
  rcases aclLine_ok_iff.mp (aclLine_of_blank 1 h) with ⟨hb, -⟩ | ⟨_, _, -, -, -, -, -, ⟨⟩⟩
  exact decide_eq_true hb

theorem not_blankLine_of_rule {line : Line ω} (h : Reads obs hosts raw (some line)) : blankLine raw = false := by
  cases h with
  | rule ht hm =>
    obtain ⟨host, hf, hne, -⟩ := hm.host
    have hl := aclLine_of_text 1 ht hm.length_le ⟨host, hf, hne⟩
    rcases aclLine_ok_iff.mp hl with ⟨-, ⟨⟩⟩ | ⟨_, _, -, hline, -⟩
    simp [blankLine, hline]

/-- One rule for each line that is not blank, in order. -/
theorem rules_of_readings {raws : List Str} {readings : List (Option (Line ω))}
    (h : List.Forall₂ (Reads obs hosts) raws readings) :
    List.Forall₂ (fun raw rule => ∃ line, Reads obs hosts raw (some line) ∧ rule = compiled line)
      (raws.filter (!blankLine ·)) ((readings.filterMap id).map compiled) := by
  induction h with
  | nil => exact .nil
  | @cons raw reading raws readings hr _ ih =>
    rcases reading with _ | line
    · have hb : blankLine raw = true := by
        cases hr with
        | blank ht => exact blankLine_of_text ht
      grind
    · rw [filter_cons_of_pos (by simp [not_blankLine_of_rule hr])]
      exact .cons ⟨line, hr, rfl⟩ ih

theorem aclText_empty (he : ¬ (acl.file ≠ [] ∨ acl.inline ≠ [])) (ht : aclText files acl = .ok txt) : txt = [] := by
  rw [not_or, not_not, not_not] at he
  simp_all [aclText]

/-- What `validate_routes` has checked of the text. -/
theorem validateRoutes_ok {rslv : Except Str Resolver}
    (h : validateRoutes lib files cfgs acl rslv = .ok ()) (ht : aclText files acl = .ok txt) :
    ∃ rows, aclLines txt = .ok rows ∧
      ∀ row ∈ rows, validateAclLine lib (aclNames cfgs).contains row.1 row.2 = .ok () := by
  unfold validateRoutes at h
  dsimp only at h
  split at h <;> [cases h; skip]
  rcases rslv with err | rslv
  · cases h
  split at h
  · rw [ht] at h
    change validateAcl lib txt (aclNames cfgs).contains = .ok () at h
    unfold validateAcl at h
    rcases hr : aclLines txt with err | rows
    · rw [hr] at h
      cases h
    · rw [hr] at h
      exact ⟨rows, rfl, fun row hm => mapError_eq_ok_iff.mp (forM_ok h row hm)⟩
  · rename_i he
    rw [aclText_empty he ht]
    exact ⟨[], rfl, by simp⟩

/-- An ACL that `validate_routes` accepts, and whose geo names are in the
databases, is built: `parse_acl` gives the rules of its lines. -/
theorem validated_acl_builds {files : Files} {configs : List (OutboundConfig γ)} {acl : AclConfig}
    {resolver : Except Str Resolver} (hvalid : validateRoutes lib files configs acl resolver = .ok ())
    {buildBackend : OutboundConfig γ → Except Str ω} {direct reject default : ω} {outbounds : Str → Option ω}
    (houtbounds : aclOutbounds buildBackend direct reject configs = .ok (outbounds, default)) {text : Str}
    (htext : aclText files acl = .ok text) {geo : GeoDatabases} (hload : GeoDatabases.load files acl text = .ok geo)
    (hgeo : ∀ rows, aclLines text = .ok rows → ∀ row ∈ rows, GeoKnown lib geo (row.2.getD 1 [])) :
    ∃ rules, parseAcl lib text outbounds (some geo) = .ok rules ∧
      List.Forall₂ (fun raw rule => ∃ line, Reads outbounds (hostMatcher lib (some geo)) raw (some line) ∧
        rule = compiled line) ((lines text).filter (!blankLine ·)) rules ∧
      ∀ r, buildAcl lib files buildBackend direct reject configs acl r = .ok { rules, default, resolver := r } := by
  obtain ⟨rows, hr, hl⟩ := validateRoutes_ok hvalid htext
  obtain ⟨rules, hrs⟩ := mapM_exists_iff.mpr fun row hrw =>
    aclRule_of_validated (fun _ => aclOutbounds_isSome houtbounds) (hgeo rows hr row hrw) (hl row hrw)
  have hp : parseAcl lib text outbounds (some geo) = .ok rules := by
    rw [parseAcl, hr]
    exact hrs
  obtain ⟨readings, hrd, rfl⟩ := parseAcl_iff.mp hp
  refine ⟨_, hp, rules_of_readings hrd, fun r => ?_⟩
  rw [buildAcl, houtbounds, htext]
  change (do
    let geo ← (GeoDatabases.load files acl text).mapError .error
    return { rules := ← parseAcl lib text outbounds (some geo), default, resolver := r } :
    Except (Failure Str) (AclOutbound ω)) = _
  rw [hload]
  change (do return { rules := ← parseAcl lib text outbounds (some geo), default, resolver := r } :
    Except (Failure Str) (AclOutbound ω)) = _
  rw [hp]
  rfl

/-! ## One text -/

def geoText : Str := "Direct(geoip:Abroad.) # no dot\n\nreject(all, udp/53)"

def abroadFiles : Files where
  readToString _ := .error "no such file"
  parseDuration _ := .error "no duration"
  loadGeoip _ _ := .ok fun name => abroadGeo.ip.bind (· name)
  loadGeosite _ _ := .error "no such file"

def geoAcl : AclConfig where
  file := []
  inline := [geoText]
  geoip := []
  geosite := []
  geoUpdateInterval := []

theorem geoKnown_abroad : GeoKnown plainLibraries abroadGeo "geoip:Abroad." := by
  have hip : stripStart "geoip:" (plainName "geoip:Abroad.") = some "abroad" := by decide
  have hs : stripStart "geosite:" (plainName "geoip:Abroad.") = none := by decide
  refine ⟨fun name hn => ?_, fun val hv => ?_⟩
  · rw [hip] at hn
    cases hn
    exact ⟨_, rfl, fun cidr hc => by rw [mem_singleton.mp hc]; decide⟩
  · rw [hs] at hv
    cases hv

theorem geoKnown_all : GeoKnown plainLibraries abroadGeo "all" := by
  have hip : stripStart "geoip:" (plainName "all") = none := by decide
  have hs : stripStart "geosite:" (plainName "all") = none := by decide
  refine ⟨fun name hn => ?_, fun val hv => ?_⟩
  · rw [hip] at hn
    cases hn
  · rw [hs] at hv
    cases hv

/-- Two lines, two rules. -/
theorem validated_acl_builds_geo : ∃ rules : List (AclRule Bool), rules.length = 2 ∧
    ∀ r, buildAcl plainLibraries abroadFiles (fun config : OutboundConfig Bool => .ok config.settings) true false []
      geoAcl r = .ok { rules, default := true, resolver := r } := by
  have hv : validateRoutes plainLibraries abroadFiles ([] : List (OutboundConfig Bool)) geoAcl (.ok .system) =
      .ok () := by decide +kernel
  have hrw : aclLines geoText = .ok
      [(1, ["Direct", "geoip:Abroad."]), (3, ["reject", "all", "udp/53"])] := by
    decide +kernel
  have hb : ((lines geoText).filter (!blankLine ·)).length = 2 := by decide +kernel
  have ho : aclOutbounds (fun config : OutboundConfig Bool => .ok config.settings) true false [] =
      .ok (_, true) := rfl
  have ht : aclText abroadFiles geoAcl = .ok geoText := by decide +kernel
  have hl : GeoDatabases.load abroadFiles geoAcl geoText = .ok abroadGeo := rfl
  have hg : ∀ rows, aclLines geoText = .ok rows → ∀ row ∈ rows,
      GeoKnown plainLibraries abroadGeo (row.2.getD 1 []) := by
    rintro rows hrows' row hr
    rw [hrw] at hrows'
    cases hrows'
    rw [mem_cons, mem_singleton] at hr
    rcases hr with rfl | rfl
    · exact geoKnown_abroad
    · exact geoKnown_all
  obtain ⟨rules, -, hrs, hbl⟩ := validated_acl_builds hv ho ht hl hg
  exact ⟨rules, by rw [← hrs.length_eq, hb], hbl⟩

end Hysteria.Proof
