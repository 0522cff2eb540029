import Hysteria.Proof.Outbound.AddressRules

/-!
# The name a rule is written with

A rule for a host name keeps the name as it is written, in lower case and without
the dots at its end (`compileMatcher_name`, `compileMatcher_suffix`), while
`select` also turns the name of the request into Unicode. They agree where no
label of the name is a valid `xn--` label (`unicode_eq_iff`).
-/

namespace Hysteria.Proof

open Framework Impl Spec List

variable {ω : Type} {lib : Libraries} {unicode : Str → Option Str} {name host : Str}

/-- Letters, digits, hyphens and dots. -/
def HostName (name : Str) : Prop := ∀ c ∈ name, isAsciiAlphanumeric c = true ∨ c = '-' ∨ c = '.'

/-- `idna::domain_to_unicode` goes through the labels of a name: `unicode` is
defined for the valid `xn--` labels, the others stay as they are. -/
structure ByLabel (lib : Libraries) (unicode : Str → Option Str) : Prop where
  domainToUnicode : ∀ name, HostName name →
    lib.domainToUnicode name = ['.'].intercalate ((name.splitOn '.').map fun label => (unicode label).getD label)
  ace : ∀ {label form}, unicode label = some form → "xn--" <+: label
  noDot : ∀ {label form}, unicode label = some form → '.' ∉ form
  changed : ∀ {label form}, unicode label = some form → form ≠ label

/-- No label of the name is a valid `xn--` label. -/
def NoUnicode (unicode : Str → Option Str) (name : Str) : Prop :=
  ∀ label ∈ (plainName name).splitOn '.', unicode label = none

/-- `Authority` takes the part before the port as the host. -/
def ReadsHost (lib : Libraries) (host : Str) (port : UInt16) : Prop :=
  lib.authority (host ++ ':' :: showNat port.toNat) = .ok (host, some port)

/-! ## Two normal forms -/

theorem plainName_eq_of_case (h : toAsciiLowercase host = toAsciiLowercase name) : plainName host = plainName name := by
  unfold plainName
  grind [toAsciiLowercase_trimEndMatches]

theorem isAsciiAlphanumeric_toLower {c : Char} (h : isAsciiAlphanumeric c = true) :
    isAsciiAlphanumeric c.toLower = true := by
  have ha : c.toNat < 128 := by
    simp only [isAsciiAlphanumeric, decide_eq_true_eq] at h
    rcases h with ⟨-, h⟩ | ⟨-, h⟩ | ⟨-, h⟩ <;> exact Nat.lt_of_le_of_lt (show c.toNat ≤ _ from h) (by decide)
  have hal : ∀ n < 128, isAsciiAlphanumeric (Char.ofNat n) = true →
      isAsciiAlphanumeric (Char.ofNat n).toLower = true := by decide
  grind [Char.ofNat_toNat]

theorem HostName.plainName (h : HostName name) : HostName (plainName name) := by
  intro c hc
  obtain ⟨d, hd, rfl⟩ := mem_map.mp hc
  have hm : d ∈ name := ( rdropWhile_prefix _ _).subset hd
  rcases h d hm with h | rfl | rfl
  · exact .inl (isAsciiAlphanumeric_toLower h)
  · exact .inr (.inl (by decide))
  · exact .inr (.inr (by decide))

theorem HostName.not_mem (h : HostName name) {c : Char} (hc : isAsciiAlphanumeric c = false) (hd : c ≠ '-')
    (hdt : c ≠ '.') : c ∉ name := by
  intro hm
  rcases h c hm with h | h | h
  · rw [h] at hc
    cases hc
  · exact hd h
  · exact hdt h

section Unicode

variable (hlib : ByLabel lib unicode)
include hlib

/-- The labels of a name in Unicode have no dots either. -/
theorem no_dot_of_label {s lbl : Str}
    (h : lbl ∈ (s.splitOn '.').map fun lbl => (unicode lbl).getD lbl) : '.' ∉ lbl := by
  obtain ⟨l, hl, rfl⟩ := mem_map.mp h
  rcases hu : unicode l with _ | form
  · exact not_mem_of_mem_splitOn hl
  · exact hlib.noDot hu

theorem unicode_eq_iff (hn : HostName name) :
    lib.domainToUnicode (plainName name) = plainName name ↔ NoUnicode unicode name := by
  rw [hlib.domainToUnicode _ hn.plainName]
  constructor
  · intro h lbl hl
    have hs := splitOn_intercalate '.' (fun _ => no_dot_of_label hlib (s := plainName name)) (by simp)
    rw [h] at hs
    have heq := map_inj_left.mp (hs.symm.trans (map_id _).symm) lbl hl
    rcases hu : unicode lbl with _ | form
    · rfl
    · simp only [hu, id, Option.getD_some] at heq
      exact absurd heq (hlib.changed hu)
  · intro h
    have hm : ((plainName name).splitOn '.').map (fun lbl => (unicode lbl).getD lbl) =
        ((plainName name).splitOn '.').map id := by
      refine map_congr_left fun lbl hl => ?_
      rw [h lbl hl]
      rfl
    rw [hm, map_id, intercalate_splitOn]

/-- Going to Unicode adds no label, so the result does not end in a dot and the name. -/
theorem not_endsWith_unicode (hn : HostName name) :
    endsWith (lib.domainToUnicode (plainName name)) ('.' :: plainName name) = false := by
  rw [Bool.eq_false_iff]
  intro h
  have hc := (isSuffixOf_iff_suffix.mp h).sublist.count_le '.'
  have hf := count_intercalate (fun _ => no_dot_of_label hlib (s := plainName name)) (by simp)
  have hnm := count_intercalate (fun _ => not_mem_of_mem_splitOn (s := plainName name) (c := '.')) (by simp)
  rw [length_map, ← hlib.domainToUnicode _ hn.plainName] at hf
  rw [intercalate_splitOn] at hnm
  rw [count_cons_self] at hc
  omega

end Unicode

/-! ## The matchers -/

theorem compileMatcher_name (hn : HostName name) (line : Nat) (geo : Option GeoDatabases) :
    compileMatcher lib name line geo = .ok (if plainName name = "all" then .all
      else match parseIpAddr (plainName name) with
        | some ip => .ip ip
        | none => .exact (plainName name)) := by
  have hc : ':' ∉ plainName name := hn.plainName.not_mem (by decide) (by decide) (by decide)
  have hsl : '/' ∉ plainName name := hn.plainName.not_mem (by decide) (by decide) (by decide)
  have hs : '*' ∉ plainName name := hn.plainName.not_mem (by decide) (by decide) (by decide)
  have hne : plainName name ≠ "*" := by
    grind
  have hgp : stripStart "geoip:" (plainName name) = none := stripStart_eq_none (by decide) hc
  have hg : stripStart "geosite:" (plainName name) = none := stripStart_eq_none (by decide) hc
  have hsf : stripStart "suffix:" (plainName name) = none := stripStart_eq_none (by decide) hc
  have hv : toAsciiLowercase (trimEndMatches '.' name) = plainName name := rfl
  unfold compileMatcher
  simp only [hv, hne, false_or, hgp, hg, hsf, splitOnce_of_not_mem hsl, hs, if_false]
  grind

theorem compileMatcher_suffix (name : Str) (line : Nat) (geo : Option GeoDatabases) :
    compileMatcher lib ("suffix:" ++ name) line geo =
      if plainName name = [] then .error (aclLineText line ++ ": empty domain suffix")
      else .ok (.suffix (plainName name)) := by
  have hv : toAsciiLowercase (trimEndMatches '.' ("suffix:" ++ name)) =
      "suffix:" ++ plainName name := by
    rw [trimEndMatches_append ⟨':', rfl, by decide⟩, plainName, toAsciiLowercase, map_append]
    rfl
  have ho : "suffix:" ++ plainName name ≠ "*" := fun h => by cases h
  have ha : "suffix:" ++ plainName name ≠ "all" := fun h => by cases h
  unfold compileMatcher
  simp only [hv, ho, ha, or_self, if_false, stripStart_append]
  rfl

/-! ## Selection -/

/-- When a rule with this text applies to the name it has. A text that is an
address apart from dots at its end stands for the address. -/
def Reached (unicode : Str → Option Str) (ips : List IpAddr) (text name : Str) : Prop :=
  if text = name ∧ (parseIpAddr (plainName name)).isSome then ∃ ip ∈ ips, parseIpAddr (plainName name) = some ip
  else NoUnicode unicode name

theorem noUnicode_all (hlib : ByLabel lib unicode) (h : plainName name = "all".toList) : NoUnicode unicode name := by
  intro lbl hl
  have hs : "all".toList.splitOn '.' = ["all".toList] := by decide
  rw [h, hs, mem_singleton] at hl
  rcases hu : unicode lbl with _ | form
  · rfl
  have ha := hlib.ace hu
  rw [hl] at ha
  exact absurd ha (by decide)

theorem matches_own_name (hlib : ByLabel lib unicode) (hn : HostName name)
    (hc : toAsciiLowercase host = toAsciiLowercase name) {txt : Str} (ht : txt = name ∨ txt = "suffix:" ++ name)
    {line : Nat} {geo : Option GeoDatabases} {m : HostMatcher} (hm : compileMatcher lib txt line geo = .ok m)
    (ips : List IpAddr) : m.matches (normalizedHost lib host) ips = true ↔ Reached unicode ips txt name := by
  have hh : normalizedHost lib host = lib.domainToUnicode (plainName name) :=
    congrArg lib.domainToUnicode (plainName_eq_of_case hc)
  rw [hh]
  rcases ht with rfl | rfl
  · rw [compileMatcher_name hn, Except.ok.injEq] at hm
    by_cases ha : plainName txt = "all"
    · rw [if_pos ha] at hm
      have hip : parseIpAddr (plainName txt) = none := by
        rw [ha]
        decide
      subst hm
      rw [Reached, if_neg (by simp [hip])]
      exact iff_of_true rfl (noUnicode_all hlib ha)
    · rw [if_neg ha] at hm
      rcases hip : parseIpAddr (plainName txt) with _ | ip
      · rw [hip] at hm
        subst hm
        rw [Reached, if_neg (by simp [hip]), ← unicode_eq_iff hlib hn]
        simp [HostMatcher.matches]
      subst hm
      rw [Reached, if_pos (by simp [hip]), hip]
      simp [HostMatcher.matches, eq_comm]
  · rw [compileMatcher_suffix] at hm
    split at hm
    · cases hm
    cases hm
    have hne : "suffix:" ++ name ≠ name := fun h => by
      grind [length_append]
    rw [Reached, if_neg (fun h => hne h.1), ← unicode_eq_iff hlib hn]
    simp [HostMatcher.matches, not_endsWith_unicode hlib hn]

/-- The first rule, written with a host name, is selected for that name in any
letter case exactly if it is `Reached`; else the other rules decide. -/
theorem select_own_name (hlib : ByLabel lib unicode) (hn : HostName name)
    (hcase : toAsciiLowercase host = toAsciiLowercase name) {text : Str}
    (htext : text = name ∨ text = "suffix:".toList ++ name) {line : Nat} {geo : Option GeoDatabases}
    {rule : AclRule ω} (hm : compileMatcher lib text line geo = .ok rule.matcher) {port : UInt16}
    {protocol : AclProtocol} (hadmits : admits rule port protocol) (hreads : ReadsHost lib host port)
    (outside : Outside) (rest : List (AclRule ω)) (default : ω) (resolver : Resolver) (w : World) :
    let address := host ++ ':' :: showNat port.toNat
    let resolved := resolver.resolve outside host port w
    let selected (rules : List (AclRule ω)) :=
      AclOutbound.select lib outside { rules, default, resolver } address protocol w
    (Reached unicode resolved.1.ips text name →
      selected (rule :: rest) = (.ok (rule.outbound, rule.target address port), resolved.2)) ∧
    (¬ Reached unicode resolved.1.ips text name → selected (rule :: rest) = selected rest) := by
  intro address resolved selected
  have had : parseHostPort lib address = .ok (host, port) := by
    rw [parseHostPort, show lib.authority address = _ from hreads]
  have hs (rules : List (AclRule ω)) : selected rules =
      (.ok (AclOutbound.pick { rules, default, resolver } address (normalizedHost lib host) resolved.1.ips port
        protocol), resolved.2) := by
    simp only [selected, AclOutbound.select, had]
    rfl
  have ha : rule.accepts (normalizedHost lib host) resolved.1.ips port protocol = true ↔
      Reached unicode resolved.1.ips text name := by
    rw [accepts_eq, hadmits, Bool.true_and]
    grind [matches_own_name]
  rw [hs, hs]
  refine ⟨fun h => ?_, fun h => ?_⟩
  · simp only [AclOutbound.pick, find?_cons, ha.mpr h]
  · have hnt := Bool.eq_false_iff.mpr (fun h' => h (ha.mp h'))
    simp only [AclOutbound.pick, find?_cons, hnt]

/-! ## One `xn--` label -/

def bookUnicode (label : Str) : Option Str :=
  if label = "xn--bcher-kva" then some "bücher".toList else none

/-- `domain_to_unicode` where `xn--bcher-kva` is the only valid `xn--` label. -/
def bookLibraries : Libraries :=
  { plainLibraries with
    domainToUnicode := fun name =>
      ['.'].intercalate ((name.splitOn '.').map fun label => (bookUnicode label).getD label) }

theorem byLabel_book : ByLabel bookLibraries bookUnicode := by
  have hf : ∀ {lbl form : Str}, bookUnicode lbl = some form →
      lbl = "xn--bcher-kva" ∧ form = "bücher".toList := by
    intro lbl form h
    unfold bookUnicode at h
    split at h
    · cases h
      exact ⟨‹_›, rfl⟩
    · cases h
  refine ⟨fun _ _ => rfl, fun h => ?_, fun h => ?_, fun h => ?_⟩ <;> obtain ⟨rfl, rfl⟩ := hf h <;> decide

def bookRule (matcher : HostMatcher) : AclRule Bool where
  outbound := false
  matcher
  protocol := .both
  startPort := 0
  endPort := 0
  hijack := none

/-- Requests for the name in the rule go past the rule. -/
theorem select_own_name_differs : let selected (rule : AclRule Bool) :=
      (AclOutbound.select bookLibraries silentOutside { rules := [rule], default := true, resolver := .system }
        "xn--bcher-kva.example:443" .tcp {}).1
    parseAcl bookLibraries "reject(xn--bcher-kva.example)" directOrReject none =
        .ok [bookRule (.exact "xn--bcher-kva.example")] ∧
      selected (bookRule (.exact "xn--bcher-kva.example")) =
        .ok (true, "xn--bcher-kva.example:443") ∧
      parseAcl bookLibraries "reject(suffix:xn--bcher-kva.example)" directOrReject none =
        .ok [bookRule (.suffix "xn--bcher-kva.example")] ∧
      selected (bookRule (.suffix "xn--bcher-kva.example")) =
        .ok (true, "xn--bcher-kva.example:443") := by
  refine ⟨rfl, ?_, rfl, ?_⟩ <;> decide +kernel

/-- The rule for `WWW.Example.` is selected for `www.EXAMPLE.`. -/
theorem select_own_name_plain : (AclOutbound.select bookLibraries silentOutside
        { rules := [bookRule (.exact "www.example".toList)], default := true, resolver := .system }
        "www.EXAMPLE.:443".toList .tcp {}).1 = .ok (false, "www.EXAMPLE.:443".toList) := by
  have hn : HostName "WWW.Example.".toList := by
    have hal : ("WWW.Example.".toList.all fun c => isAsciiAlphanumeric c || c = '-' || c = '.') = true := by decide
    intro c hc
    simpa [or_assoc] using all_eq_true.mp hal c hc
  have hcs : toAsciiLowercase "www.EXAMPLE.".toList = toAsciiLowercase "WWW.Example.".toList := by decide
  have hm : compileMatcher bookLibraries "WWW.Example.".toList 1 none =
      .ok (bookRule (.exact "www.example".toList)).matcher := rfl
  have ha : admits (bookRule (.exact "www.example".toList)) 443 .tcp = true := by decide
  have hrd : ReadsHost bookLibraries "www.EXAMPLE.".toList 443 := rfl
  have hr (ips : List IpAddr) : Reached bookUnicode ips "WWW.Example.".toList "WWW.Example.".toList := by
    have hlb : (plainName "WWW.Example.".toList).splitOn '.' = ["www".toList, "example".toList] := by decide
    rw [Reached, if_neg (by decide), NoUnicode, hlb]
    intro lbl hl
    rw [mem_cons, mem_singleton] at hl
    rcases hl with rfl | rfl <;> decide
  have hs := (select_own_name byLabel_book hn hcs (.inl rfl) hm ha hrd silentOutside [] true .system
    {}).1 (hr _)
  exact congrArg Prod.fst hs

end Hysteria.Proof
