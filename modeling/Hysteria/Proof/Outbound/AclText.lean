import Hysteria.Framework.Fallible
import Hysteria.Spec.Acl

/-!
# The text of an ACL

`parseAcl_iff`: `parse_acl` accepts the texts whose lines can be read as the
specification has it, and its rules are these lines, compiled.
-/

namespace Hysteria.Proof

open Framework Impl Spec List

variable {ω : Type} {lib : Libraries} {geo : Option GeoDatabases} {obs : Str → Option ω}

variable {protocol : AclProtocol} {num : Nat}
variable {txt val name raw : Str} {n : UInt16} {ports : Ports} {txts flds : List Str} {rule : AclRule ω}

/-! ## Protocol and ports -/

/-- How a rule keeps its ports. -/
def bounds : Ports → UInt16 × UInt16
  | .all => (0, 0)
  | .range first last => (first, last)

theorem parseU16_no_dash (h : parseU16 txt = some n) : '-' ∉ txt := not_mem_of_parseU16 h (by decide) (by decide)

theorem parseU16_ne_star (h : parseU16 txt = some n) : txt ≠ "*" := by
  rintro rfl
  exact not_mem_of_parseU16 h (c := '*') (by decide) (by decide) (by decide)

theorem dash_ne_star (a b : Str) : a ++ '-' :: b ≠ "*" := by
  intro h
  have : '-' ∈ "*".toList := h ▸ mem_append_right a mem_cons_self
  exact absurd this (by decide)

theorem portsText_star (h : PortsText "*".toList ports) : ports = .all := by
  generalize ht : "*".toList = txt at h
  cases h with
  | all => rfl
  | one h => exact absurd ht.symm (parseU16_ne_star h)
  | range _ _ _ => exact absurd ht.symm (dash_ne_star _ _)

/-- A field of the grammar is read as what it says. -/
theorem parseProtoPort_of_text (num : Nat) (h : ProtoPortText (toAsciiLowercase val) protocol ports) :
    parseProtoPort lib val num = .ok (protocol, bounds ports) := by
  unfold parseProtoPort
  generalize toAsciiLowercase val = txt at h ⊢
  cases h with
  | empty => rfl
  | protocol h => cases h <;> rfl
  | ports ha hb =>
    rename_i a b
    by_cases hst : a ++ '/' :: b = "*/*"
    · have hab : a = "*" ∧ b = "*" := by
        cases ha <;> simp_all
      obtain ⟨rfl, rfl⟩ := hab
      rw [portsText_star hb]
      cases ha
      rfl
    · have hs : '/' ∉ a := by cases ha <;> decide
      have hp : (if a = "*" then some AclProtocol.both else if a = "tcp" then some .tcp
          else if a = "udp" then some .udp else none) = some protocol := by
        cases ha <;> rfl
      rw [if_neg (by cases ha <;> simp_all), splitOnce_append hs, Option.getD_some]
      simp only [hp]
      cases hb with
      | all => rfl
      | one hn =>
        rw [if_neg (parseU16_ne_star hn), splitOnce_of_not_mem (parseU16_no_dash hn), Option.getD_none]
        simp [hn, bounds]
      | range hf hl hle =>
        rw [if_neg (dash_ne_star _ _), splitOnce_append (parseU16_no_dash hf), Option.getD_some]
        simp [hf, hl, hle, bounds]

theorem protocolText_of (h : (if txt = "*" then some AclProtocol.both else if txt = "tcp" then some .tcp
      else if txt = "udp" then some .udp else none) = some protocol) : ProtocolText txt protocol := by
  split at h
  · rename_i ht
    cases h
    exact ht ▸ .any
  split at h
  · rename_i ht
    cases h
    exact ht ▸ .tcp
  split at h
  · rename_i ht
    cases h
    exact ht ▸ .udp
  · cases h

/-- A field that is read is one of the grammar. -/
theorem text_of_parseProtoPort {startPort endPort : UInt16}
    (h : parseProtoPort lib val num = .ok (protocol, startPort, endPort)) :
    ∃ ports, ProtoPortText (toAsciiLowercase val) protocol ports ∧ bounds ports = (startPort, endPort) := by
  unfold parseProtoPort at h
  simp only at h
  generalize toAsciiLowercase val = txt at h ⊢
  split at h
  · rename_i ht
    cases h
    rcases ht with rfl | rfl | rfl
    · exact ⟨.all, .empty, rfl⟩
    · exact ⟨.all, .protocol .any, rfl⟩
    · exact ⟨.all, .ports (a := "*") .any .all, rfl⟩
  rcases not_mem_or_append '/' txt with hs | ⟨a, b, hs, rfl⟩
  · rw [splitOnce_of_not_mem hs, Option.getD_none] at h
    split at h <;> [cases h; skip]
    rename_i hprot
    cases h
    exact ⟨.all, .protocol (protocolText_of hprot), rfl⟩
  · rw [splitOnce_append hs, Option.getD_some] at h
    simp only at h
    split at h <;> [cases h; skip]
    rename_i hprot
    replace hprot := protocolText_of hprot
    split at h
    · rename_i hb
      cases h
      exact ⟨.all, .ports hprot (hb ▸ .all), rfl⟩
    rcases not_mem_or_append '-' b with hd | ⟨a', b', hd, rfl⟩
    · rw [splitOnce_of_not_mem hd, Option.getD_none] at h
      split at h <;> [cases h; cases h; skip]
      rename_i first last hf hl
      rw [hf] at hl
      cases hl
      rw [if_neg (UInt16.lt_irrefl first)] at h
      cases h
      exact ⟨.range _ _, .ports hprot (.one hf), rfl⟩
    · rw [splitOnce_append hd, Option.getD_some] at h
      split at h <;> [cases h; cases h; skip]
      rename_i first last hf hl
      split at h <;> [cases h; skip]
      rename_i hle
      cases h
      exact ⟨.range _ _, .ports hprot (.range hf hl (UInt16.not_lt.mp hle)), rfl⟩

/-! ## Lines -/

theorem paren_not_mem_name (h : ∀ c ∈ name, isAsciiAlphanumeric c = true ∨ c = '_') : '(' ∉ name := by
  intro hc
  exact absurd (h _ hc) (by decide)

theorem hash_not_mem_blank {pad : Str} (h : Padded [] pad) : '#' ∉ pad := by
  obtain ⟨a, b, ha, hb, rfl⟩ := h
  intro hc
  rcases mem_append.mp hc with hc | hc
  · exact absurd (ha _ hc) (by decide)
  · exact absurd (hb _ hc) (by decide)

theorem before_comment {body comment : Str} (hb : '#' ∉ body) (h : Comment comment) :
    before '#' (body ++ comment) = body := by
  rcases h with rfl | ⟨rest, rfl⟩
  · rw [append_nil, before_of_not_mem hb]
  · exact before_append hb

/-- Every line is a part without `#`, and a comment. -/
theorem exists_comment (raw : Str) : ∃ comment, Comment comment ∧ raw = before '#' raw ++ comment := by
  rcases not_mem_or_append '#' raw with h | ⟨body, rest, h, rfl⟩
  · exact ⟨[], .inl rfl, by rw [before_of_not_mem h, append_nil]⟩
  · exact ⟨'#' :: rest, .inr ⟨rest, rfl⟩, by rw [before_append h]⟩

theorem trimmed_rule {inner : Str} (h : ∀ c ∈ name, isAsciiAlphanumeric c = true ∨ c = '_') :
    Trimmed (name ++ '(' :: (inner ++ [')'])) := by
  constructor
  · intro c hc
    rcases name with _ | ⟨x, name⟩
    · cases hc
      decide
    · cases hc
      have h := h _ mem_cons_self
      rcases h with h | rfl
      · simp only [isAsciiAlphanumeric, decide_eq_true_eq, Char.le_def, UInt32.le_iff_toNat_le] at h
        simp only [isWhitespace, decide_eq_false_iff_not]
        simp at h
        omega
      · decide
  · intro c hc
    rw [← cons_append, ← append_assoc, getLast?_concat] at hc
    cases hc
    decide

theorem map_trim_fields (h : List.Forall₂ FieldText txts flds) : txts.map trim = flds := by
  induction h with
  | nil => rfl
  | cons hf _ ih => rw [map_cons, ih, trim_padded hf.1 hf.2.1]

theorem comma_not_mem (h : List.Forall₂ FieldText txts flds) : ∀ txt ∈ txts, ',' ∉ txt := by
  induction h with
  | nil => exact nofun
  | cons hf _ ih =>
    intro txt ht
    rcases mem_cons.mp ht with rfl | ht
    · exact hf.2.2
    · exact ih txt ht

theorem fieldText_map_trim (h : ∀ txt ∈ txts, ',' ∉ txt) : List.Forall₂ FieldText txts (txts.map trim) := by
  rw [forall₂_map_right_iff, forall₂_same]
  intro txt ht
  exact ⟨trimmed_trim txt, exists_padded txt, h txt ht⟩

/-- What the slices of a line are. -/
theorem byteSlice_line (name inner : Str) :
    byteSlice (name ++ '(' :: (inner ++ [')'])) 0 (utf8 name).length = some name ∧
      byteSlice (name ++ '(' :: (inner ++ [')'])) ((utf8 name).length + 1)
        ((utf8 (name ++ '(' :: (inner ++ [')']))).length - 1) = some inner := by
  have hn := byteSlice_append [] name ('(' :: (inner ++ [')']))
  have hi := byteSlice_append (name ++ ['(']) inner [')']
  have hp : (utf8 ['(']).length = 1 ∧ (utf8 [')']).length = 1 := by decide
  have hl : (utf8 (name ++ '(' :: (inner ++ [')']))).length - 1 =
      (utf8 (name ++ ['('])).length + (utf8 inner).length := by
    grind [utf8_append, length_append]
  refine ⟨by simpa using hn, ?_⟩
  rw [hl, ← hp.1, ← length_append, ← utf8_append, ← hi]
  simp

theorem split_unique {c : Char} {name name' rest rest' : Str} (hn : c ∉ name) (hn' : c ∉ name')
    (h : name ++ c :: rest = name' ++ c :: rest') : name = name' ∧ rest = rest' := by
  have hs := congrArg (splitOnce c) h
  rw [splitOnce_append hn, splitOnce_append hn'] at hs
  simpa using hs

/-- The lines that are accepted, and what they are cut into. No slice is out of range. -/
theorem aclLine_ok_iff {parts : Option (List Str)} : aclLine num raw = .ok parts ↔
    trim (before '#' raw) = [] ∧ parts = none ∨
      ∃ name inner, '(' ∉ name ∧ trim (before '#' raw) = name ++ '(' :: (inner ++ [')']) ∧
        name.all (fun c => isAsciiAlphanumeric c || c = '_') = true ∧
        ((inner.splitOn ',').map trim).length ≤ 3 ∧ ((inner.splitOn ',').map trim)[0]? ≠ some [] ∧
        parts = some (name :: (inner.splitOn ',').map trim) := by
  unfold aclLine
  generalize trim (before '#' raw) = line
  by_cases hln : line = []
  · subst hln
    constructor
    · rintro ⟨⟩
      exact .inl ⟨rfl, rfl⟩
    · rintro (⟨-, rfl⟩ | ⟨name, inner, -, hline, -⟩)
      · rfl
      · simp at hline
  simp only [hln, if_false, false_and, false_or]
  rcases not_mem_or_append '(' line with hp | ⟨name, rest, hp, rfl⟩
  · rw [findByte, if_neg hp]
    refine ⟨fun h => (by cases h), ?_⟩
    rintro ⟨name, inner, -, rfl, -⟩
    simp at hp
  rw [findByte_append hp]
  have he : endsWith (name ++ '(' :: rest) [')'] = true ↔ rest.getLast? = some ')' := by
    rw [endsWith, isSuffixOf_iff_suffix, singleton_suffix_iff_getLast?_eq_some]
    grind
  by_cases hl : rest.getLast? = some ')'
  · obtain ⟨inner, rfl⟩ := getLast?_eq_some_iff.mp hl
    obtain ⟨hn, hi⟩ := byteSlice_line name inner
    simp only [he, hl, hn, hi]
    rw [if_neg (not_not_intro trivial)]
    constructor
    · intro h
      split at h <;> [cases h; skip]
      rename_i ha
      split at h <;> [cases h; skip]
      rename_i hf
      cases h
      rw [not_or, not_or] at hf
      exact ⟨name, inner, hp, rfl, not_not.mp ha, Nat.le_of_succ_le_succ (Nat.le_of_not_lt hf.2.1), hf.2.2, rfl⟩
    · rintro ⟨name', inner', hn', hline, ha, hlen, hf, rfl⟩
      obtain ⟨rfl, hin⟩ := split_unique hp hn' hline
      obtain rfl := append_cancel_right hin
      have hpos : 0 < (inner.splitOn ',').length := length_pos_of_ne_nil (splitOn_ne_nil _ _)
      rw [if_neg (not_not_intro ha), if_neg]
      rw [length_map] at hlen
      rw [length_cons, length_map, not_or, not_or]
      exact ⟨by omega, by omega, hf⟩
  · simp only [he, hl]
    refine ⟨fun h => (by cases h), ?_⟩
    rintro ⟨name', inner, hn, hline, -⟩
    rw [(split_unique hp hn hline).2] at hl
    simp at hl

/-- A line of the grammar is cut into its fields. -/
theorem aclLine_of_text (num : Nat) (h : LineText raw (some (name, flds))) (hl : flds.length ≤ 3)
    (hh : ∃ host, flds[0]? = some host ∧ host ≠ []) : aclLine num raw = .ok (some (name :: flds)) := by
  obtain ⟨host, hf, hne⟩ := hh
  generalize hfs : some (name, flds) = parts at h
  cases h with
  | blank _ _ => cases hfs
  | rule hp hhs hn ht hc =>
    rename_i body name' comment txts flds'
    cases hfs
    have htexts_ne : txts ≠ [] := by
      rintro rfl
      cases ht
      cases hf
    have ha : name.all (fun c => isAsciiAlphanumeric c || c = '_') = true := by
      simpa [List.all_eq_true] using hn
    rw [← map_trim_fields ht] at hl hf ⊢
    refine aclLine_ok_iff.mpr (.inr ⟨name, [','].intercalate txts, paren_not_mem_name hn, ?_, ha, ?_⟩)
    · rw [before_comment hhs hc, trim_padded (trimmed_rule hn) hp]
    · rw [List.splitOn_intercalate ',' (comma_not_mem ht) htexts_ne]
      refine ⟨hl, ?_, rfl⟩
      rw [hf, ne_eq, Option.some.injEq]
      exact hne

theorem aclLine_of_blank (num : Nat) (h : LineText raw none) : aclLine num raw = .ok none := by
  generalize hps : none = parts at h
  cases h with
  | blank hp hc =>
    refine aclLine_ok_iff.mpr (.inl ⟨?_, rfl⟩)
    rw [before_comment (hash_not_mem_blank hp) hc, trim_padded (t := []) ⟨nofun, nofun⟩ hp]
  | rule _ _ _ _ _ => cases hps

/-- A line that is cut into fields is one of the grammar. -/
theorem text_of_aclLine {parts : Option (List Str)} (h : aclLine num raw = .ok parts) :
    parts = none ∧ LineText raw none ∨
      ∃ name flds, parts = some (name :: flds) ∧ LineText raw (some (name, flds)) ∧ flds.length ≤ 3 ∧
        ∃ host, flds[0]? = some host ∧ host ≠ [] := by
  obtain ⟨comment, hc, hr⟩ := exists_comment raw
  have hpd := exists_padded (before '#' raw)
  rcases aclLine_ok_iff.mp h with ⟨hb, rfl⟩ | ⟨name, inner, -, hl, hn, hln, hf, rfl⟩
  · rw [hb] at hpd
    rw [hr]
    exact .inl ⟨rfl, .blank hpd hc⟩
  rw [hl] at hpd
  have ht := fieldText_map_trim fun txt htx => not_mem_of_mem_splitOn (c := ',') (s := inner) htx
  refine .inr ⟨name, _, rfl, ?_, hln, ?_⟩
  · rw [hr]
    refine .rule ?_ (not_mem_before '#' raw) ?_ ht hc
    · rwa [intercalate_splitOn]
    · simpa using hn
  · rcases hs : inner.splitOn ',' with _ | ⟨host, rest⟩
    · exact absurd hs (splitOn_ne_nil _ _)
    · rw [hs] at hf
      exact ⟨trim host, rfl, fun he => hf (congrArg some he)⟩

/-! ## Rules -/

/-- What the host field of a rule stands for. -/
def hostMatcher (lib : Libraries) (geo : Option GeoDatabases) (host : Str) : Option HostMatcher :=
  (compileMatcher lib host 1 geo).toOption

/-- The number of the line is only for the text of an error. -/
theorem compileMatcher_number (lib : Libraries) (geo : Option GeoDatabases) (host : Str) (num : Nat) :
    (compileMatcher lib host num geo).toOption = hostMatcher lib geo host := by
  unfold hostMatcher compileMatcher
  simp only
  repeat' split
  all_goals rfl

/-- A rule as `parse_acl` keeps it. -/
def compiled (line : Line ω) : AclRule ω where
  outbound := line.outbound
  matcher := line.host
  protocol := line.protocol
  startPort := (bounds line.ports).1
  endPort := (bounds line.ports).2
  hijack := line.hijack

theorem hijackText_some_iff {hijack : Option IpAddr} :
    HijackText (some txt) hijack ↔ ∃ ip, parseIpAddr txt = some ip ∧ hijack = some ip := by
  constructor
  · rintro ⟨⟩
    exact ⟨_, by assumption, rfl⟩
  · rintro ⟨ip, hip, rfl⟩
    exact .some hip

theorem aclRule_ok_iff : aclRule lib obs geo num flds = .ok rule ↔
      parseProtoPort lib (flds.getD 2 []) num = .ok (rule.protocol, rule.startPort, rule.endPort) ∧
      obs (toAsciiLowercase (flds.getD 0 [])) = some rule.outbound ∧
      compileMatcher lib (flds.getD 1 []) num geo = .ok rule.matcher ∧ HijackText flds[3]? rule.hijack := by
  unfold aclRule
  cases parseProtoPort lib (flds.getD 2 []) num with
  | error err => exact ⟨nofun, nofun⟩
  | ok protoPort =>
  cases obs (toAsciiLowercase (flds.getD 0 [])) with
  | none => exact ⟨nofun, nofun⟩
  | some ob =>
  cases compileMatcher lib (flds.getD 1 []) num geo with
  | error err => exact ⟨nofun, nofun⟩
  | ok matcher =>
  rcases flds[3]? with _ | val
  · constructor
    · rintro ⟨⟩
      exact ⟨rfl, rfl, rfl, .none⟩
    obtain ⟨_, _, _, _, _, _⟩ := rule
    rintro ⟨⟨⟩, ⟨⟩, ⟨⟩, ⟨⟩⟩
    rfl
  · rw [hijackText_some_iff]
    dsimp only
    rcases parseIpAddr val with _ | ip
    · exact ⟨nofun, nofun⟩
    constructor
    · rintro ⟨⟩
      exact ⟨rfl, rfl, rfl, ip, rfl, rfl⟩
    obtain ⟨_, _, _, _, _, _⟩ := rule
    rintro ⟨⟨⟩, ⟨⟩, ⟨⟩, _, ⟨⟩, ⟨⟩⟩
    rfl

theorem aclRule_iff_means (hl : flds.length ≤ 3) (hhs : ∃ host, flds[0]? = some host ∧ host ≠ []) :
    aclRule lib obs geo num (name :: flds) = .ok rule ↔
      ∃ line, Means obs (hostMatcher lib geo) name flds line ∧ rule = compiled line := by
  obtain ⟨host, hf, hne⟩ := hhs
  have hg : (name :: flds).getD 1 [] = host := by simp [getD, hf]
  have hmt : ∀ m, compileMatcher lib host num geo = .ok m ↔ hostMatcher lib geo host = some m := by
    intro m
    rw [← compileMatcher_number lib geo host num]
    cases compileMatcher lib host num geo <;> simp [Except.toOption]
  rw [aclRule_ok_iff, hg, hmt]
  constructor
  · rintro ⟨hp, ho, hm, hh⟩
    obtain ⟨ports, ht, hb⟩ := text_of_parseProtoPort hp
    refine ⟨⟨rule.outbound, rule.matcher, rule.protocol, ports, rule.hijack⟩,
      ⟨hl, ho, ⟨host, hf, hne, hm⟩, ht, hh⟩, ?_⟩
    simp only [compiled, hb]
  · rintro ⟨line, ⟨-, ho, ⟨host', hfst', -, hm⟩, ht, hh⟩, rfl⟩
    rw [hf] at hfst'
    cases hfst'
    exact ⟨parseProtoPort_of_text num ht, ho, hm, hh⟩

/-! ## Texts -/

theorem aclLinesFrom_cons_iff {raws : List Str} {rows : List (Nat × List Str)} :
    aclLinesFrom num (raw :: raws) = .ok rows ↔ ∃ parts rest, aclLine num raw = .ok parts ∧
      aclLinesFrom (num + 1) raws = .ok rest ∧ rows = (parts.map (num, ·)).toList ++ rest := by
  rw [aclLinesFrom]
  cases aclLine num raw with
  | error err => exact ⟨nofun, nofun⟩
  | ok parts =>
  rcases aclLinesFrom (num + 1) raws with err | rest
  · exact ⟨nofun, nofun⟩
  constructor
  · rintro ⟨⟩
    exact ⟨parts, rest, rfl, rfl, rfl⟩
  · rintro ⟨_, _, ⟨⟩, ⟨⟩, rfl⟩
    rfl

/-- The rules of the lines from number `num` on. -/
theorem aclLinesFrom_iff : ∀ (raws : List Str) (num : Nat) (rules : List (AclRule ω)),
    (∃ rows, aclLinesFrom num raws = .ok rows ∧
        rows.mapM (fun (line, flds) => aclRule lib obs geo line flds) = .ok rules) ↔
      ∃ readings, List.Forall₂ (Reads obs (hostMatcher lib geo)) raws readings ∧
        rules = (readings.filterMap id).map compiled
  | [], num, rules => by
    constructor
    · rintro ⟨rows, ⟨⟩, ⟨⟩⟩
      exact ⟨[], .nil, rfl⟩
    · rintro ⟨readings, ⟨⟩, rfl⟩
      exact ⟨[], rfl, rfl⟩
  | raw :: raws, num, rules => by
    constructor
    · rintro ⟨rows, hrw, hrs⟩
      obtain ⟨parts, rest, hl, hrt, rfl⟩ := aclLinesFrom_cons_iff.mp hrw
      rcases text_of_aclLine hl with ⟨rfl, ht⟩ | ⟨name, flds, rfl, ht, hln, hh⟩
      · obtain ⟨readings, hr, rfl⟩ := (aclLinesFrom_iff raws (num + 1) rules).mp ⟨rest, hrt, hrs⟩
        exact ⟨none :: readings, .cons (.blank ht) hr, rfl⟩
      obtain ⟨rule, rules', hrl, hrs', rfl⟩ := mapM_cons_ok_iff.mp hrs
      obtain ⟨readings, hr, rfl⟩ := (aclLinesFrom_iff raws (num + 1) rules').mp ⟨rest, hrt, hrs'⟩
      obtain ⟨line, hm, rfl⟩ := (aclRule_iff_means hln hh).mp hrl
      exact ⟨some line :: readings, .cons (.rule ht hm) hr, rfl⟩
    · rintro ⟨_, ha, rfl⟩
      obtain ⟨reading, readings, hrd, hr, rfl⟩ := forall₂_cons_left_iff.mp ha
      obtain ⟨rest, hrt, hrs⟩ := (aclLinesFrom_iff raws (num + 1) _).mpr ⟨readings, hr, rfl⟩
      cases hrd with
      | blank ht =>
        exact ⟨rest, aclLinesFrom_cons_iff.mpr ⟨none, rest, aclLine_of_blank num ht, hrt, rfl⟩, hrs⟩
      | rule ht hm =>
        rename_i name flds line
        obtain ⟨host, hf, hne, -⟩ := hm.host
        have hl := aclLine_of_text num ht hm.length_le ⟨host, hf, hne⟩
        have hrl : aclRule lib obs geo num (name :: flds) = .ok (compiled line) :=
          (aclRule_iff_means hm.length_le ⟨host, hf, hne⟩).mpr ⟨line, hm, rfl⟩
        exact ⟨_, aclLinesFrom_cons_iff.mpr ⟨some (name :: flds), rest, hl, hrt, rfl⟩,
          mapM_cons_ok_iff.mpr ⟨compiled line, _, hrl, hrs, rfl⟩⟩

/-- `parse_acl` accepts what the grammar has, and keeps what it says. -/
theorem parseAcl_iff {rules : List (AclRule ω)} : parseAcl lib txt obs geo = .ok rules ↔
      ∃ readings, List.Forall₂ (Reads obs (hostMatcher lib geo)) (lines txt) readings ∧
        rules = (readings.filterMap id).map compiled := by
  rw [← aclLinesFrom_iff (lines txt) 1 rules, parseAcl, aclLines]
  rcases aclLinesFrom 1 (lines txt) with err | rows
  · exact ⟨nofun, nofun⟩
  constructor
  · intro h
    exact ⟨rows, rfl, h⟩
  · rintro ⟨_, ⟨⟩, h⟩
    exact h

end Hysteria.Proof
