import Hysteria.Framework.Ip

/-!
# The text of an IP address

An address is read back from the text it is printed as: `readIpv4_displayV4`,
`readIpv6_displayV6`, and `parseSocketAddr_display` for socket addresses. An IPv4
address has no other text (`eq_displayV4`), and an IPv6 address always has a colon
in it (`colon_of_parseIpv6`).
-/

namespace Framework

open List

variable {rest s : Str}

variable {n : Nat} (bits : BitVec 128)
variable {c : Char} {ip : BitVec 32} {groups : List Nat} {left start len : Nat}

/-! ## Numbers -/

section Numbers

variable {digit : Char → Option Nat} {radix : Nat}

theorem digitsValue_concat (ds : Str) (c : Char) :
    digitsValue digit radix (ds ++ [c]) = radix * digitsValue digit radix ds + (digit c).getD 0 := by
  rw [digitsValue, foldl_append]
  rfl

variable (hradix : 1 < radix) (hdigit : ∀ d < radix, digit (Nat.digitChar d) = some d)
include hradix hdigit

theorem digitsValue_toDigits (n : Nat) : digitsValue digit radix (Nat.toDigits radix n) = n := by
  induction n using Nat.strongRecOn with
  | ind n ih =>
    rw [Nat.toDigits_eq_if hradix]
    split
    · rename_i hn
      rw [← nil_append [_], digitsValue_concat, hdigit n hn]
      simp [digitsValue]
    rename_i hn
    rw [digitsValue_concat, ih (n / radix) (Nat.div_lt_self (by omega) hradix),
      hdigit _ (Nat.mod_lt n (by omega)), Option.getD_some, Nat.div_add_mod]

theorem isSome_of_mem_toDigits (hc : c ∈ Nat.toDigits radix n) : (digit c).isSome = true := by
  obtain ⟨d, hd, rfl⟩ := mem_toDigits hradix n hc
  rw [hdigit d hd]
  rfl

theorem takeWhile_toDigits (hr : ∀ c ∈ rest.head?, (digit c).isSome = false) :
    (Nat.toDigits radix n ++ rest).takeWhile (fun c => (digit c).isSome) = Nat.toDigits radix n := by
  rw [takeWhile_append_of_pos fun c hc => isSome_of_mem_toDigits hradix hdigit hc]
  rcases rest with _ | ⟨c, rest⟩
  · simp
  simp_all

theorem readNumber_toDigits {maxDigits bound : Nat} {leadingZero : Bool}
    (hr : ∀ c ∈ rest.head?, (digit c).isSome = false) (hle : (Nat.toDigits radix n).length ≤ maxDigits)
    (hb : n < bound)
    (hz : leadingZero = true ∨ ¬ ((Nat.toDigits radix n).head? = some '0' ∧ 1 < (Nat.toDigits radix n).length)) :
    readNumber digit radix maxDigits bound leadingZero (Nat.toDigits radix n ++ rest) = some (n, rest) := by
  have hd := takeWhile_toDigits hradix hdigit (n := n) hr
  have hne : Nat.toDigits radix n ≠ [] := by
    simp
  simp only [readNumber, hd, digitsValue_toDigits hradix hdigit]
  rw [if_neg, drop_left]
  rintro (hn | hln | hlr | ⟨hf, hl⟩)
  · exact hne hn
  · omega
  · omega
  grind

end Numbers

theorem hexDigit_digitChar : ∀ d < 16, hexDigit (Nat.digitChar d) = some d := by decide

theorem hexDigit_of_decimalDigit (h : (decimalDigit c).isSome = true) : (hexDigit c).isSome = true := by
  unfold decimalDigit at h
  unfold hexDigit
  grind

theorem readPort_showNat (port : UInt16) : readPort (':' :: showNat port.toNat) = some (port, []) := by
  have hr : readNumber decimalDigit 10 (showNat port.toNat).length 65536 true (showNat port.toNat ++ []) =
      some (port.toNat, []) :=
    readNumber_toDigits (by decide) decimalDigit_digitChar (by simp) (Nat.le_refl _) port.toNat_lt (.inl rfl)
  rw [append_nil] at hr
  simp only [readPort, readChar, if_true, Option.bind_eq_bind, Option.bind_some, hr, UInt16.ofNat_toNat]
  rfl

/-! ## IPv4 -/

/-- An IPv4 address starts with digits and a dot. -/
theorem dot_of_readIpv4 (h : readIpv4 s = some (ip, rest)) :
    ∃ ds after, s = ds ++ '.' :: after ∧ ∀ c ∈ ds, (decimalDigit c).isSome = true := by
  simp only [readIpv4, Option.bind_eq_bind, Option.bind_eq_some_iff] at h
  obtain ⟨⟨a, s₁⟩, hf, ⟨b, s₂⟩, hs, -⟩ := h
  obtain ⟨ds, rfl, -, hd⟩ := readNumber_eq_some hf
  rw [readSeparator, if_neg (by decide), Option.bind_eq_some_iff] at hs
  obtain ⟨after, hdt, -⟩ := hs
  obtain rfl := readChar_eq_some hdt
  exact ⟨ds, after, rfl, hd⟩

/-- The digits of an octet are those it is printed with. -/
theorem showNat_digitsValue : ∀ {ds : Str}, ds ≠ [] → (∀ c ∈ ds, (decimalDigit c).isSome = true) →
    ¬ (ds.head? = some '0' ∧ 1 < ds.length) → showNat (digitsValue decimalDigit 10 ds) = ds := by
  have hch : ∀ {c : Char}, (decimalDigit c).isSome = true →
      (decimalDigit c).getD 0 < 10 ∧ Nat.digitChar ((decimalDigit c).getD 0) = c := by
    intro c hc
    unfold decimalDigit at hc ⊢
    split at hc
    · rename_i hr
      have hl : 48 ≤ c.toNat := hr.1
      have hhg : c.toNat ≤ 57 := hr.2
      rw [if_pos hr, Option.getD_some, show '0'.toNat = 48 from rfl]
      refine ⟨by omega, Char.toNat_inj.mp ?_⟩
      rw [Nat.toNat_digitChar_of_lt_ten (by omega)]
      omega
    · cases hc
  intro ds
  induction ds using reverseRecOn with
  | nil => exact fun h => absurd rfl h
  | append_singleton ds c ih =>
    intro _ hd hz
    rw [forall_mem_append, forall_mem_singleton] at hd
    obtain ⟨hlt, hb⟩ := hch hd.2
    rw [digitsValue_concat]
    rcases hcn : ds with _ | ⟨d, more⟩
    · rw [show digitsValue decimalDigit 10 [] = 0 from rfl, Nat.mul_zero, Nat.zero_add, showNat,
        Nat.toDigits_of_lt_base hlt, hb]
      rfl
    have hne : ds ≠ [] := by simp [hcn]
    have hh : ds.head? ≠ some '0' := fun hh => hz ⟨by simpa [hcn] using hh, by simp [hcn]⟩
    have hf := ih hne hd.1 fun h => hh h.1
    -- A number that starts with another digit than zero is not zero.
    have hp : 0 < digitsValue decimalDigit 10 ds := by
      by_contra hn
      have hv : digitsValue decimalDigit 10 ds = 0 := by omega
      rw [hv] at hf
      exact hh (by rw [← hf]; rfl)
    rw [← hcn]
    have ha := Nat.toDigits_append_toDigits (b := 10) (by decide) hp hlt
    grind [Nat.toDigits_of_lt_base, showNat]

theorem eq_showNat_of_readOctet (h : readOctet s = some (n, rest)) : s = showNat n ++ rest ∧ n < 256 := by
  simp only [readOctet, readNumber] at h
  split at h
  · cases h
  rename_i hv
  rw [not_or, not_or, not_or] at hv
  obtain ⟨hne, -, hb, hz⟩ := hv
  cases h
  have hd := showNat_digitsValue hne (fun c => mem_takeWhile_imp) fun hl => hz ⟨trivial, hl⟩
  refine ⟨?_, by omega⟩
  rw [hd]
  exact (take_append_drop _ s).symm.trans (by rw [← prefix_iff_eq_take.mp ( takeWhile_prefix _)])

theorem eq_displayV4 (h : readIpv4 s = some (ip, rest)) : s = displayV4 ip ++ rest := by
  have hn : ∀ {i n : Nat} {s rest : Str}, readSeparator '.' (i + 1) readOctet s = some (n, rest) →
      s = '.' :: (showNat n ++ rest) ∧ n < 256 := by
    intro i n s rest h
    rw [readSeparator, if_neg (by omega), Option.bind_eq_some_iff] at h
    grind [eq_showNat_of_readOctet, readChar_eq_some]
  simp only [readIpv4, Option.bind_eq_bind, Option.bind_eq_some_iff, Option.pure_def, Option.some.injEq,
    Prod.mk.injEq] at h
  obtain ⟨⟨a, s₁⟩, ha, ⟨b, s₂⟩, hb, ⟨c, s₃⟩, hc, ⟨d, s₄⟩, hd, rfl, rfl⟩ := h
  obtain ⟨rfl, ha⟩ := eq_showNat_of_readOctet ha
  obtain ⟨rfl, hb⟩ := hn hb
  obtain ⟨rfl, hc⟩ := hn hc
  obtain ⟨rfl, hd⟩ := hn hd
  have hv : (BitVec.ofNat 32 (((a * 256 + b) * 256 + c) * 256 + d)).toNat =
      ((a * 256 + b) * 256 + c) * 256 + d := by
    grind
  have h1 : (((a * 256 + b) * 256 + c) * 256 + d) / 2 ^ 24 = a := by omega
  have h2 : (((a * 256 + b) * 256 + c) * 256 + d) / 2 ^ 16 % 256 = b := by omega
  have h3 : (((a * 256 + b) * 256 + c) * 256 + d) / 2 ^ 8 % 256 = c := by omega
  have h4 : (((a * 256 + b) * 256 + c) * 256 + d) % 256 = d := by omega
  simp only [displayV4, hv, h1, h2, h3, h4, append_assoc, cons_append]

/-! ## Groups -/

/-- Neither a group nor an IPv4 address goes on here, and none follows. -/
structure GroupsEnd (rest : Str) : Prop where
  head : ∀ c ∈ rest.head?, (hexDigit c).isSome = false ∧ c ≠ '.'
  colon : ∀ after, rest = ':' :: after → ∀ c ∈ after.head?, (hexDigit c).isSome = false

section NoGroup

variable (h : ∀ c ∈ s.head?, (hexDigit c).isSome = false)
include h

theorem readGroup_eq_none : readGroup s = none := by
  rw [Option.eq_none_iff_forall_ne_some]
  rintro ⟨n, rest⟩ hr
  obtain ⟨ds, rfl, hne, hd⟩ := readNumber_eq_some hr
  rcases ds with _ | ⟨c, ds⟩
  · exact hne rfl
  simp_all

theorem readIpv4_eq_none : readIpv4 s = none := by
  rw [Option.eq_none_iff_forall_ne_some]
  rintro ⟨ip, rest⟩ hr
  simp only [readIpv4, Option.bind_eq_bind, Option.bind_eq_some_iff] at hr
  obtain ⟨⟨a, s₁⟩, hf, -⟩ := hr
  obtain ⟨first, heq, hne, hf⟩ := readNumber_eq_some hf
  rcases first with _ | ⟨c, first⟩
  · exact hne rfl
  have := h c (by rw [heq]; rfl)
  rw [hexDigit_of_decimalDigit (hf c mem_cons_self)] at this
  cases this

end NoGroup

theorem readIpv4_toDigits (h : ∀ c ∈ rest.head?, (hexDigit c).isSome = false ∧ c ≠ '.') :
    readIpv4 (Nat.toDigits 16 n ++ rest) = none := by
  rw [Option.eq_none_iff_forall_ne_some]
  rintro ⟨ip, tail⟩ hr
  obtain ⟨ds, after, heq, hd⟩ := dot_of_readIpv4 hr
  have hg := takeWhile_toDigits (by decide) hexDigit_digitChar (n := n) fun c hc => (h c hc).1
  -- The digits of both end at the same place, and there is a dot.
  rw [heq, takeWhile_append_of_pos fun c hc => hexDigit_of_decimalDigit (hd c hc),
    takeWhile_cons_of_neg (by decide), append_nil] at hg
  simp_all

theorem readGroup_toDigits (hn : n < 65536) (h : ∀ c ∈ rest.head?, (hexDigit c).isSome = false) :
    readGroup (Nat.toDigits 16 n ++ rest) = some (n, rest) :=
  readNumber_toDigits (by decide) hexDigit_digitChar h
    ((Nat.length_toDigits_le_iff (by decide) (by decide)).mpr hn) hn (.inl rfl)

/-- Groups, each after a colon. -/
def groupsText (groups : List Nat) : Str := groups.flatMap fun n => ':' :: Nat.toDigits 16 n

theorem displaySegments_cons (n : Nat) (groups : List Nat) :
    displaySegments (n :: groups) = Nat.toDigits 16 n ++ groupsText groups := by
  induction groups generalizing n with
  | nil => simp [displaySegments, groupsText]
  | cons m groups ih =>
    have ht := ih m
    rw [displaySegments, map_cons] at ht
    rw [displaySegments, map_cons, map_cons, intercalate_cons_cons, ht]
    simp [groupsText]

theorem head_groupsText (groups : List Nat) (he : GroupsEnd rest) :
    ∀ c ∈ (groupsText groups ++ rest).head?, (hexDigit c).isSome = false ∧ c ≠ '.' := by
  rcases groups with _ | ⟨n, groups⟩
  · exact he.head
  · rintro c ⟨⟩
    exact ⟨rfl, by decide⟩

theorem readGroups_end (he : GroupsEnd rest) (left idx : Nat) : readGroups left idx rest = ([], false, rest) := by
  have hf : readIpv4 rest = none ∧ readGroup rest = none :=
    ⟨readIpv4_eq_none fun c hc => (he.head c hc).1, readGroup_eq_none fun c hc => (he.head c hc).1⟩
  have hn : ∀ after, readChar ':' rest = some after → readIpv4 after = none ∧ readGroup after = none := by
    intro after ha
    have hc := he.colon after (readChar_eq_some ha)
    exact ⟨readIpv4_eq_none hc, readGroup_eq_none hc⟩
  have hs : readSeparator ':' idx readIpv4 rest = none ∧ readSeparator ':' idx readGroup rest = none := by
    unfold readSeparator
    simp_all
  rcases left with _ | left
  · rfl
  · simp [readGroups, hs.1, hs.2]

/-- What `readGroups` does with a group that it can take. -/
theorem readGroups_succ (left idx : Nat) (hn : n < 65536)
    (h : ∀ c ∈ rest.head?, (hexDigit c).isSome = false ∧ c ≠ '.') :
    readGroups (left + 1) idx ((if idx = 0 then [] else [':']) ++ (Nat.toDigits 16 n ++ rest)) =
      (n :: (readGroups left (idx + 1) rest).1, (readGroups left (idx + 1) rest).2) := by
  have hipv4 : readSeparator ':' idx readIpv4 ((if idx = 0 then [] else [':']) ++ (Nat.toDigits 16 n ++ rest)) =
      none := by
    unfold readSeparator
    split <;> exact readIpv4_toDigits h
  have hg : readSeparator ':' idx readGroup ((if idx = 0 then [] else [':']) ++ (Nat.toDigits 16 n ++ rest)) =
      some (n, rest) := by
    unfold readSeparator
    split <;> exact readGroup_toDigits hn fun c hc => (h c hc).1
  rw [readGroups, hipv4, hg, ite_self]

theorem readGroups_groupsText (hg : ∀ n ∈ groups, n < 65536) (he : GroupsEnd rest) (hl : groups.length ≤ left)
    (idx : Nat) : readGroups left (idx + 1) (groupsText groups ++ rest) = (groups, false, rest) := by
  induction groups generalizing left idx with
  | nil => exact readGroups_end he left (idx + 1)
  | cons n groups ih =>
    rw [forall_mem_cons] at hg
    obtain ⟨left, rfl⟩ : ∃ m, left = m + 1 := ⟨left - 1, by rw [length_cons] at hl; omega⟩
    have hs := readGroups_succ left (idx + 1) hg.1 (head_groupsText groups he)
    grind [groupsText]

theorem readGroups_displaySegments (hg : ∀ n ∈ groups, n < 65536) (he : GroupsEnd rest) (hl : groups.length ≤ left) :
    readGroups left 0 (displaySegments groups ++ rest) = (groups, false, rest) := by
  rcases groups with _ | ⟨n, groups⟩
  · exact readGroups_end he left 0
  rw [forall_mem_cons] at hg
  obtain ⟨left, rfl⟩ : ∃ m, left = m + 1 := ⟨left - 1, by rw [length_cons] at hl; omega⟩
  have hs := readGroups_succ left 0 hg.1 (head_groupsText groups he)
  rw [if_pos rfl, readGroups_groupsText hg.2 he (by simpa using hl), nil_append] at hs
  rw [displaySegments_cons, append_assoc, hs]

/-! ## Segments -/

/-- The digits of a number in some base, the most significant first. -/
theorem foldl_div_mod (b n k : Nat) :
    ((range k).map fun i => n / b ^ (k - 1 - i) % b).foldl (fun val d => val * b + d) 0 = n % b ^ k := by
  induction k generalizing n with
  | zero => simp [Nat.mod_one]
  | succ k ih =>
    have hf : (range k).map (fun i => n / b ^ (k + 1 - 1 - i) % b) =
        (range k).map fun i => n / b / b ^ (k - 1 - i) % b := by
      refine map_congr_left fun i hi => ?_
      rw [mem_range] at hi
      rw [show k + 1 - 1 - i = k - 1 - i + 1 by omega, Nat.pow_succ', Nat.div_div_eq_div_mul]
    rw [range_succ, map_append, foldl_append, hf, ih]
    simp only [map_cons, map_nil, foldl_cons, foldl_nil, Nat.add_sub_cancel, Nat.sub_self, Nat.pow_zero, Nat.div_one]
    rw [Nat.pow_succ', Nat.mod_mul, Nat.mul_comm]
    omega

theorem ofGroups_segments : ofGroups (segments bits) = bits := by
  have hs := foldl_div_mod 65536 bits.toNat 8
  have hlt : bits.toNat % 65536 ^ 8 = bits.toNat := Nat.mod_eq_of_lt bits.isLt
  rw [hlt] at hs
  rw [ofGroups, segments, hs, BitVec.ofNat_toNat, BitVec.setWidth_eq]

theorem segments_lt {bits : BitVec 128} : ∀ n ∈ segments bits, n < 65536 := by
  intro n hn
  obtain ⟨i, -, rfl⟩ := mem_map.mp hn
  omega

theorem length_segments : (segments bits).length = 8 := rfl

/-- A run of zeros. -/
structure ZeroRun (segments : List Nat) (run : Nat × Nat) : Prop where
  le : run.1 + run.2 ≤ segments.length
  zeros : ∀ i, run.1 ≤ i → i < run.1 + run.2 → segments[i]? = some 0

theorem ZeroRun.append {segs : List Nat} {run : Nat × Nat} (h : ZeroRun segs run) (more : List Nat) :
    ZeroRun (segs ++ more) run where
  le := Nat.le_trans h.le (by simp)
  zeros i hi hlt := by
    have hle := h.le
    grind [h.zeros]

theorem zeroRun_empty {segs : List Nat} (h : start ≤ segs.length) : ZeroRun segs (start, 0) where
  le := h
  zeros _ hi hlt := absurd hlt (by omega)

theorem ZeroRun.extend {segs : List Nat} (h : ZeroRun segs (start, len))
    (he : start + len = segs.length) : ZeroRun (segs ++ [0]) (start, len + 1) where
  le := by
    simp only [length_append, length_singleton]
    omega
  zeros i hi hlt := by
    rcases Nat.lt_or_ge i segs.length with hin | hl
    · exact (h.append [0]).zeros i hi (by simp only; omega)
    grind

/-- What the loop of `longestZeros` knows after these segments: where it is, the run
that it is in, and the longest one so far. -/
structure ZerosFound (segments : List Nat) (st : Nat × (Nat × Nat) × (Nat × Nat)) : Prop where
  index : st.1 = segments.length
  current : ZeroRun segments st.2.1
  ends : st.2.1.2 ≠ 0 → st.2.1.1 + st.2.1.2 = segments.length
  longest : ZeroRun segments st.2.2

theorem zeroRun_longestZeros (segs : List Nat) : ZeroRun segs (longestZeros segs) := by
  refine (?_ : ZerosFound segs _).longest
  induction segs using reverseRecOn with
  | nil => exact ⟨rfl, zeroRun_empty (by omega), absurd rfl, zeroRun_empty (by omega)⟩
  | append_singleton segs seg ih =>
    rw [foldl_append, foldl_cons, foldl_nil]
    generalize segs.foldl _ (0, (0, 0), (0, 0)) = st at ih ⊢
    obtain ⟨i, ⟨start, len⟩, longest⟩ := st
    obtain ⟨rfl, hc, he, hl⟩ := ih
    simp only at hc he hl
    simp only
    split
    · rename_i hz
      subst hz
      have hn : ZeroRun (segs ++ [0]) (if len = 0 then segs.length else start, len + 1) := by
        split
        · rename_i hln
          subst hln
          exact (zeroRun_empty (by omega)).extend rfl
        · rename_i hln
          exact hc.extend (he hln)
      refine ⟨by simp, hn, fun _ => ?_, ?_⟩
      · grind
      grind [hl.append]
    · exact ⟨by simp, zeroRun_empty (by omega), absurd rfl, hl.append [seg]⟩

theorem append_zeroRun {segs : List Nat} (h : ZeroRun segs (start, len)) :
    segs.take start ++ List.replicate len 0 ++ segs.drop (start + len) = segs := by
  have hm : (segs.drop start).take len = List.replicate len 0 := by
    have hle := h.le
    rw [List.eq_replicate_iff]
    refine ⟨by grind, fun n hn => ?_⟩
    obtain ⟨i, hi, rfl⟩ := List.mem_iff_getElem.mp hn
    rw [List.length_take, List.length_drop] at hi
    have hz := h.zeros (start + i) (by omega) (by simp only; omega)
    grind
  grind [List.append_assoc, List.drop_drop, List.take_append_drop]

/-! ## IPv6 -/

/-- What can follow an address: no digit, dot or colon. -/
def AddressEnd (rest : Str) : Prop := ∀ c ∈ rest.head?, (hexDigit c).isSome = false ∧ c ≠ '.' ∧ c ≠ ':'

theorem AddressEnd.groupsEnd (h : AddressEnd rest) : GroupsEnd rest where
  head c hc := ⟨(h c hc).1, (h c hc).2.1⟩
  colon after heq := by
    rw [heq] at h
    exact absurd rfl (h ':' rfl).2.2

theorem groupsEnd_colons (s : Str) : GroupsEnd ("::" ++ s) where
  head c hc := by
    cases hc
    decide
  colon after heq c hc := by
    cases heq
    cases hc
    decide

theorem readIpv6_compressed {front back : List Nat} (hf : ∀ n ∈ front, n < 65536) (hl : front.length < 8)
    {ipv4 : Bool} {txt : Str} (hb : readGroups (8 - (front.length + 1)) 0 (txt ++ rest) = (back, ipv4, rest)) :
    readIpv6 (displaySegments front ++ ("::" ++ (txt ++ rest))) =
      some (ofGroups (front ++ replicate (8 - front.length - back.length) 0 ++ back), rest) := by
  have hr := readGroups_displaySegments hf (groupsEnd_colons (txt ++ rest)) (Nat.le_of_lt hl)
  have hc : "::" ++ (txt ++ rest) = ':' :: ':' :: (txt ++ rest) := rfl
  rw [readIpv6, hr]
  simp only [if_neg (Nat.ne_of_lt hl), hc, readChar, if_true, Option.bind_eq_bind, Option.bind_some, hb,
    Bool.false_eq_true, if_false]
  rfl

theorem readGroups_mapped (ip : BitVec 32) (h : AddressEnd rest) : readGroups 7 0 ("ffff:" ++ displayV4 ip ++ rest) =
      ([0xffff, ip.toNat / 65536, ip.toNat % 65536], true, rest) := by
  have hdigit : ∀ c ∈ rest.head?, (decimalDigit c).isSome = false := by
    intro c hc
    by_contra hs
    rw [Bool.not_eq_false] at hs
    have hh := hexDigit_of_decimalDigit hs
    rw [(h c hc).1] at hh
    cases hh
  have hcl : ∀ c ∈ (':' :: (displayV4 ip ++ rest)).head?, (hexDigit c).isSome = false ∧ c ≠ '.' := by
    rintro c ⟨⟩
    decide
  have hf := readGroups_succ 6 0 (by decide : 0xffff < 65536) hcl
  have hipv4 : readSeparator ':' 1 readIpv4 (':' :: (displayV4 ip ++ rest)) = some (ip, rest) :=
    readIpv4_displayV4 ip rest hdigit
  have hr : readGroups 6 1 (':' :: (displayV4 ip ++ rest)) = ([ip.toNat / 65536, ip.toNat % 65536], true, rest) := by
    rw [readGroups, if_pos (by decide), hipv4]
  rw [hr] at hf
  exact hf

/-- An IPv6 address is read back from its text. -/
theorem readIpv6_displayV6 (rest : Str) (h : AddressEnd rest) :
    readIpv6 (displayV6 bits ++ rest) = some (bits, rest) := by
  unfold displayV6
  split
  · rename_i hm
    have hl : (BitVec.ofNat 32 bits.toNat).toNat = bits.toNat % 2 ^ 32 := BitVec.toNat_ofNat _ _
    have hr := readIpv6_compressed (forall_mem_nil (· < 65536)) (by decide)
      (readGroups_mapped (BitVec.ofNat 32 bits.toNat) h)
    have hb : ofGroups (replicate 5 0 ++
        [0xffff, (BitVec.ofNat 32 bits.toNat).toNat / 65536, (BitVec.ofNat 32 bits.toNat).toNat % 65536]) = bits := by
      simp only [ofGroups, foldl_append, foldl_cons, foldl_nil, replicate]
      grind
    simp only [nil_append, length_nil, length_cons] at hr
    rw [hb] at hr
    exact hr
  · simp only
    have hz := zeroRun_longestZeros (segments bits)
    generalize hrn : longestZeros (segments bits) = run at hz ⊢
    obtain ⟨start, len⟩ := run
    have hle := hz.le
    rw [length_segments] at hle
    split
    · rename_i hln
      have hf : ((segments bits).take start).length = start := by
        rw [length_take, length_segments]
        omega
      have hbc : ((segments bits).drop (start + len)).length = 8 - (start + len) := by
        rw [length_drop, length_segments]
      have ht : ∀ n ∈ (segments bits).take start, n < 65536 := fun n hn => segments_lt n (mem_of_mem_take hn)
      have hd : ∀ n ∈ (segments bits).drop (start + len), n < 65536 :=
        fun n hn => segments_lt n (mem_of_mem_drop hn)
      have hr := readIpv6_compressed ht (by omega) (readGroups_displaySegments hd h.groupsEnd (by omega))
      grind [append_zeroRun, ofGroups_segments, append_assoc]
    · have hr := readGroups_displaySegments segments_lt h.groupsEnd (Nat.le_of_eq (length_segments bits))
      rw [readIpv6, hr]
      simp only [length_segments, if_true, ofGroups_segments]

theorem parseIpv6_displayV6 : parseIpv6 (displayV6 bits) = some bits := by
  have hr := readIpv6_displayV6 bits [] (by rintro c ⟨⟩)
  rw [append_nil] at hr
  rw [parseIpv6, hr]
  rfl

theorem readGroups_head {idx : Nat} (h : (readGroups left (idx + 1) s).1 ≠ []) : ∃ after, s = ':' :: after := by
  rcases left with _ | left
  · exact absurd rfl h
  cases hc : readChar ':' s with
  | some after => exact ⟨after, readChar_eq_some hc⟩
  | none => exact absurd (by simp [readGroups, readSeparator, hc]) h

/-- Every text of an IPv6 address has a colon in it. -/
theorem colon_of_parseIpv6 (h : (parseIpv6 s).isSome = true) : ':' ∈ s := by
  obtain ⟨ip, rest, hr⟩ : ∃ ip rest, readIpv6 s = some (ip, rest) := by
    rcases hr : readIpv6 s with _ | res
    · rw [parseIpv6, hr] at h
      cases h
    · exact ⟨res.1, res.2, rfl⟩
  have hs := readGroups_suffix 8 0 s
  rw [readIpv6] at hr
  simp only at hr
  split at hr
  · rename_i height
    -- Eight groups have a colon after the first.
    rw [readGroups] at height
    split at height
    · cases height
    split at height
    · cases height
    rename_i group after hg
    have hm : (readGroups 7 1 after).1 ≠ [] := by
      intro hn
      simp [hn] at height
    obtain ⟨tail, rfl⟩ := readGroups_head hm
    have ha := readSeparator_suffix (fun h => readNumber_suffix h) hg
    exact ha.subset mem_cons_self
  · split at hr
    · cases hr
    rw [Option.bind_eq_bind, Option.bind_eq_some_iff] at hr
    obtain ⟨after, hc, -⟩ := hr
    exact hs.subset (by rw [readChar_eq_some hc]; exact mem_cons_self)

/-- An address was read to the end of its text. -/
theorem parseIpAddr_cases {ip : IpAddr} (h : parseIpAddr s = some ip) :
    (∃ bits, ip = .v4 bits ∧ readIpv4 s = some (bits, [])) ∨ ∃ bits, ip = .v6 bits ∧ readIpv6 s = some (bits, []) := by
  unfold parseIpAddr at h
  cases hipv4 : readIpv4 s with
  | some res =>
    obtain ⟨bits, rest⟩ := res
    rw [hipv4] at h
    rcases rest with _ | ⟨c, rest⟩
    · cases h
      exact .inl ⟨bits, rfl, rfl⟩
    · cases h
  | none =>
    rw [hipv4] at h
    rcases hipv6 : readIpv6 s with _ | res
    · rw [hipv6] at h
      cases h
    obtain ⟨bits, rest⟩ := res
    rw [hipv6] at h
    rcases rest with _ | ⟨c, rest⟩
    · cases h
      exact .inr ⟨bits, rfl, rfl⟩
    · cases h

theorem colon_of_parseIpAddr {bits : BitVec 128} (h : parseIpAddr s = some (.v6 bits)) : ':' ∈ s := by
  rcases parseIpAddr_cases h with ⟨_, ⟨⟩, -⟩ | ⟨_, ⟨⟩, hr⟩
  refine colon_of_parseIpv6 ?_
  rw [parseIpv6, hr]
  rfl

theorem eq_display_of_parseIpAddr {bits : BitVec 32} (h : parseIpAddr s = some (.v4 bits)) : s = displayV4 bits := by
  rcases parseIpAddr_cases h with ⟨_, ⟨⟩, hr⟩ | ⟨_, ⟨⟩, -⟩
  rw [eq_displayV4 hr, append_nil]

/-! ## Socket addresses -/

/-- A socket address is read back from its text. -/
theorem parseSocketAddr_display {a : SocketAddr} (h : a.scopeId = 0) : parseSocketAddr a.display = some a := by
  obtain ⟨ip, port, scopeId⟩ := a
  obtain rfl : scopeId = 0 := h
  have hp := readPort_showNat port
  unfold SocketAddr.display parseSocketAddr
  cases ip with
  | v4 bits =>
    have hr := readIpv4_displayV4 bits (':' :: showNat port.toNat) (by rintro c ⟨⟩; rfl)
    have hs : readSocketAddrV4 (displayV4 bits ++ ':' :: showNat port.toNat) = some (⟨.v4 bits, port, 0⟩, []) := by
      simp only [readSocketAddrV4, hr, hp, Option.bind_eq_bind, Option.bind_some]
      rfl
    simp only [hs]
    rfl
  | v6 bits =>
    have hr := readIpv6_displayV6 bits (']' :: ':' :: showNat port.toNat) (by rintro c ⟨⟩; decide)
    have hipv4 : readIpv4 ('[' :: (displayV6 bits ++ ']' :: ':' :: showNat port.toNat)) = none :=
      readIpv4_eq_none (by rintro c ⟨⟩; rfl)
    have hsc : readScopeId (']' :: ':' :: showNat port.toNat) = (0, ']' :: ':' :: showNat port.toNat) := rfl
    have hs : readSocketAddrV6 ('[' :: (displayV6 bits ++ ']' :: ':' :: showNat port.toNat)) =
        some (⟨.v6 bits, port, 0⟩, []) := by
      simp only [readSocketAddrV6, readChar, if_true, hr, hsc, hp, Option.bind_eq_bind, Option.bind_some]
      rfl
    have hn : readSocketAddrV4 ('[' :: (displayV6 bits ++ ']' :: ':' :: showNat port.toNat)) = none := by
      rfl
    have ht : '[' :: displayV6 bits ++ [] ++ "]:".toList ++ showNat port.toNat =
        '[' :: (displayV6 bits ++ ']' :: ':' :: showNat port.toNat) := by simp
    simp only [if_true, ht, hn, hs]
    rfl

end Framework
