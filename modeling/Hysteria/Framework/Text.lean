import Mathlib.Data.List.DropRight
import Hysteria.Framework.Utf8

/-!
# String methods of the Rust standard library

On strings as lists of scalar values. `trim_padded` and `exists_padded` say
what `trim` removes; `splitOnce_eq_some` and `before_append` where a separator
cuts. `parseUnsigned` is `str::parse` at an unsigned integer type, and reads a
number back from its digits (`parseUnsigned_showNat`).
-/

namespace Framework

open List

variable {c : Char} {s : Str} {α : Type}
variable {p : α → Bool} {a b start part : Str} {sep x : Char} {n : Nat}

/-- `char::is_whitespace`: the Unicode property `White_Space`. -/
def isWhitespace (c : Char) : Bool :=
  let n := c.toNat
  0x9 ≤ n ∧ n ≤ 0xd ∨ n = 0x20 ∨ n = 0x85 ∨ n = 0xa0 ∨ n = 0x1680 ∨ 0x2000 ≤ n ∧ n ≤ 0x200a ∨
    n = 0x2028 ∨ n = 0x2029 ∨ n = 0x202f ∨ n = 0x205f ∨ n = 0x3000

/-- `char::is_control`: the Unicode category `Cc`. -/
def isControl (c : Char) : Bool := c.toNat < 0x20 ∨ 0x7f ≤ c.toNat ∧ c.toNat ≤ 0x9f

/-- `char::is_ascii_alphanumeric`. -/
def isAsciiAlphanumeric (c : Char) : Bool := '0' ≤ c ∧ c ≤ '9' ∨ 'a' ≤ c ∧ c ≤ 'z' ∨ 'A' ≤ c ∧ c ≤ 'Z'

def trim (s : Str) : Str := (s.dropWhile isWhitespace).rdropWhile isWhitespace

/-- `trim_end_matches(c)`. -/
def trimEndMatches (c : Char) (s : Str) : Str := s.rdropWhile (· == c)

def toAsciiLowercase (s : Str) : Str := s.map Char.toLower

/-- `split(c).next()`: what is before the first `c`. -/
def before (c : Char) (s : Str) : Str := s.takeWhile (· != c)

/-- `split_once(c)`. -/
def splitOnce (c : Char) (s : Str) : Option (Str × Str) :=
  match s.dropWhile (· != c) with
  | [] => none
  | _ :: rest => some (before c s, rest)

/-- `rsplit_once(c)`. -/
def rsplitOnce (c : Char) (s : Str) : Option (Str × Str) :=
  (splitOnce c s.reverse).map fun (last, init) => (init.reverse, last.reverse)

def isAsciiWhitespace (c : Char) : Bool := c = ' ' ∨ c = '\t' ∨ c = '\n' ∨ c.toNat = 0xc ∨ c = '\r'

/-- The parts between characters with `p`, without the empty ones: `split_whitespace`
and `split_ascii_whitespace`. -/
def splitFields (p : Char → Bool) (s : Str) : List Str := (s.splitOnP p).filter (· ≠ [])

/-- `strip_prefix`. -/
def stripStart (start : Str) (s : Str) : Option Str :=
  if start.isPrefixOf s then some (s.drop start.length) else none

/-- `ends_with`. -/
def endsWith (s suffix : Str) : Bool := suffix.isSuffixOf s

/-- `contains`. -/
def contains (s needle : Str) : Bool := s.tails.any needle.isPrefixOf

/-- The two parts of a string at an index in bytes, if a character starts there. -/
def splitAtByte : Str → Nat → Option (Str × Str)
  | s, 0 => some ([], s)
  | [], _ + 1 => none
  | c :: s, n + 1 =>
    let size := (String.utf8EncodeChar c).length
    if size ≤ n + 1 then (splitAtByte s (n + 1 - size)).map fun (a, b) => (c :: a, b) else none

/-- `s[i..j]`, in bytes; `none` is its panic. -/
def byteSlice (s : Str) (i j : Nat) : Option Str := do
  let (front, _) ← splitAtByte s j
  let (_, middle) ← splitAtByte front i
  return middle

/-- `is_char_boundary`. -/
def isCharBoundary (s : Str) (i : Nat) : Bool := (splitAtByte s i).isSome

/-- `find(c)`, in bytes. -/
def findByte (c : Char) (s : Str) : Option Nat := if c ∈ s then some (utf8 (before c s)).length else none

/-- One line without its ending: `\n`, or `\r\n`. -/
def lineEnding (line : Str) : Str :=
  match line.getLast? with
  | some '\r' => line.dropLast
  | _ => line

/-- `lines`. A line that no `\n` ends keeps its `\r`. -/
def lines (s : Str) : List Str :=
  let parts := s.splitOn '\n'
  parts.dropLast.map lineEnding ++ match parts.getLast? with
    | some [] => []
    | some last => [last]
    | none => []

/-! ## Numbers -/

/-- `char::to_digit(10)`. -/
def decimalDigit (c : Char) : Option Nat := if '0' ≤ c ∧ c ≤ '9' then some (c.toNat - '0'.toNat) else none

/-- The value of decimal digits. -/
def decimalDigits (s : Str) : Option Nat :=
  s.foldl (fun value c => do return 10 * (← value) + (← decimalDigit c)) (some 0)

/-- `str::parse` at an unsigned integer type with values below `bound`. -/
def parseUnsigned (bound : Nat) (s : Str) : Option Nat :=
  let digits := match s with
    | '+' :: rest => rest
    | _ => s
  if digits = [] then none
  else (decimalDigits digits).filter (· < bound)

def parseU8 (s : Str) : Option UInt8 := (parseUnsigned (2 ^ 8) s).map UInt8.ofNat

def parseU16 (s : Str) : Option UInt16 := (parseUnsigned (2 ^ 16) s).map UInt16.ofNat

def parseU64 (s : Str) : Option UInt64 := (parseUnsigned (2 ^ 64) s).map UInt64.ofNat

/-- `Display` of a number. -/
def showNat (n : Nat) : Str := Nat.toDigits 10 n

/-! ## What `trim` and the separators do -/

/-- `s` is `t` between white space. -/
def Padded (t s : Str) : Prop :=
  ∃ a b, (∀ c ∈ a, isWhitespace c = true) ∧ (∀ c ∈ b, isWhitespace c = true) ∧ s = a ++ (t ++ b)

/-- No white space at either end. -/
def Trimmed (t : Str) : Prop := (∀ c ∈ t.head?, isWhitespace c = false) ∧ ∀ c ∈ t.getLast?, isWhitespace c = false

theorem dropWhile_append_all {a b : List α} (h : ∀ c ∈ a, p c = true) : (a ++ b).dropWhile p = b.dropWhile p := by
  induction a with
  | nil => rfl
  | cons c a ih =>
    simp_all

theorem dropWhile_of_head {s : List α} (h : ∀ c ∈ s.head?, p c = false) : s.dropWhile p = s := by
  rcases s with _ | ⟨c, s⟩
  · rfl
  simp_all

theorem rdropWhile_append_all {a b : List α} (h : ∀ c ∈ b, p c = true) : (a ++ b).rdropWhile p = a.rdropWhile p := by
  rw [rdropWhile, reverse_append, dropWhile_append_all (fun c hc => h c (mem_reverse.mp hc)), rdropWhile]

theorem rdropWhile_of_getLast {s : List α} (h : ∀ c ∈ s.getLast?, p c = false) : s.rdropWhile p = s := by
  rw [rdropWhile, dropWhile_of_head (by simpa using h), reverse_reverse]

theorem trim_padded {t : Str} (ht : Trimmed t) (h : Padded t s) : trim s = t := by
  obtain ⟨a, b, ha, hb, rfl⟩ := h
  rw [trim, dropWhile_append_all ha]
  rcases t with _ | ⟨c, t⟩
  · have : b.dropWhile isWhitespace = [] := dropWhile_eq_nil_iff.mpr hb
    rw [nil_append, this]
    rfl
  · rw [dropWhile_of_head (s := c :: t ++ b) (by simpa using ht.1), rdropWhile_append_all hb,
      rdropWhile_of_getLast ht.2]

/-- Every string is its `trim` between white space. -/
theorem exists_padded (s : Str) : Padded (trim s) s := by
  refine ⟨s.takeWhile isWhitespace, (s.dropWhile isWhitespace).rtakeWhile isWhitespace, ?_, ?_, ?_⟩
  · intro c hc
    exact mem_takeWhile_imp hc
  · intro c hc
    exact mem_rtakeWhile_imp hc
  · rw [trim, rdropWhile_append_rtakeWhile, takeWhile_append_dropWhile]

/-- What is dropped at both ends is at neither end of the rest. -/
theorem ends_of_trim (p : α → Bool) (s : List α) : (∀ c ∈ ((s.dropWhile p).rdropWhile p).head?, p c = false) ∧
      ∀ c ∈ ((s.dropWhile p).rdropWhile p).getLast?, p c = false := by
  constructor
  · intro c hc
    obtain ⟨t, ht⟩ := rdropWhile_prefix p (l := s.dropWhile p)
    have hd : (s.dropWhile p).head? = some c := by
      rw [← ht, head?_append, hc]
      rfl
    grind [head?_dropWhile_not]
  · intro c hc
    have hne : (s.dropWhile p).rdropWhile p ≠ [] := by
      rintro h
      simp [h] at hc
    grind [rdropWhile_last_not, getLast?_eq_some_getLast]

theorem trimmed_trim (s : Str) : Trimmed (trim s) := ends_of_trim isWhitespace s

theorem bne_of_not_mem (h : c ∉ s) : ∀ x ∈ s, (x != c) = true := by
  intro x hx
  rw [bne_iff_ne]
  rintro rfl
  exact h hx

theorem before_append (h : c ∉ a) : before c (a ++ c :: b) = a := by
  rw [before, takeWhile_append_of_pos (bne_of_not_mem h)]
  simp

theorem before_of_not_mem (h : c ∉ s) : before c s = s := by
  rw [before, takeWhile_eq_self_iff]
  exact bne_of_not_mem h

theorem not_mem_before (c : Char) (s : Str) : c ∉ before c s := by
  intro h
  simpa using mem_takeWhile_imp h

theorem splitOnce_append (h : c ∉ a) : splitOnce c (a ++ c :: b) = some (a, b) := by
  have hd : (a ++ c :: b).dropWhile (· != c) = c :: b := by
    rw [dropWhile_append_of_pos (bne_of_not_mem h)]
    simp
  rw [splitOnce, hd, before_append h]

theorem splitOnce_of_not_mem (h : c ∉ s) : splitOnce c s = none := by
  have hd : s.dropWhile (· != c) = [] := dropWhile_eq_nil_iff.mpr (bne_of_not_mem h)
  rw [splitOnce, hd]

/-- A string has no `c`, or is what stands before and after its first `c`. -/
theorem not_mem_or_append (c : Char) (s : Str) : c ∉ s ∨ ∃ a b, c ∉ a ∧ s = a ++ c :: b := by
  by_cases h : c ∈ s
  · obtain ⟨a, b, rfl, ha⟩ := eq_append_cons_of_mem h
    exact .inr ⟨a, b, ha, rfl⟩
  · exact .inl h

theorem splitOnce_eq_some (h : splitOnce c s = some (a, b)) : c ∉ a ∧ s = a ++ c :: b := by
  rcases not_mem_or_append c s with hs | ⟨a', b', ha, rfl⟩
  · rw [splitOnce_of_not_mem hs] at h
    cases h
  rw [splitOnce_append ha] at h
  cases h
  exact ⟨ha, rfl⟩

/-- Two texts are equal up to the first separator and after it. -/
theorem append_cons_inj {c : α} {a b a' b' : List α} (h : c ∉ a) (h' : c ∉ a') (heq : a ++ c :: b = a' ++ c :: b') :
    a = a' ∧ b = b' := by
  induction a generalizing a' with
  | nil =>
    rcases a' with _ | ⟨x, a'⟩
    · simpa using heq
    grind
  | cons x a ih =>
    rcases a' with _ | ⟨y, a'⟩
    · cases heq
      exact absurd mem_cons_self h
    grind

theorem rsplitOnce_append (h : c ∉ b) : rsplitOnce c (a ++ c :: b) = some (a, b) := by
  have hr : (a ++ c :: b).reverse = b.reverse ++ c :: a.reverse := by simp
  rw [rsplitOnce, hr, splitOnce_append (by simpa using h)]
  simp

theorem rsplitOnce_of_not_mem (h : c ∉ s) : rsplitOnce c s = none := by
  rw [rsplitOnce, splitOnce_of_not_mem (by simpa using h)]
  rfl

theorem not_mem_or_append_last (c : Char) (s : Str) : c ∉ s ∨ ∃ a b, c ∉ b ∧ s = a ++ c :: b := by
  rcases not_mem_or_append c s.reverse with hs | ⟨a, b, ha, hs⟩
  · exact .inl (by simpa using hs)
  · exact .inr ⟨b.reverse, a.reverse, by simpa using ha, by simpa using congrArg reverse hs⟩

theorem rsplitOnce_eq_some (h : rsplitOnce c s = some (a, b)) : c ∉ b ∧ s = a ++ c :: b := by
  obtain ⟨⟨last, init⟩, hsp, heq⟩ := Option.map_eq_some_iff.mp h
  obtain ⟨hl, hs⟩ := splitOnce_eq_some hsp
  grind

theorem splitAtByte_append (a b : Str) : splitAtByte (a ++ b) (utf8 a).length = some (a, b) := by
  induction a with
  | nil => cases b <;> rfl
  | cons c a ih =>
    have hs : 0 < (String.utf8EncodeChar c).length := length_pos_of_ne_nil (utf8EncodeChar_ne_nil c)
    obtain ⟨n, hn⟩ : ∃ n, (utf8 (c :: a)).length = n + 1 :=
      Nat.exists_eq_succ_of_ne_zero (by rw [utf8_cons, length_append]; omega)
    have hl : (utf8 (c :: a)).length = (String.utf8EncodeChar c).length + (utf8 a).length := by
      rw [utf8_cons, length_append]
    have hr : n + 1 - (String.utf8EncodeChar c).length = (utf8 a).length := by omega
    rw [hn, cons_append, splitAtByte, if_pos (by omega), hr, ih]
    rfl

theorem splitAtByte_eq_some {s a b : Str} {n : Nat} (h : splitAtByte s n = some (a, b)) :
    s = a ++ b ∧ (utf8 a).length = n := by
  induction s generalizing n a with
  | nil => cases n <;> cases h; exact ⟨rfl, rfl⟩
  | cons c s ih =>
    rcases n with _ | n
    · cases h
      exact ⟨rfl, rfl⟩
    rw [splitAtByte] at h
    split at h
    · next hle =>
      obtain ⟨⟨a', b'⟩, hs, he⟩ := Option.map_eq_some_iff.mp h
      cases he
      obtain ⟨rfl, hn⟩ := ih hs
      simp_all
    · cases h

theorem isCharBoundary_iff {s : Str} {i : Nat} :
    isCharBoundary s i = true ↔ ∃ a b, s = a ++ b ∧ (utf8 a).length = i := by
  constructor
  · intro h
    obtain ⟨⟨a, b⟩, hs⟩ := Option.isSome_iff_exists.mp h
    exact ⟨a, b, splitAtByte_eq_some hs⟩
  grind [splitAtByte_append, isCharBoundary]

theorem byteSlice_append (a b c : Str) :
    byteSlice (a ++ b ++ c) (utf8 a).length ((utf8 a).length + (utf8 b).length) = some b := by
  have hf := splitAtByte_append (a ++ b) c
  rw [utf8_append, length_append] at hf
  rw [byteSlice, hf]
  simp only [Option.bind_eq_bind, Option.bind_some, splitAtByte_append]
  rfl

theorem splitAtByte_append_add (a s : Str) (n : Nat) :
    splitAtByte (a ++ s) ((utf8 a).length + n) = (splitAtByte s n).map fun (front, rest) => (a ++ front, rest) := by
  induction a with
  | nil => simp
  | cons c a ih =>
    have hs : 0 < (String.utf8EncodeChar c).length := length_pos_of_ne_nil (utf8EncodeChar_ne_nil c)
    have hl : (utf8 (c :: a)).length = (String.utf8EncodeChar c).length + (utf8 a).length := by
      rw [utf8_cons, length_append]
    obtain ⟨m, hm⟩ : ∃ m, (utf8 (c :: a)).length + n = m + 1 := Nat.exists_eq_succ_of_ne_zero (by omega)
    have hr : m + 1 - (String.utf8EncodeChar c).length = (utf8 a).length + n := by omega
    rw [hm, cons_append, splitAtByte, if_pos (by omega), hr, ih, Option.map_map]
    rfl

theorem byteSlice_append_add (a s : Str) (i j : Nat) :
    byteSlice (a ++ s) ((utf8 a).length + i) ((utf8 a).length + j) = byteSlice s i j := by
  rw [byteSlice, byteSlice, splitAtByte_append_add]
  rcases splitAtByte s j with _ | ⟨front, rest⟩
  · rfl
  · simp only [Option.map_some, Option.bind_eq_bind, Option.bind_some, splitAtByte_append_add]
    cases splitAtByte front i <;> rfl

theorem findByte_append (h : c ∉ a) (b : Str) : findByte c (a ++ c :: b) = some (utf8 a).length := by
  rw [findByte, if_pos (by simp), before_append h]

theorem stripStart_append (start s : Str) : stripStart start (start ++ s) = some s := by
  rw [stripStart, if_pos ( isPrefixOf_iff_prefix.mpr (prefix_append _ _)), drop_left]

theorem stripStart_eq_some {rest : Str} (h : stripStart start s = some rest) : s = start ++ rest := by
  unfold stripStart at h
  split at h
  · rename_i hb
    cases h
    obtain ⟨rest, rfl⟩ := isPrefixOf_iff_prefix.mp hb
    rw [drop_left]
  · cases h

theorem isSome_stripStart (start s : Str) : (stripStart start s).isSome = start.isPrefixOf s := by
  unfold stripStart
  grind

theorem stripStart_eq_none (hb : c ∈ start) (hs : c ∉ s) : stripStart start s = none := by
  rcases h : stripStart start s with _ | rest
  · rfl
  · rw [stripStart_eq_some h] at hs
    exact absurd (mem_append_left rest hb) hs

theorem not_mem_of_mem_splitOn : ∀ {s part : Str}, part ∈ s.splitOn c → c ∉ part
  | [], part, h => by
    obtain rfl := mem_singleton.mp (splitOn_nil c ▸ h)
    exact not_mem_nil
  | x :: s, part, h => by
    rw [splitOn_cons_eq_if_modifyHead] at h
    split at h
    · rcases mem_cons.mp h with rfl | h
      · exact not_mem_nil
      · exact not_mem_of_mem_splitOn h
    rcases hs : s.splitOn c with _ | ⟨first, rest⟩
    · exact absurd hs (splitOn_ne_nil c s)
    rw [hs, modifyHead_cons] at h
    rcases mem_cons.mp h with rfl | h
    · have hf : c ∉ first := not_mem_of_mem_splitOn (hs ▸ mem_cons_self)
      grind
    · exact not_mem_of_mem_splitOn (hs ▸ mem_cons_of_mem _ h)

theorem mem_intercalate : ∀ {parts : List Str}, c ∈ [sep].intercalate parts → c = sep ∨ ∃ part ∈ parts, c ∈ part
  | [], h => by cases h
  | [part], h => by
    rw [intercalate_singleton] at h
    exact .inr ⟨part, mem_cons_self, h⟩
  | part :: part' :: parts, h => by
    rw [intercalate_cons_cons, append_assoc, mem_append, mem_append] at h
    rcases h with h | h | h
    · exact .inr ⟨part, mem_cons_self, h⟩
    · exact .inl (mem_singleton.mp h)
    rcases mem_intercalate h with h | ⟨p, hp, h⟩
    · exact .inl h
    grind

theorem mem_intercalate_of_mem (hc : c ∈ part) : ∀ {parts : List Str}, part ∈ parts → c ∈ [sep].intercalate parts
  | [_], h => by
    rw [intercalate_singleton]
    exact mem_singleton.mp h ▸ hc
  | first :: second :: parts, h => by
    rw [intercalate_cons_cons, append_assoc, mem_append, mem_append]
    rcases mem_cons.mp h with rfl | h
    · exact .inl hc
    · exact .inr (.inr (mem_intercalate_of_mem hc h))

theorem count_intercalate : ∀ {parts : List Str}, (∀ part ∈ parts, sep ∉ part) → parts ≠ [] →
    ([sep].intercalate parts).count sep + 1 = parts.length
  | [], _, h => absurd rfl h
  | [part], h, _ => by
    rw [intercalate_singleton, count_eq_zero_of_not_mem (h part mem_cons_self)]
    rfl
  | part :: part' :: parts, h, _ => by
    have ih := count_intercalate (fun p hp => h p (mem_cons_of_mem _ hp)) (cons_ne_nil part' parts)
    rw [intercalate_cons_cons, count_append, count_append, count_eq_zero_of_not_mem (h part mem_cons_self)]
    grind
theorem mem_of_mem_splitOn (h : part ∈ s.splitOn sep) (hc : c ∈ part) : c ∈ s := by
  have hm : c ∈ [sep].intercalate (s.splitOn sep) := mem_intercalate_of_mem hc h
  rwa [intercalate_splitOn] at hm

theorem dropWhile_congr {q : α → Bool} {s : List α} (h : ∀ c ∈ s, p c = q c) : s.dropWhile p = s.dropWhile q := by
  induction s with
  | nil => rfl
  | cons c s ih =>
    grind [dropWhile_cons]

/-! ## What a number is written with -/

theorem not_isWhitespace_digit (h : (decimalDigit c).isSome = true) : isWhitespace c = false := by
  unfold decimalDigit at h
  split at h
  · rename_i hc
    have hlo : '0'.toNat ≤ c.toNat := hc.1
    have hhi : c.toNat ≤ '9'.toNat := hc.2
    simp only [Char.reduceToNat] at hlo hhi
    simp only [isWhitespace, decide_eq_false_iff_not]
    omega
  · cases h

theorem decimalDigits_digit (h : decimalDigits s = some n) : ∀ c ∈ s, (decimalDigit c).isSome = true := by
  have hn : ∀ s : Str,
      s.foldl (fun val c => do return 10 * (← val) + (← decimalDigit c)) (none : Option Nat) = none := by
    intro s
    induction s with
    | nil => rfl
    | cons c s ih => exact ih
  have hf : ∀ (s : Str) (val : Option Nat) (n : Nat),
      s.foldl (fun val c => do return 10 * (← val) + (← decimalDigit c)) val = some n →
      ∀ c ∈ s, (decimalDigit c).isSome = true := by
    intro s
    induction s with
    | nil => intro _ _ _ c hc; cases hc
    | cons d s ih =>
      intro val n h c hc
      rcases mem_cons.mp hc with rfl | hc
      · by_contra hd
        simp_all
      · exact ih _ n h c hc
  exact hf s (some 0) n h

theorem not_mem_of_parseU16 {n : UInt16} (h : parseU16 s = some n) (hc : decimalDigit c = none) (hp : c ≠ '+') :
    c ∉ s := by
  obtain ⟨v, hv, -⟩ := Option.map_eq_some_iff.mp h
  intro hm
  have hd : c ∈ (match s with | '+' :: rest => rest | _ => s) := by
    grind
  simp only [parseUnsigned] at hv
  generalize (match s with | '+' :: rest => rest | _ => s) = digits at hv hd
  split at hv <;> [cases hv; skip]
  have hs := decimalDigits_digit (Option.filter_eq_some_iff.mp hv).1 c hd
  rw [hc] at hs
  cases hs

/-! ## Lower case -/

/-- A port has no colon, so it is after the last one. -/
theorem rsplitOnce_port (name : Str) {port : Str} {n : UInt16} (h : parseU16 port = some n) :
    rsplitOnce ':' (name ++ ':' :: port) = some (name, port) :=
  rsplitOnce_append (not_mem_of_parseU16 h (by decide) (by decide))

/-- Characters before the letters have no other case. -/
theorem toLower_eq_iff (hx : x.toNat < 65) : c.toLower = x ↔ c = x := by
  unfold Char.toLower
  split
  · rename_i h
    have hc : 65 ≤ c.toNat := h.1
    constructor
    · intro he
      have hv : (c.val + ('a'.val - 'A'.val)).toNat = x.toNat := congrArg Char.toNat he
      have hcv : c.val.toNat = c.toNat := rfl
      grind [UInt32.toNat_add]
    · rintro rfl
      omega
  · exact Iff.rfl

theorem toAsciiLowercase_trimEndMatches (hx : x.toNat < 65) (s : Str) :
    toAsciiLowercase (trimEndMatches x s) = trimEndMatches x (toAsciiLowercase s) := by
  have hp : ((fun c => c == x) ∘ Char.toLower) = fun c => c == x := by
    funext c
    rw [Function.comp_apply, Bool.eq_iff_iff, beq_iff_eq, beq_iff_eq, toLower_eq_iff hx]
  unfold toAsciiLowercase trimEndMatches rdropWhile
  rw [← map_reverse, dropWhile_map, hp, map_reverse]

theorem trimEndMatches_append (ha : ∃ d ∈ a.getLast?, d ≠ c) (b : Str) :
    trimEndMatches c (a ++ b) = a ++ trimEndMatches c b := by
  obtain ⟨d, hd, hne⟩ := ha
  obtain ⟨a', rfl⟩ := getLast?_eq_some_iff.mp hd
  unfold trimEndMatches rdropWhile
  simp_all [reverse_append, dropWhile_append]

/-! ## Numbers are read back -/

theorem decimalDigits_concat (s : Str) (c : Char) :
    decimalDigits (s ++ [c]) = do return 10 * (← decimalDigits s) + (← decimalDigit c) := by
  rw [decimalDigits, foldl_append]
  rfl

theorem decimalDigit_digitChar : ∀ d < 10, decimalDigit (Nat.digitChar d) = some d := by
  decide

theorem decimalDigits_showNat (n : Nat) : decimalDigits (showNat n) = some n := by
  induction n using Nat.strongRecOn with
  | ind n ih =>
    rw [showNat, Nat.toDigits_eq_if (by decide)]
    split
    · rename_i hn
      rw [← nil_append [_], decimalDigits_concat, decimalDigit_digitChar n hn]
      simp [decimalDigits]
    rw [decimalDigits_concat, decimalDigit_digitChar _ (by omega), ← showNat, ih (n / 10) (by omega)]
    grind

theorem showNat_ne_nil (n : Nat) : showNat n ≠ [] := by
  rw [showNat, Nat.toDigits_eq_if (by decide)]
  split <;> simp

theorem append_showNat_inj (ha : ∀ c ∈ a, decimalDigit c = none) (hb : ∀ c ∈ b, decimalDigit c = none)
    {m : Nat} (h : a ++ showNat m = b ++ showNat n) : a = b ∧ m = n := by
  have hbg : ∀ {s : Str} {k : Nat}, (∀ c ∈ s, decimalDigit c = none) →
      (s ++ showNat k).takeWhile (fun c => (decimalDigit c).isNone) = s := by
    intro s k hs
    have hd := decimalDigits_digit (decimalDigits_showNat k)
    have hnm : (showNat k).takeWhile (fun c => (decimalDigit c).isNone) = [] := by
      rw [takeWhile_eq_nil_iff]
      grind [Option.isSome_iff_ne_none, Option.isNone_iff_eq_none]
    simp_all
  have hab : a = b := by rw [← hbg (k := m) ha, h, hbg hb]
  subst hab
  have hn := congrArg decimalDigits (append_cancel_left h)
  grind [decimalDigits_showNat]

theorem parseUnsigned_showNat {bound : Nat} (h : n < bound) : parseUnsigned bound (showNat n) = some n := by
  have hd := decimalDigits_digit (decimalDigits_showNat n)
  have hdg : (match showNat n with | '+' :: rest => rest | _ => showNat n) = showNat n := by
    split
    · rename_i rest heq
      have := hd '+' (heq ▸ mem_cons_self)
      cases this
    · rfl
  unfold parseUnsigned
  simp only [hdg, showNat_ne_nil, if_false, decimalDigits_showNat]
  simp [h]

theorem parseU16_showNat (n : UInt16) : parseU16 (showNat n.toNat) = some n := by
  rw [parseU16, parseUnsigned_showNat n.toNat_lt, Option.map_some, UInt16.ofNat_toNat]

theorem parseU64_showNat (n : UInt64) : parseU64 (showNat n.toNat) = some n := by
  rw [parseU64, parseUnsigned_showNat n.toNat_lt, Option.map_some, UInt64.ofNat_toNat]

end Framework
