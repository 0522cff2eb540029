import Mathlib.Algebra.Order.Ring.Nat
import Mathlib.Data.List.Basic

/-!
# Strings and their UTF-8 bytes

A string is the list of its Unicode scalar values (`Str`), its bytes are
their UTF-8 encodings (`utf8`). `fromUtf8Lossy` and `fromUtf8` are the two
decoders of the Rust standard library: both read one scalar value at a time
(`utf8Step`), and differ in what they do at a byte sequence that encodes
none. On the bytes of a string both give the string back
(`fromUtf8Lossy_utf8`, `fromUtf8_utf8`). What stands before and after an ASCII
byte is decoded by itself (`fromUtf8_append`), and what the strict one decodes
are the bytes of the string (`utf8_of_fromUtf8`).
-/

namespace Framework

open List

variable {bs : List UInt8} {s : Str} {b : UInt8}
variable {c : Char} {n acc lo hi v : Nat} {a : UInt8} {rest : List UInt8}

/-- A string: its Unicode scalar values. -/
abbrev Str := List Char

/-- A literal is the list of its characters. -/
instance : Coe String Str := ⟨String.toList⟩

/-- The bytes of a string. -/
def utf8 (s : Str) : List UInt8 := s.flatMap String.utf8EncodeChar

@[simp] theorem utf8_nil : utf8 [] = [] := rfl

@[simp] theorem utf8_cons (c : Char) (s : Str) : utf8 (c :: s) = String.utf8EncodeChar c ++ utf8 s := rfl

theorem utf8_append (a b : Str) : utf8 (a ++ b) = utf8 a ++ utf8 b := flatMap_append

theorem utf8EncodeChar_ne_nil (c : Char) : String.utf8EncodeChar c ≠ [] := by
  unfold String.utf8EncodeChar
  simp only
  repeat' split
  all_goals simp

theorem utf8_eq_nil : utf8 s = [] ↔ s = [] := by
  rcases s with _ | ⟨c, s⟩
  · simp
  · simp [utf8EncodeChar_ne_nil c]

theorem utf8EncodeChar_ascii (h : c.toNat < 128) : String.utf8EncodeChar c = [UInt8.ofNat c.toNat] := by
  have hle : c.val.toNat ≤ 127 := Nat.le_of_lt_succ h
  unfold String.utf8EncodeChar
  rw [if_pos hle]
  rfl

/-- The bytes of ASCII text are its characters. -/
theorem utf8_ascii (h : ∀ c ∈ s, c.toNat < 128) : utf8 s = s.map fun c => UInt8.ofNat c.toNat := by
  induction s with
  | nil => rfl
  | cons c s ih =>
    rw [utf8_cons, utf8EncodeChar_ascii (h c mem_cons_self), ih fun c hc => h c (mem_cons_of_mem _ hc)]
    rfl

/-- The bytes of a character outside ASCII are outside ASCII. -/
theorem mem_utf8EncodeChar (h : b ∈ String.utf8EncodeChar c) : c.toNat = b.toNat ∨ 128 ≤ b.toNat := by
  unfold String.utf8EncodeChar at h
  simp only at h
  rw [show c.toNat = c.val.toNat from rfl]
  generalize c.val.toNat = v at h ⊢
  split at h
  · grind [UInt8.toNat_ofNat']
  right
  split at h
  · simp only [mem_cons, not_mem_nil, or_false] at h
    rcases h with rfl | rfl <;> rw [UInt8.toNat_ofNat'] <;> omega
  split at h
  · simp only [mem_cons, not_mem_nil, or_false] at h
    grind [UInt8.toNat_ofNat']
  · simp only [mem_cons, not_mem_nil, or_false] at h
    grind [UInt8.toNat_ofNat']

theorem mem_utf8 (hc : c.toNat < 128) (h : c ∈ s) : UInt8.ofNat c.toNat ∈ utf8 s := by
  refine mem_flatMap.mpr ⟨c, h, ?_⟩
  rw [utf8EncodeChar_ascii hc]
  exact mem_cons_self

theorem mem_of_mem_utf8 (hb : b.toNat < 128) (h : b ∈ utf8 s) : Char.ofNat b.toNat ∈ s := by
  obtain ⟨c, hc, hm⟩ := mem_flatMap.mp h
  have heq : c.toNat = b.toNat := (mem_utf8EncodeChar hm).resolve_right (by omega)
  rwa [← heq, Char.ofNat_toNat]

theorem not_mem_utf8 (hb : b.toNat < 128) (h : Char.ofNat b.toNat ∉ s) : b ∉ utf8 s :=
  fun hm => h (mem_of_mem_utf8 hb hm)

/-! ## Reading one scalar value -/

/-- What the first byte of an encoding announces: how many bytes follow, the
bits it holds itself, and the range of the byte after it. -/
def utf8Lead (a : UInt8) : Option (Nat × Nat × Nat × Nat) :=
  let a := a.toNat
  if a < 0x80 then some (0, a, 0, 0)
  else if a < 0xc2 then none
  else if a < 0xe0 then some (1, a - 0xc0, 0x80, 0xbf)
  else if a = 0xe0 then some (2, 0, 0xa0, 0xbf)
  else if a = 0xed then some (2, 0xd, 0x80, 0x9f)
  else if a < 0xf0 then some (2, a - 0xe0, 0x80, 0xbf)
  else if a = 0xf0 then some (3, 0, 0x90, 0xbf)
  else if a < 0xf4 then some (3, a - 0xf0, 0x80, 0xbf)
  else if a = 0xf4 then some (3, 4, 0x80, 0x8f)
  else none

/-- Reads `n` bytes, the first between `lo` and `hi` and the others
continuation bytes, onto the bits `acc`. A byte that does not fit is not
consumed. -/
def utf8Tail : Nat → Nat → Nat → Nat → List UInt8 → Option Nat × List UInt8
  | 0, acc, _, _, bs => (some acc, bs)
  | _ + 1, _, _, _, [] => (none, [])
  | n + 1, acc, lo, hi, b :: bs =>
    if lo ≤ b.toNat ∧ b.toNat ≤ hi then utf8Tail n (acc * 64 + (b.toNat - 0x80)) 0x80 0xbf bs
    else (none, b :: bs)

/-- The scalar value that starts with the byte `a`, or `none` for the longest
prefix of one, and the bytes after it. -/
def utf8Step (a : UInt8) (bs : List UInt8) : Option Nat × List UInt8 :=
  match utf8Lead a with
  | none => (none, bs)
  | some (n, acc, lo, hi) => utf8Tail n acc lo hi bs

theorem utf8Lead_one : ∀ x < 0x80, utf8Lead (UInt8.ofNat x) = some (0, x, 0, 0) := by decide

theorem utf8Lead_two : ∀ x < 30, utf8Lead (UInt8.ofNat (x + 0xc2)) = some (1, x + 2, 0x80, 0xbf) := by
  decide

theorem utf8Lead_three : ∀ x < 16, utf8Lead (UInt8.ofNat (x + 0xe0)) =
    some (2, x, if x = 0 then 0xa0 else 0x80, if x = 0xd then 0x9f else 0xbf) := by
  decide

theorem utf8Lead_four : ∀ x < 5, utf8Lead (UInt8.ofNat (x + 0xf0)) =
    some (3, x, if x = 0 then 0x90 else 0x80, if x = 4 then 0x8f else 0xbf) := by
  decide

theorem utf8Lead_none : ∀ x < 256, ¬ x < 0x80 → x < 0xc2 ∨ 0xf5 ≤ x → utf8Lead (UInt8.ofNat x) = none := by
  decide +kernel

theorem utf8Tail_cont {x : Nat} (bs : List UInt8) (hx : x < 64) (hlo : lo ≤ x + 0x80) (hhi : x + 0x80 ≤ hi) :
    utf8Tail (n + 1) acc lo hi (UInt8.ofNat (x + 0x80) :: bs) = utf8Tail n (acc * 64 + x) 0x80 0xbf bs := by
  have e : (UInt8.ofNat (x + 0x80)).toNat = x + 0x80 := by
    rw [UInt8.toNat_ofNat']; omega
  simp only [utf8Tail, e, hlo, hhi, and_self, if_true, Nat.add_sub_cancel]

theorem utf8Step_encode (c : Char) (bs : List UInt8) :
    ∃ a t, String.utf8EncodeChar c = a :: t ∧ utf8Step a (t ++ bs) = (some c.toNat, bs) := by
  have hv : c.val.toNat < 0xd800 ∨ 0xdfff < c.val.toNat ∧ c.val.toNat < 0x110000 := c.valid
  unfold String.utf8EncodeChar utf8Step
  simp only
  rw [show c.toNat = c.val.toNat from rfl]
  generalize c.val.toNat = v at hv ⊢
  split
  · refine ⟨_, _, rfl, ?_⟩
    rw [utf8Lead_one v (by omega)]
    rfl
  split
  · refine ⟨_, _, rfl, ?_⟩
    rw [show v / 64 % 32 + 0xc0 = (v / 64 % 32 - 2) + 0xc2 by omega, utf8Lead_two _ (by omega)]
    grind [utf8Tail_cont, utf8Tail]
  split
  · refine ⟨_, _, rfl, ?_⟩
    rw [utf8Lead_three _ (by omega)]
    simp only [cons_append, nil_append]
    -- A surrogate would need the byte after `0xed` above `0x9f`.
    rw [utf8Tail_cont _ (by omega) (by split <;> omega) (by split <;> omega),
      utf8Tail_cont bs (by omega) (by omega) (by omega), utf8Tail,
      show (v / 4096 % 16 * 64 + v / 64 % 64) * 64 + v % 64 = v by omega]
  · refine ⟨_, _, rfl, ?_⟩
    rw [show v / 262144 % 8 = v / 262144 by omega, utf8Lead_four _ (by omega)]
    simp only [cons_append, nil_append]
    rw [utf8Tail_cont _ (by omega) (by split <;> omega) (by split <;> omega),
      utf8Tail_cont _ (by omega) (by omega) (by omega), utf8Tail_cont bs (by omega) (by omega) (by omega),
      utf8Tail, show ((v / 262144 * 64 + v / 4096 % 64) * 64 + v / 64 % 64) * 64 + v % 64 = v by omega]

/-! ## Decoding -/

/-- `String::from_utf8_lossy`: a sequence that encodes no scalar value becomes
one replacement character. The fuel is the number of bytes left. -/
def lossyAux : Nat → List UInt8 → Str
  | 0, _ => []
  | _ + 1, [] => []
  | n + 1, a :: bs =>
    match utf8Step a bs with
    | (some v, rest) => Char.ofNat v :: lossyAux n rest
    | (none, rest) => '\uFFFD' :: lossyAux n rest

@[inherit_doc lossyAux]
def fromUtf8Lossy (bs : List UInt8) : Str := lossyAux bs.length bs

/-- `String::from_utf8`: refuses a sequence that encodes no scalar value. -/
def strictAux : Nat → List UInt8 → Option Str
  | _, [] => some []
  | 0, _ :: _ => none
  | n + 1, a :: bs =>
    match utf8Step a bs with
    | (some v, rest) => (strictAux n rest).map (Char.ofNat v :: ·)
    | (none, _) => none

@[inherit_doc strictAux]
def fromUtf8 (bs : List UInt8) : Option Str := strictAux bs.length bs

theorem strictAux_utf8 : ∀ (s : Str) {n : Nat}, (utf8 s).length ≤ n → strictAux n (utf8 s) = some s
  | [], n, _ => by cases n <;> rfl
  | c :: s, n, hn => by
    obtain ⟨a, t, he, hs⟩ := utf8Step_encode c (utf8 s)
    rw [utf8_cons, he, cons_append] at hn ⊢
    obtain ⟨n, rfl⟩ : ∃ m, n = m + 1 := ⟨n - 1, by simp at hn; omega⟩
    rw [strictAux, hs]
    simp only [length_cons, length_append] at hn ⊢
    rw [strictAux_utf8 s (by omega), Option.map_some, Char.ofNat_toNat]

@[simp] theorem fromUtf8_utf8 (s : Str) : fromUtf8 (utf8 s) = some s := strictAux_utf8 s (by omega)

theorem utf8_inj {a b : Str} : utf8 a = utf8 b ↔ a = b :=
  ⟨fun h => Option.some.inj (by rw [← fromUtf8_utf8 a, h, fromUtf8_utf8]), congrArg _⟩

theorem lossyAux_of_strictAux (h : strictAux n bs = some s) : lossyAux n bs = s := by
  induction n generalizing bs s with
  | zero =>
    rcases bs with _ | ⟨a, bs⟩
    · exact Option.some.inj h
    · cases h
  | succ n ih =>
    rcases bs with _ | ⟨a, bs⟩
    · exact Option.some.inj h
    rw [strictAux] at h
    rw [lossyAux]
    split at h
    · obtain ⟨s, hs, rfl⟩ := Option.map_eq_some_iff.mp h
      rw [ih hs]
    · cases h

/-- The lossy decoder gives what the strict one gives. -/
theorem fromUtf8Lossy_of_fromUtf8 (h : fromUtf8 bs = some s) : fromUtf8Lossy bs = s := lossyAux_of_strictAux h

/-- The lossy decoder loses nothing of a string's bytes. -/
@[simp] theorem fromUtf8Lossy_utf8 (s : Str) : fromUtf8Lossy (utf8 s) = s := fromUtf8Lossy_of_fromUtf8 (fromUtf8_utf8 s)

/-! ## Lengths -/

theorem length_utf8_le (s : Str) : (utf8 s).length ≤ 4 * s.length := by
  have hc : ∀ c : Char, (String.utf8EncodeChar c).length ≤ 4 := by
    unfold String.utf8EncodeChar
    grind
  induction s with
  | nil => simp
  | cons c s ih =>
    have := hc c
    rw [utf8_cons, length_append, length_cons]
    omega

theorem length_utf8Tail_le : ∀ (n acc lo hi : Nat) (bs : List UInt8), (utf8Tail n acc lo hi bs).2.length ≤ bs.length
  | 0, _, _, _, bs => Nat.le_refl _
  | _ + 1, _, _, _, [] => Nat.le_refl _
  | n + 1, acc, lo, hi, b :: bs => by
    unfold utf8Tail
    split
    · exact Nat.le_succ_of_le (length_utf8Tail_le n _ _ _ bs)
    · exact Nat.le_refl _

theorem length_utf8Step_le (a : UInt8) (bs : List UInt8) : (utf8Step a bs).2.length ≤ bs.length := by
  unfold utf8Step
  split
  · exact Nat.le_refl _
  · exact length_utf8Tail_le _ _ _ _ bs

theorem length_strictAux_le : ∀ (n : Nat) (bs : List UInt8) (s : Str), strictAux n bs = some s → s.length ≤ bs.length
  | _, [], s, h => by
    rw [strictAux] at h
    cases h
    exact Nat.le_refl _
  | 0, _ :: _, s, h => by cases h
  | n + 1, a :: bs, s, h => by
    have hs := length_utf8Step_le a bs
    rw [strictAux] at h
    split at h <;> [skip; cases h]
    rename_i v rest hr
    rw [hr] at hs
    simp only at hs
    obtain ⟨t, ht, rfl⟩ := Option.map_eq_some_iff.mp h
    have := length_strictAux_le n rest t ht
    simp only [length_cons]
    omega

/-- A string has no more scalar values than bytes. -/
theorem length_le_of_fromUtf8 (h : fromUtf8 bs = some s) : s.length ≤ bs.length := length_strictAux_le _ bs s h

theorem eq_nil_of_fromUtf8 (h : fromUtf8 bs = some []) : bs = [] := by
  rcases bs with _ | ⟨b, bs⟩
  · rfl
  rw [fromUtf8, length_cons, strictAux] at h
  split at h
  · simp at h
  · cases h

/-! ## Decoding a text piece by piece -/

theorem strictAux_eq : ∀ {n m : Nat} {bs : List UInt8}, bs.length ≤ n → bs.length ≤ m → strictAux n bs = strictAux m bs
  | n, m, [], _, _ => by cases n <;> cases m <;> rfl
  | n + 1, m + 1, a :: bs, hn, hm => by
    have hs := length_utf8Step_le a bs
    rw [strictAux, strictAux]
    split
    · rename_i heq
      rw [heq] at hs
      have hn' : _ ≤ n := Nat.le_trans hs (Nat.le_of_succ_le_succ hn)
      have hm' : _ ≤ m := Nat.le_trans hs (Nat.le_of_succ_le_succ hm)
      rw [strictAux_eq hn' hm']
    · rfl

theorem fromUtf8_cons (a : UInt8) (bs : List UInt8) : fromUtf8 (a :: bs) =
      match utf8Step a bs with
      | (some v, rest) => (fromUtf8 rest).map (Char.ofNat v :: ·)
      | (none, _) => none := by
  have hs := length_utf8Step_le a bs
  rw [fromUtf8, length_cons, strictAux]
  split
  · rename_i heq
    rw [heq] at hs
    rw [fromUtf8, strictAux_eq hs (Nat.le_refl _)]
  · rfl

theorem fromUtf8_utf8_append (s : Str) (bs : List UInt8) : fromUtf8 (utf8 s ++ bs) = (fromUtf8 bs).map (s ++ ·) := by
  induction s with
  | nil => simp
  | cons c s ih =>
    obtain ⟨a, t, he, hs⟩ := utf8Step_encode c (utf8 s ++ bs)
    rw [utf8_cons, he, append_assoc, cons_append, fromUtf8_cons, hs]
    simp [ih, Char.ofNat_toNat, Function.comp_def]

theorem utf8Tail_append (hb : b.toNat < 0x80) (rest : List UInt8) :
    ∀ (n acc lo hi : Nat) (bs : List UInt8), n = 0 ∨ 0x80 ≤ lo → utf8Tail n acc lo hi (bs ++ b :: rest) =
        ((utf8Tail n acc lo hi bs).1, (utf8Tail n acc lo hi bs).2 ++ b :: rest)
  | 0, _, _, _, _, _ => rfl
  | n + 1, acc, lo, hi, [], h => by
    have ho : ¬(lo ≤ b.toNat ∧ b.toNat ≤ hi) := by omega
    simp [utf8Tail, ho]
  | n + 1, acc, lo, hi, c :: bs, _ => by
    rw [cons_append, utf8Tail, utf8Tail]
    split
    · exact utf8Tail_append hb rest n _ _ _ bs (.inr (by omega))
    · rfl

/-- What a first byte is that announces `n` more. -/
theorem utf8Lead_cases (h : utf8Lead a = some (n, acc, lo, hi)) : n = 0 ∧ a.toNat = acc ∧ acc < 0x80 ∨
    (0x80 ≤ lo ∧ hi ≤ 0xbf) ∧ (n = 1 ∧ a.toNat = acc + 0xc0 ∧ 2 ≤ acc ∧ acc < 32 ∨
        n = 2 ∧ a.toNat = acc + 0xe0 ∧ acc < 16 ∧ (acc = 0 → lo = 0xa0) ∧ (acc = 0xd → hi = 0x9f) ∨
        n = 3 ∧ a.toNat = acc + 0xf0 ∧ acc < 5 ∧ (acc = 0 → lo = 0x90) ∧ (acc = 4 → hi = 0x8f)) := by
  have ha : a = UInt8.ofNat a.toNat := UInt8.ofNat_toNat.symm
  have hlt := a.toNat_lt
  rw [ha] at h
  generalize a.toNat = x at h hlt ⊢
  by_cases ho : x < 0x80
  · grind [utf8Lead_one]
  by_cases hn : x < 0xc2 ∨ 0xf5 ≤ x
  · rw [utf8Lead_none x hlt (by omega) hn] at h
    cases h
  right
  by_cases htw : x < 0xe0
  · obtain ⟨y, rfl⟩ : ∃ y, x = y + 0xc2 := ⟨x - 0xc2, by omega⟩
    grind [utf8Lead_two]
  by_cases ht : x < 0xf0
  · obtain ⟨y, rfl⟩ : ∃ y, x = y + 0xe0 := ⟨x - 0xe0, by omega⟩
    rw [utf8Lead_three y (by omega)] at h
    grind
  obtain ⟨y, rfl⟩ : ∃ y, x = y + 0xf0 := ⟨x - 0xf0, by omega⟩
  rw [utf8Lead_four y (by omega)] at h
  grind

/-- An ASCII byte belongs to no longer sequence. -/
theorem fromUtf8_append (hb : b.toNat < 0x80) (bs rest : List UInt8) :
    fromUtf8 (bs ++ b :: rest) = do return (← fromUtf8 bs) ++ (← fromUtf8 (b :: rest)) := by
  induction hn : bs.length using Nat.strongRecOn generalizing bs with
  | ind n ih =>
    match bs with
    | [] =>
      rw [nil_append, show fromUtf8 [] = some [] from rfl]
      simp
    | a :: bs =>
      have hs : utf8Step a (bs ++ b :: rest) = ((utf8Step a bs).1, (utf8Step a bs).2 ++ b :: rest) := by
        unfold utf8Step
        split
        · rfl
        rename_i hl
        have hlo := utf8Lead_cases hl
        exact utf8Tail_append hb rest _ _ _ _ bs (by omega)
      have hls := length_utf8Step_le a bs
      rw [cons_append, fromUtf8_cons, fromUtf8_cons, hs]
      rcases hv : (utf8Step a bs).1 with _ | v
      · grind
      rw [show utf8Step a bs = (some v, (utf8Step a bs).2) from Prod.ext hv rfl]
      simp only [length_cons] at hn
      simp only [ih _ (by omega : (utf8Step a bs).2.length < n) _ rfl]
      cases fromUtf8 (utf8Step a bs).2 <;> cases fromUtf8 (b :: rest) <;> rfl

/-! ## A decoded text has the bytes it was decoded from -/

theorem utf8Tail_some (hlo : 0x80 ≤ lo) (hhi : hi ≤ 0xbf) (h : utf8Tail (n + 1) acc lo hi bs = (some v, rest)) :
    ∃ x bs', x < 64 ∧ lo ≤ x + 0x80 ∧ x + 0x80 ≤ hi ∧ bs = UInt8.ofNat (x + 0x80) :: bs' ∧
      utf8Tail n (acc * 64 + x) 0x80 0xbf bs' = (some v, rest) := by
  rcases bs with _ | ⟨b, bs⟩
  · cases h
  rw [utf8Tail] at h
  split at h
  · rename_i hb
    grind [UInt8.ofNat_toNat]
  · cases h

theorem val_ofNat (h : v < 0xd800 ∨ 0xdfff < v ∧ v < 0x110000) : (Char.ofNat v).val.toNat = v := by
  have hv : v.isValidChar := h
  rw [Char.ofNat, dif_pos hv]
  rfl

/-- A scalar value that was read is encoded as it was. -/
theorem utf8Step_decode (h : utf8Step a bs = (some v, rest)) :
    a :: bs = String.utf8EncodeChar (Char.ofNat v) ++ rest := by
  unfold utf8Step at h
  split at h
  · cases h
  rename_i n acc lo hi hl
  have ha : a = UInt8.ofNat a.toNat := (UInt8.ofNat_toNat).symm
  rw [ha]
  unfold String.utf8EncodeChar
  rcases utf8Lead_cases hl with ⟨rfl, hac, hlt⟩ | ⟨⟨hlo, hhi⟩, ⟨rfl, hac, hm, hlt⟩ | h3 | h4⟩
  · cases h
    rw [val_ofNat (by omega), if_pos (by omega), hac]
    rfl
  · obtain ⟨x, bs₁, hx, -, -, rfl, h₁⟩ := utf8Tail_some hlo hhi h
    cases h₁
    rw [val_ofNat (by omega), if_neg (by omega), if_pos (by omega),
      show (acc * 64 + x) / 64 % 32 + 0xc0 = a.toNat by omega, show (acc * 64 + x) % 64 = x by omega]
    rfl
  · obtain ⟨rfl, hac, hlt, hf, hls⟩ := h3
    obtain ⟨x, bs₁, hx, hxl, hxh, rfl, h₁⟩ := utf8Tail_some hlo hhi h
    obtain ⟨y, bs₂, hy, -, -, rfl, h₂⟩ := utf8Tail_some (by omega) (by omega) h₁
    cases h₂
    rw [val_ofNat (by omega), if_neg (by omega), if_neg (by omega), if_pos (by omega),
      show ((acc * 64 + x) * 64 + y) / 4096 % 16 + 0xe0 = a.toNat by omega,
      show ((acc * 64 + x) * 64 + y) / 64 % 64 = x by omega, show ((acc * 64 + x) * 64 + y) % 64 = y by omega]
    rfl
  · obtain ⟨rfl, hac, hlt, hf, hls⟩ := h4
    obtain ⟨x, bs₁, hx, hxl, hxh, rfl, h₁⟩ := utf8Tail_some hlo hhi h
    obtain ⟨y, bs₂, hy, -, -, rfl, h₂⟩ := utf8Tail_some (by omega) (by omega) h₁
    obtain ⟨z, bs₃, hz, -, -, rfl, h₃⟩ := utf8Tail_some (by omega) (by omega) h₂
    cases h₃
    rw [val_ofNat (by omega), if_neg (by omega), if_neg (by omega), if_neg (by omega),
      show (((acc * 64 + x) * 64 + y) * 64 + z) / 262144 % 8 + 0xf0 = a.toNat by omega,
      show (((acc * 64 + x) * 64 + y) * 64 + z) / 4096 % 64 = x by omega,
      show (((acc * 64 + x) * 64 + y) * 64 + z) / 64 % 64 = y by omega,
      show (((acc * 64 + x) * 64 + y) * 64 + z) % 64 = z by omega]
    rfl

theorem utf8_of_fromUtf8 (h : fromUtf8 bs = some s) : utf8 s = bs := by
  induction hn : bs.length using Nat.strongRecOn generalizing bs s with
  | ind n ih =>
    match bs with
    | [] =>
      cases h
      rfl
    | a :: bs =>
      have hl := length_utf8Step_le a bs
      rw [fromUtf8_cons] at h
      split at h
      · rename_i v rest hst
        obtain ⟨s, hs, rfl⟩ := Option.map_eq_some_iff.mp h
        grind [utf8_cons, utf8Step_decode]
      · cases h

end Framework
