import Mathlib.Algebra.Order.Ring.Nat
import Mathlib.Data.List.Basic
import Mathlib.Data.List.Induction

/-!
# Byte strings

Big-endian words (`beBytes`, `beNat`), reading a prefix of a byte string
(`takeBytes`) and cutting a byte string into chunks (`chunks`), with the
round trips: `beNat_beBytes`, `takeBytes_append`, `flatten_chunks`.
-/

namespace Framework

open List

variable {n : Nat} (bs : List UInt8)
variable {v start stop : Nat} {part : List UInt8}

/-! ## Big-endian words -/

/-- The low `n` bytes of `v`, the most significant first. -/
def beBytes : Nat → Nat → List UInt8
  | 0, _ => []
  | n + 1, v => beBytes n (v / 256) ++ [UInt8.ofNat (v % 256)]

/-- The number whose big-endian bytes are `bs`. -/
def beNat (bs : List UInt8) : Nat := bs.foldl (fun v b => v * 256 + b.toNat) 0

theorem xor_xor_self (a b : UInt8) : a ^^^ b ^^^ b = a := by
  rw [UInt8.xor_assoc, UInt8.xor_self, UInt8.xor_zero]

@[simp] theorem length_beBytes (n v : Nat) : (beBytes n v).length = n := by
  induction n generalizing v with
  | zero => rfl
  | succ n ih => simp [beBytes, ih]

/-- Shifting the bytes of `v` in after the value `a`. -/
theorem foldl_beBytes (a : Nat) (h : v < 256 ^ n) :
    (beBytes n v).foldl (fun v b => v * 256 + b.toNat) a = a * 256 ^ n + v := by
  induction n generalizing v with
  | zero => simp only [beBytes, foldl_nil, Nat.pow_zero, Nat.mul_one] at h ⊢; omega
  | succ n ih =>
    rw [beBytes, foldl_append, ih (by omega), foldl_cons, foldl_nil, UInt8.toNat_ofNat',
      Nat.mod_eq_of_lt (by omega), Nat.pow_succ, Nat.add_mul, Nat.mul_assoc]
    omega

@[simp] theorem beNat_beBytes (h : v < 256 ^ n) : beNat (beBytes n v) = v := by
  rw [beNat, foldl_beBytes 0 h]; omega

theorem foldl_byte_lt (a : Nat) : bs.foldl (fun v b => v * 256 + b.toNat) a < (a + 1) * 256 ^ bs.length := by
  induction bs generalizing a with
  | nil => simp
  | cons b bs ih =>
    have hb := b.toNat_lt
    calc (b :: bs).foldl (fun v b => v * 256 + b.toNat) a < (a * 256 + b.toNat + 1) * 256 ^ bs.length := ih _
      _ ≤ ((a + 1) * 256) * 256 ^ bs.length := Nat.mul_le_mul_right _ (by omega)
      _ = (a + 1) * 256 ^ (b :: bs).length := by grind

theorem beNat_lt : beNat bs < 256 ^ bs.length := by
  have hlt := foldl_byte_lt bs 0
  rwa [Nat.zero_add, Nat.one_mul] at hlt

theorem beBytes_beNat : beBytes bs.length (beNat bs) = bs := by
  induction bs using reverseRecOn with
  | nil => rfl
  | append_singleton bs b ih =>
    have hb := b.toNat_lt
    have hv : beNat (bs ++ [b]) = beNat bs * 256 + b.toNat := by simp [beNat]
    rw [length_append, length_singleton, beBytes, hv, show (beNat bs * 256 + b.toNat) / 256 = beNat bs by omega,
      show (beNat bs * 256 + b.toNat) % 256 = b.toNat by omega, ih, UInt8.ofNat_toNat]

theorem beNat_cons (b : UInt8) (bs : List UInt8) : beNat (b :: bs) = b.toNat * 256 ^ bs.length + beNat bs := by
  have hf := foldl_beBytes b.toNat (beNat_lt bs)
  rw [beBytes_beNat] at hf
  rw [← hf, beNat, foldl_cons, Nat.zero_mul, Nat.zero_add]

theorem beBytes_succ (n v : Nat) : beBytes (n + 1) v = UInt8.ofNat (v / 256 ^ n % 256) :: beBytes n v := by
  induction n generalizing v with
  | zero => simp [beBytes]
  | succ n ih =>
    rw [beBytes, ih, cons_append, Nat.div_div_eq_div_mul, Nat.pow_succ']
    rfl

/-! ## Reading a prefix -/

/-- The first `n` bytes and the rest, if there are so many. -/
def takeBytes (n : Nat) (bs : List UInt8) : Option (List UInt8 × List UInt8) :=
  if bs.length < n then none else some (bs.take n, bs.drop n)

theorem takeBytes_append {bs : List UInt8} (h : bs.length = n) (rest : List UInt8) :
    takeBytes n (bs ++ rest) = some (bs, rest) := by
  subst h
  simp [takeBytes]

/-! ## Slices -/

/-- `bs.get(start..stop)`. -/
def slice (bs : List UInt8) (start stop : Nat) : Option (List UInt8) :=
  if start ≤ stop ∧ stop ≤ bs.length then some ((bs.drop start).take (stop - start)) else none

theorem slice_cons (b : UInt8) (bs : List UInt8) (start stop : Nat) :
    slice (b :: bs) (start + 1) (stop + 1) = slice bs start stop := by
  simp [slice]

theorem slice_eq_some_iff {bs : List UInt8} (h : start ≤ stop) : slice bs start stop = some part ↔
      ∃ before after, bs = before ++ (part ++ after) ∧ before.length = start ∧ part.length = stop - start := by
  unfold slice
  constructor
  · intro hs
    split at hs <;> [skip; cases hs]
    cases hs
    refine ⟨bs.take start, bs.drop stop, ?_, ?_, ?_⟩
    · have hr : bs.drop stop = (bs.drop start).drop (stop - start) := by
        rw [drop_drop, Nat.add_sub_cancel' h]
      rw [hr, take_append_drop, take_append_drop]
    · rw [length_take]
      omega
    · rw [length_take, length_drop]
      omega
  grind

theorem length_slice {bs : List UInt8} (h : slice bs start stop = some part) :
    start ≤ stop ∧ stop ≤ bs.length ∧ part.length = stop - start := by
  unfold slice at h
  grind

theorem length_of_slice {bs : List UInt8} (h : slice bs start (start + n) = some part) : part.length = n := by
  have hl := (length_slice h).2.2
  omega

theorem slice_zero_eq_some_iff {bs : List UInt8} :
    slice bs 0 n = some part ↔ ∃ after, bs = part ++ after ∧ part.length = n := by
  rw [slice_eq_some_iff (by omega)]
  constructor
  · simp
  simp

theorem slice_length {bs : List UInt8} (h : start ≤ bs.length) : slice bs start bs.length = some (bs.drop start) := by
  rw [slice, if_pos ⟨h, Nat.le_refl _⟩, take_of_length_le (by simp)]

theorem slice_append (first bs : List UInt8) (i j : Nat) :
    slice (first ++ bs) (first.length + i) (first.length + j) = slice bs i j := by
  have hle : first.length + i ≤ first.length + j ∧ first.length + j ≤ (first ++ bs).length ↔
      i ≤ j ∧ j ≤ bs.length := by
    rw [length_append]
    omega
  unfold slice
  simp only [hle, drop_append, Nat.add_sub_add_left, drop_eq_nil_of_le (Nat.le_add_right _ i),
    Nat.add_sub_cancel_left, nil_append]

/-! ## Chunks -/

section Chunks

variable {α : Type}

/-- `⌈a / b⌉`. -/
def divCeil (a b : Nat) : Nat := (a + b - 1) / b

/-- `slice::chunks`: pieces of `n` elements, the last one possibly shorter. -/
def chunks (n : Nat) (xs : List α) : List (List α) :=
  (List.range (divCeil xs.length n)).map fun i => (xs.drop (i * n)).take n

@[simp] theorem length_chunks (n : Nat) (xs : List α) : (chunks n xs).length = divCeil xs.length n := by
  simp [chunks]

theorem lt_divCeil {a b i : Nat} (hb : 0 < b) : i < divCeil a b ↔ i * b < a := by
  rw [divCeil, Nat.lt_div_iff_mul_lt hb]
  constructor <;> intro h <;> omega

/-- A chunk is not empty, and not longer than asked for. -/
theorem mem_chunks (hn : 0 < n) {xs c : List α} (h : c ∈ chunks n xs) : c ≠ [] ∧ c.length ≤ n := by
  obtain ⟨i, hi, rfl⟩ := mem_map.mp h
  rw [mem_range, lt_divCeil hn] at hi
  grind

theorem flatten_range_chunks (n k : Nat) (xs : List α) :
    ((range k).map fun i => (xs.drop (i * n)).take n).flatten = xs.take (k * n) := by
  induction k with
  | zero => simp
  | succ k ih =>
    rw [range_succ, map_append, flatten_append, ih, Nat.succ_mul, take_add]
    simp

theorem flatten_chunks (hn : 0 < n) (xs : List α) : (chunks n xs).flatten = xs := by
  rw [chunks, flatten_range_chunks]
  apply take_of_length_le
  have := (lt_divCeil hn (a := xs.length) (i := divCeil xs.length n)).not.mp (by omega)
  omega

/-! ## Pieces -/

/-- The `i`-th of `n` pieces: all have the same length, but the last takes what is left. -/
def piece (n : Nat) (xs : List α) (i : Nat) : List α :=
  (xs.take (if i = n - 1 then xs.length else i * (xs.length / n) + xs.length / n)).drop (i * (xs.length / n))

theorem flatten_pieces (hn : 0 < n) (xs : List α) : ((range n).map (piece n xs)).flatten = xs := by
  obtain ⟨k, rfl⟩ := Nat.exists_eq_succ_of_ne_zero (Nat.pos_iff_ne_zero.mp hn)
  have hl : piece (k + 1) xs k = xs.drop (k * (xs.length / (k + 1))) := by
    simp [piece, take_length]
  have hf : (range k).map (piece (k + 1) xs) =
      (range k).map fun i => (xs.drop (i * (xs.length / (k + 1)))).take (xs.length / (k + 1)) := by
    apply map_congr_left
    intro i hi
    rw [mem_range] at hi
    rw [piece, if_neg (by omega), drop_take, Nat.add_sub_cancel_left]
  rw [range_succ, map_append, flatten_append, hf, flatten_range_chunks]
  simp_all

end Chunks

/-- Parts that are not empty are at most as many as their elements. -/
theorem length_le_flatMap {α β : Type} {f : α → List β} {xs : List α} (h : ∀ x ∈ xs, 0 < (f x).length) :
    xs.length ≤ (xs.flatMap f).length := by
  induction xs with
  | nil => exact Nat.zero_le _
  | cons x xs ih =>
    grind

end Framework
