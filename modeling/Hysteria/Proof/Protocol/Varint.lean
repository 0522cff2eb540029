import Hysteria.Framework.Records
import Hysteria.Impl.Protocol.Varint

/-!
# The varint codec

`reads_decodeVarint`: the decoder reads a first byte whose top two bits hold the
logarithm of the length, and the bytes after it. A big-endian word of 1, 2, 4 or 8 bytes
is such a text (`varintText_beBytes`, `beBytes_of_varintText`). The encoder emits one for every value up to
`maxVarint`, so what it emits decodes to the value, whatever follows (`encodeVarint_ok`).
-/

namespace Hysteria.Proof

open Framework Impl List

theorem toNat_shiftRight_six (b : UInt8) : (b >>> 6).toNat = b.toNat / 64 := by
  rw [UInt8.toNat_shiftRight, Nat.shiftRight_eq_div_pow]
  rfl

theorem one_shiftLeft_pos (n : Nat) : 0 < 1 <<< n := by
  rw [Nat.one_shiftLeft]
  exact Nat.two_pow_pos n

theorem toNat_and_63 (b : UInt8) : (b &&& 0x3f).toUInt64.toNat = b.toNat % 64 := by
  rw [UInt8.toNat_toUInt64, UInt8.toNat_and]
  exact Nat.and_two_pow_sub_one_eq_mod b.toNat 6

theorem toNat_shl_or {v : UInt64} (h : v.toNat < 2 ^ 56) (b : UInt8) :
    (v <<< 8 ||| b.toUInt64).toNat = v.toNat * 256 + b.toNat := by
  have hb : b.toNat < 2 ^ 8 := b.toNat_lt
  have hs : v.toNat <<< 8 % 2 ^ 64 = 2 ^ 8 * v.toNat := by
    omega
  rw [UInt64.toNat_or, UInt64.toNat_shiftLeft, UInt8.toNat_toUInt64,
    show (8 : UInt64).toNat % 64 = 8 from rfl, hs, ← Nat.two_pow_add_eq_or_of_lt hb, Nat.mul_comm]

/-- Shifting in at most seven bytes after six bits does not overflow. -/
theorem foldl_shl_or : ∀ (bs : List UInt8) {v : UInt64}, v.toNat < 2 ^ (64 - 8 * bs.length) → bs.length ≤ 7 →
    (bs.foldl (fun (val : UInt64) byte => val <<< 8 ||| byte.toUInt64) v).toNat =
      bs.foldl (fun v b => v * 256 + b.toNat) v.toNat
  | [], _, _, _ => rfl
  | b :: bs, v, hv, hl => by
    simp only [length_cons] at hv hl
    have hp : 2 ^ (64 - 8 * (bs.length + 1)) * 256 = 2 ^ (64 - 8 * bs.length) := by
      rw [show (256 : Nat) = 2 ^ 8 from rfl, ← Nat.pow_add]
      congr 1; omega
    have h56 : v.toNat < 2 ^ 56 := Nat.lt_of_lt_of_le hv (Nat.pow_le_pow_right (by decide) (by omega))
    have hb := b.toNat_lt
    rw [foldl_cons, foldl_cons, foldl_shl_or bs (by rw [toNat_shl_or h56]; omega) (by omega), toNat_shl_or h56]

theorem beBytes_mod (n v : Nat) : beBytes n (v % 256 ^ n) = beBytes n v := by
  induction n generalizing v with
  | zero => rfl
  | succ n ih =>
    rw [beBytes, beBytes, Nat.pow_succ', ← ih (v / 256), Nat.mod_mul_right_div_self, Nat.mod_mul_right_mod]

/-- The first byte holds `k` and the top six bits of `v`. -/
theorem beBytes_tagged {k v m : Nat} (hk : k < 4) (hv : v < 64 * 256 ^ m) :
    beBytes (m + 1) (k * (64 * 256 ^ m) + v) = UInt8.ofNat (k * 64 + v / 256 ^ m) :: beBytes m (v % 256 ^ m) := by
  have hp : 0 < 256 ^ m := Nat.pow_pos (by decide)
  have hd : (k * (64 * 256 ^ m) + v) / 256 ^ m = k * 64 + v / 256 ^ m := by
    rw [← Nat.mul_assoc, Nat.add_comm, Nat.add_mul_div_right _ _ hp, Nat.add_comm]
  have hm : (k * (64 * 256 ^ m) + v) % 256 ^ m = v % 256 ^ m := by
    rw [← Nat.mul_assoc, Nat.add_comm, Nat.add_mul_mod_self_right]
  have hq : v / 256 ^ m < 64 := Nat.div_lt_of_lt_mul (by rw [Nat.mul_comm]; exact hv)
  grind [beBytes_succ, beBytes_mod]

/-- Six bits of the first byte and `m` bytes after it, as the decoder puts them
together. -/
theorem foldl_shl_or_beBytes {first : UInt8} {m low : Nat} (hm : m ≤ 7) (hl : low < 256 ^ m) :
    ((beBytes m low).foldl (fun (val : UInt64) byte => val <<< 8 ||| byte.toUInt64)
      (first &&& 0x3f).toUInt64).toNat = first.toNat % 64 * 256 ^ m + low := by
  have hr : (first &&& 0x3f).toUInt64.toNat < 2 ^ (64 - 8 * (beBytes m low).length) := by
    rw [toNat_and_63, length_beBytes]
    refine Nat.lt_of_lt_of_le (Nat.mod_lt _ (by decide)) ?_
    exact Nat.pow_le_pow_right (show 0 < 2 by decide) (show 6 ≤ 64 - 8 * m by omega)
  rw [foldl_shl_or _ hr (by rw [length_beBytes]; exact hm), toNat_and_63, foldl_beBytes _ hl]

/-- A varint of any width: the first two bits give the width, the other bits the value. -/
def VarintText (text : List UInt8) (value : UInt64) : Prop :=
  ∃ first rest, text = first :: rest ∧ text.length = 2 ^ (first.toNat / 64) ∧
    value.toNat = first.toNat % 64 * 256 ^ rest.length + beNat rest

/-- What is read from a first byte and as many as it asks for. -/
theorem decodeVarint_append {first : UInt8} {tail : List UInt8}
    (h : (first :: tail).length = 2 ^ (first.toNat / 64)) (rest : List UInt8) :
    ∃ val, decodeVarint (first :: tail ++ rest) = .ok (val, rest) ∧
      val.toNat = first.toNat % 64 * 256 ^ tail.length + beNat tail := by
  have hw : 1 <<< (first >>> 6).toNat = tail.length + 1 := by
    rw [toNat_shiftRight_six, Nat.one_shiftLeft, ← h, length_cons]
  have hsh : tail.length ≤ 7 := by
    have hf := first.toNat_lt
    have hp := Nat.pow_le_pow_right (show 0 < 2 by decide) (show first.toNat / 64 ≤ 3 by omega)
    rw [length_cons] at h
    omega
  have hv := @foldl_shl_or_beBytes first _ _ hsh (beNat_lt tail)
  rw [beBytes_beNat] at hv
  refine ⟨_, ?_, hv⟩
  simp only [decodeVarint, cons_append, hw, Nat.add_sub_cancel, take_left, drop_succ_cons, drop_left]
  rw [if_neg (by simp)]

theorem reads_decodeVarint : ReadsFormat VarintText decodeVarint := by
  intro input val rest
  constructor
  · intro h
    have hr := h
    rcases input with _ | ⟨first, bs⟩
    · cases h
    simp only [decodeVarint, toNat_shiftRight_six, Nat.one_shiftLeft] at h
    split at h <;> [cases h; skip]
    rename_i hl
    obtain ⟨m, hm⟩ := Nat.exists_eq_add_one_of_ne_zero (Nat.two_pow_pos (first.toNat / 64)).ne'
    have hs : first :: bs = first :: bs.take m ++ bs.drop m := by rw [cons_append, take_append_drop]
    have hlen : (first :: bs.take m).length = 2 ^ (first.toNat / 64) := by
      rw [length_cons] at hl ⊢
      rw [length_take_of_le (by omega), hm]
    obtain ⟨val', hread, hv⟩ := decodeVarint_append hlen (bs.drop m)
    rw [← hs, hr] at hread
    cases hread
    exact ⟨_, ⟨first, _, rfl, hlen, hv⟩, hs⟩
  · rintro ⟨txt, ⟨first, tail, rfl, hl, hv⟩, rfl⟩
    obtain ⟨read, hr, heq⟩ := decodeVarint_append hl rest
    rw [hr, UInt64.toNat_inj.mp (heq.trans hv.symm)]

theorem two_pow_word {k m : Nat} (h : 2 ^ k = m + 1) : 2 ^ (8 * 2 ^ k - 2) = 64 * 256 ^ m := by
  rw [h, show (64 : Nat) = 2 ^ 6 from rfl, show (256 : Nat) = 2 ^ 8 from rfl, ← Nat.pow_mul, ← Nat.pow_add]
  congr 1; omega

/-- A word with `k` in its top two bits and `v` in the others. -/
theorem varintText_beBytes {k v : Nat} (hk : k < 4) (hv : v < 2 ^ (8 * 2 ^ k - 2)) :
    VarintText (beBytes (2 ^ k) (k * 2 ^ (8 * 2 ^ k - 2) + v)) (UInt64.ofNat v) := by
  obtain ⟨m, hm⟩ := Nat.exists_eq_add_one_of_ne_zero (Nat.two_pow_pos k).ne'
  rw [two_pow_word hm] at hv ⊢
  have hq : v / 256 ^ m < 64 := Nat.div_lt_of_lt_mul (by rw [Nat.mul_comm]; exact hv)
  have hd := Nat.div_add_mod' v (256 ^ m)
  have hw : 64 * 256 ^ m ≤ 2 ^ 64 := by
    have hk3 := Nat.pow_le_pow_right (show 0 < 2 by decide) (show k ≤ 3 by omega)
    have hm7 := Nat.pow_le_pow_right (show 0 < 256 by decide) (show m ≤ 7 by omega)
    omega
  rw [hm, beBytes_tagged hk hv]
  generalize v / 256 ^ m = q at hq hd ⊢
  have hfs : (UInt8.ofNat (k * 64 + q)).toNat = k * 64 + q := by
    rw [UInt8.toNat_ofNat']; omega
  refine ⟨_, _, rfl, ?_, ?_⟩
  · rw [hfs, length_cons, length_beBytes, ← hm]
    congr 1; omega
  · rw [hfs, length_beBytes, beNat_beBytes (Nat.mod_lt _ (Nat.pow_pos (by decide))), UInt64.toNat_ofNat',
      show (k * 64 + q) % 64 = q by omega, hd, Nat.mod_eq_of_lt (by omega)]

/-- Every text is such a word. -/
theorem beBytes_of_varintText {txt : List UInt8} {val : UInt64} (h : VarintText txt val) :
    ∃ k < 4, val.toNat < 2 ^ (8 * 2 ^ k - 2) ∧ txt = beBytes (2 ^ k) (k * 2 ^ (8 * 2 ^ k - 2) + val.toNat) := by
  obtain ⟨first, tail, rfl, h, hv⟩ := h
  have hf := first.toNat_lt
  have hl := beNat_lt tail
  have hp := two_pow_word h.symm
  refine ⟨first.toNat / 64, by omega, ?_, ?_⟩
  · rw [hp, hv]
    calc first.toNat % 64 * 256 ^ tail.length + beNat tail
        < (first.toNat % 64 + 1) * 256 ^ tail.length := by rw [Nat.add_mul, Nat.one_mul]; omega
      _ ≤ 64 * 256 ^ tail.length := Nat.mul_le_mul_right _ (by omega)
  have hb : first.toNat / 64 * 2 ^ (8 * 2 ^ (first.toNat / 64) - 2) + val.toNat = beNat (first :: tail) := by
    rw [hp, hv, beNat_cons, ← Nat.mul_assoc, ← Nat.add_assoc, ← Nat.add_mul]
    congr 2; omega
  rw [hb, ← h, beBytes_beNat]

theorem decodeVarint_beBytes {k v : Nat} (hk : k < 4) (hv : v < 2 ^ (8 * 2 ^ k - 2)) (rest : List UInt8) :
    decodeVarint (beBytes (2 ^ k) (k * 2 ^ (8 * 2 ^ k - 2) + v) ++ rest) = .ok (UInt64.ofNat v, rest) :=
  (reads_decodeVarint _ _ _).mpr ⟨_, varintText_beBytes hk hv, rfl⟩

theorem toNat_maxVarint : maxVarint.toNat = 2 ^ 62 - 1 := by decide

theorem or_two_pow_mul {v i : Nat} (h : v < 2 ^ i) (a : Nat) : v ||| 2 ^ i * a = a * 2 ^ i + v := by
  rw [Nat.or_comm, ← Nat.two_pow_add_eq_or_of_lt h, Nat.mul_comm]

/-- The encoder's words, by the length of the encoding. -/
theorem encodeVarint_eq {val : UInt64} (h : val ≤ maxVarint) :
    ∃ k, k < 4 ∧ varintLen val = 2 ^ k ∧ val.toNat < 2 ^ (8 * 2 ^ k - 2) ∧
      encodeVarint val = .ok (beBytes (2 ^ k) (k * 2 ^ (8 * 2 ^ k - 2) + val.toNat)) := by
  have hn : ¬ val > maxVarint := UInt64.not_lt.mpr h
  rw [UInt64.le_iff_toNat_le, toNat_maxVarint] at h
  unfold encodeVarint varintLen
  rw [if_neg hn]
  simp only [UInt64.le_iff_toNat_le, UInt64.reduceToNat]
  by_cases h1 : val.toNat ≤ 63
  · refine ⟨0, by decide, by simp [h1], by omega, ?_⟩
    simp only [h1, if_true, u8TryFrom]
    rw [if_pos (by omega)]
    simp only [beBytes, Nat.reducePow, Nat.reduceMul, Nat.reduceSub, nil_append, Nat.zero_mul, Nat.zero_add]
    rw [Nat.mod_eq_of_lt (by omega)]
  by_cases h2 : val.toNat ≤ 16383
  · refine ⟨1, by decide, by simp [h1, h2], by omega, ?_⟩
    simp only [h1, h2, if_true, if_false, u16TryFrom]
    rw [if_pos (by omega)]
    simp only [UInt16.toNat_or, UInt16.toNat_ofNat', UInt16.reduceToNat]
    show _ = Except.ok (beBytes 2 (1 * 2 ^ 14 + val.toNat))
    rw [Nat.mod_eq_of_lt (by omega), show (16384 : Nat) = 2 ^ 14 * 1 from rfl, or_two_pow_mul (by omega)]
  by_cases h4 : val.toNat ≤ 1073741823
  · refine ⟨2, by decide, by simp [h1, h2, h4], by omega, ?_⟩
    simp only [h1, h2, h4, if_true, if_false, u32TryFrom]
    rw [if_pos (by omega)]
    simp only [UInt32.toNat_or, UInt32.toNat_ofNat', UInt32.reduceToNat]
    show _ = Except.ok (beBytes 4 (2 * 2 ^ 30 + val.toNat))
    rw [Nat.mod_eq_of_lt (by omega), show (2147483648 : Nat) = 2 ^ 30 * 2 from rfl, or_two_pow_mul (by omega)]
  · refine ⟨3, by decide, by simp [h1, h2, h4], by omega, ?_⟩
    simp only [h1, h2, h4, if_false]
    simp only [UInt64.toNat_or, UInt64.reduceToNat]
    show _ = Except.ok (beBytes 8 (3 * 2 ^ 62 + val.toNat))
    rw [show (13835058055282163712 : Nat) = 2 ^ 62 * 3 from rfl, or_two_pow_mul (by omega)]

/-- What the encoder emits has the announced length and decodes to the value,
whatever follows it. -/
theorem encodeVarint_ok {val : UInt64} (h : val ≤ maxVarint) :
    ∃ bs, encodeVarint val = .ok bs ∧ bs.length = varintLen val ∧
      ∀ rest, decodeVarint (bs ++ rest) = .ok (val, rest) := by
  obtain ⟨k, hk, hl, hv, he⟩ := encodeVarint_eq h
  refine ⟨_, he, by rw [length_beBytes, hl], fun rest => ?_⟩
  rw [decodeVarint_beBytes hk hv, UInt64.ofNat_toNat]

end Hysteria.Proof
