import Hysteria.Impl.Sniff
import Hysteria.Proof.Transport.Http3Alps
import Hysteria.Proof.Transport.TcpStream

/-!
# The varint decoders

There are four: `decodeVarint` for messages, `readVarint` for streams,
`readQuicVarint` for sniffed packets and `Alps.varint` for TLS application
settings. The others are compared with `decodeVarint`: `readQuicVarint_eq`,
`varint_toOption`, and `agrees_readVarint` for the stream.

`decodeVarint_ok` says how large a value of a given length can be, so no
encoding of a value is shorter than the one that `encodeVarint` makes.
-/

namespace Hysteria.Proof

open Framework StreamReader Impl List

variable {s rest : List UInt8} {val : UInt64}

/-! ## Readers of a byte string -/

/-- After the first byte the index does not matter. -/
theorem foldl_zipIdx (bs : List UInt8) (n : Nat) (val : UInt64) : (bs.zipIdx (n + 1)).foldl
      (fun (val : UInt64) (byte, index) => val <<< 8 ||| (if index = 0 then byte &&& 0x3f else byte).toUInt64)
      val = bs.foldl (fun (val : UInt64) byte => val <<< 8 ||| byte.toUInt64) val := by
  induction bs generalizing n val with
  | nil => rfl
  | cons byte bs ih =>
    grind

theorem zero_shl_or (val : UInt64) : (0 : UInt64) <<< 8 ||| val = val := by simp

theorem readQuicVarint_eq (s : List UInt8) :
    readQuicVarint s = (decodeVarint s).toOption.map fun (val, rest) => (val, s.length - rest.length) := by
  rcases s with _ | ⟨first, bs⟩
  · rfl
  simp only [readQuicVarint, decodeVarint, head?_cons, Option.bind_eq_bind, Option.bind_some]
  have hp := one_shiftLeft_pos (first >>> 6).toNat
  generalize 1 <<< (first >>> 6).toNat = len at hp ⊢
  by_cases hsh : (first :: bs).length < len
  · rw [if_pos hsh, if_pos hsh]
    rfl
  obtain ⟨n, rfl⟩ : ∃ n, len = n + 1 := ⟨len - 1, by omega⟩
  rw [if_neg hsh, if_neg hsh, take_succ_cons, zipIdx_cons, foldl_cons, foldl_zipIdx]
  simp only [if_true, zero_shl_or, Nat.add_sub_cancel, Except.toOption, Option.map_some, drop_succ_cons,
    length_drop, length_cons, Option.some.injEq, Prod.mk.injEq, true_and]
  simp only [length_cons] at hsh
  omega

theorem decodeVarint_of_read {n : Nat} (h : readQuicVarint s = some (val, n)) :
    ∃ rest, decodeVarint s = .ok (val, rest) ∧ n = s.length - rest.length := by
  rw [readQuicVarint_eq] at h
  rcases hd : decodeVarint s with err | ⟨val', rest⟩ <;> rw [hd] at h <;> cases h
  exact ⟨rest, rfl, rfl⟩

/-! ## The shortest encoding -/

/-- An encoding of `2 ^ k` bytes has a value of `8 * 2 ^ k - 2` bits. -/
theorem decodeVarint_ok (h : decodeVarint s = .ok (val, rest)) :
    ∃ k, k < 4 ∧ s.length = 2 ^ k + rest.length ∧ val.toNat < 2 ^ (8 * 2 ^ k - 2) := by
  obtain ⟨txt, ht, rfl⟩ := (reads_decodeVarint s val rest).mp h
  obtain ⟨k, hk, hv, rfl⟩ := beBytes_of_varintText ht
  exact ⟨k, hk, by rw [length_append, length_beBytes], hv⟩

theorem decodeVarint_suffix (h : decodeVarint s = .ok (val, rest)) : rest <:+ s := by
  obtain ⟨txt, -, rfl⟩ := (reads_decodeVarint s val rest).mp h
  exact suffix_append txt rest

theorem varintLen_le {k : Nat} (hk : k < 4) (h : val.toNat < 2 ^ (8 * 2 ^ k - 2)) : varintLen val ≤ 2 ^ k := by
  unfold varintLen
  simp only [UInt64.le_iff_toNat_le, UInt64.reduceToNat]
  obtain rfl | rfl | rfl | rfl : k = 0 ∨ k = 1 ∨ k = 2 ∨ k = 3 := by omega
  all_goals
    grind

/-! ## All of them -/

/-- The four decoders accept the same byte strings, with the same value and as
many bytes read. They read back what `encodeVarint` writes, which is the shortest
encoding, and it fails on what has none. -/
theorem varint_decoders_agree (texts : StreamTexts) : (∀ s, readQuicVarint s =
          (decodeVarint s).toOption.map (fun (value, rest) => (value, s.length - rest.length)) ∧
        (Alps.varint s).toOption = (decodeVarint s).toOption ∧
        ((readVarint texts).run s).toOption = (decodeVarint s).toOption ∧
        ∀ value rest, decodeVarint s = .ok (value, rest) → rest <:+ s) ∧
    (∀ value : UInt64, value.toNat < 2 ^ 62 → ∃ bytes, encodeVarint value = .ok bytes ∧
        (∀ suffix, decodeVarint (bytes ++ suffix) = .ok (value, suffix) ∧
          readQuicVarint (bytes ++ suffix) = some (value, bytes.length) ∧
          Alps.varint (bytes ++ suffix) = .ok (value, suffix) ∧
          (readVarint texts).run (bytes ++ suffix) = .ok (value, suffix)) ∧
        ∀ s rest, decodeVarint s = .ok (value, rest) → bytes.length ≤ s.length - rest.length) ∧
    ∀ value : UInt64, 2 ^ 62 ≤ value.toNat → encodeVarint value = .error (.varintTooLarge value) := by
  refine ⟨?_, ?_, ?_⟩
  · intro s
    exact ⟨readQuicVarint_eq s, varint_toOption s, agrees_readVarint texts s, fun value rest => decodeVarint_suffix⟩
  · intro value hv
    have hm : value ≤ maxVarint := by
      rw [UInt64.le_iff_toNat_le, toNat_maxVarint]
      omega
    obtain ⟨bytes, he, hln, hd⟩ := encodeVarint_ok hm
    refine ⟨bytes, he, ?_, ?_⟩
    · intro suffix
      refine ⟨hd suffix, ?_, ?_, (agrees_readVarint texts).ok_iff.mpr (hd suffix)⟩
      · rw [readQuicVarint_eq, hd suffix]
        simp [Except.toOption]
      · exact (ok_iff_of_toOption (varint_toOption _)).mpr (hd suffix)
    · intro s rest hs
      obtain ⟨k, hk, hlen, hb⟩ := decodeVarint_ok hs
      have hle := varintLen_le hk hb
      omega
  · intro value hv
    have hl : value > maxVarint := by
      assumption
    rw [encodeVarint, if_pos hl]

end Hysteria.Proof
