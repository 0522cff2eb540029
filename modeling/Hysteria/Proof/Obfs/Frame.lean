import Mathlib.Data.Vector.Defs
import Hysteria.Spec.Reassembly

/-!
# Gecko frames and Salamander packets

`decode_encode`: a frame with a valid index and padding that fits comes back
from its encoding. `deobfuscate_obfuscate`: so does what Salamander hides, under
any salt.
-/

namespace Hysteria.Proof

open Framework Impl Spec
open List hiding Vector

/-! ## Salamander -/

theorem applyKey_applyKey (key : Vector UInt8 keyLength) (bs : List UInt8) :
    Salamander.applyKey key (Salamander.applyKey key bs) = bs := by
  apply ext_getElem
  · simp [Salamander.applyKey]
  · intro i hi hi'
    simp only [Salamander.applyKey, getElem_mapIdx]
    exact xor_xor_self _ _

variable {blake2b : List UInt8 → Vector UInt8 keyLength} {s : Salamander}

theorem length_obfuscate (pay : List UInt8) (salt : Vector UInt8 saltLength) :
    (s.obfuscate blake2b pay salt).length = saltLength + pay.length := by
  simp [Salamander.obfuscate, Salamander.applyKey]

theorem deobfuscate_obfuscate {pay : List UInt8} (h : pay ≠ []) (salt : Vector UInt8 saltLength) :
    s.deobfuscate blake2b (s.obfuscate blake2b pay salt) = .ok pay := by
  have hp : 0 < pay.length := length_pos_iff.mpr h
  have hs : salt.toList.length = saltLength := Vector.length_toList
  unfold Salamander.deobfuscate
  rw [if_neg (by rw [length_obfuscate]; omega), Salamander.obfuscate, take_left' hs, drop_left' hs, applyKey_applyKey]

/-! ## Frames -/

namespace GeckoFrame

variable {fr : GeckoFrame} {input bs : List UInt8}

theorem validateFragment_ok_iff {idx tot : UInt8} :
    validateFragment idx tot = .ok () ↔ 2 ≤ tot.toNat ∧ tot.toNat ≤ 8 ∧ idx.toNat < tot.toNat := by
  unfold validateFragment
  simp only [minFragmentCount, maxFragmentCount, UInt8.le_iff_toNat_le, UInt8.reduceToNat, ge_iff_le]
  split
  · grind
  grind

theorem validFrame_of_decode (h : GeckoFrame.decode input = .ok fr) : ValidFrame fr := by
  unfold GeckoFrame.decode at h
  split at h <;> [skip; cases h]
  rename_i flags mid chunk high low rest
  simp only [bind, Except.bind, throw, throwThe, MonadExceptOf.throw, pure, Except.pure] at h
  split at h <;> [cases h; skip]
  split at h <;> [cases h; skip]
  rename_i hv
  split at h <;> [cases h; skip]
  cases h
  obtain ⟨hge, hle, hi⟩ := validateFragment_ok_iff.mp hv
  exact ⟨hge, hle, hi⟩

theorem chunk_byte {idx tot : UInt8} (ht : tot.toNat ≤ 8) (hi : idx.toNat < tot.toNat) :
    (idx <<< 4 ||| (tot &&& 0x0f)) >>> 4 = idx ∧ (idx <<< 4 ||| (tot &&& 0x0f)) &&& 0x0f = tot := by
  have ha : ∀ t ≤ 8, ∀ i < t, (UInt8.ofNat i <<< 4 ||| (UInt8.ofNat t &&& 0x0f)) >>> 4 = UInt8.ofNat i ∧
      (UInt8.ofNat i <<< 4 ||| (UInt8.ofNat t &&& 0x0f)) &&& 0x0f = UInt8.ofNat t := by decide
  grind [UInt8.ofNat_toNat]

theorem decode_encode (hfr : ValidFrame fr) (hp : fr.padding.length < 2 ^ 16) :
    ∃ rest, fr.encode = .ok (fragmentFlag :: rest) ∧ GeckoFrame.decode (fragmentFlag :: rest) = .ok fr := by
  have hv := validateFragment_ok_iff.mpr ⟨hfr.atLeast, hfr.atMost, hfr.index⟩
  obtain ⟨hi, ht⟩ := chunk_byte hfr.atMost hfr.index
  have hl : (UInt16.ofNat fr.padding.length).toNat = fr.padding.length := by
    exact Nat.mod_eq_of_lt hp
  obtain ⟨high, low, hbs⟩ : ∃ high low, beBytes 2 fr.padding.length = [high, low] := ⟨_, _, rfl⟩
  have hn : beNat [high, low] = fr.padding.length := by
    rw [← hbs]
    exact beNat_beBytes (n := 2) hp
  refine ⟨fr.messageId :: (fr.chunkIndex <<< 4 ||| (fr.totalChunks &&& 0x0f)) :: high :: low ::
    (fr.padding ++ fr.payload), ?_, ?_⟩
  · unfold GeckoFrame.encode
    rw [hv, u16TryFrom, if_pos hp]
    simp only [hl, hbs, append_assoc]
    rfl
  simp only [GeckoFrame.decode, hi, ht, hv, hn]
  rw [if_neg (by decide), if_neg (by simp [headerLength]; omega)]
  simp only [take_left, drop_left]
  rfl

end GeckoFrame

end Hysteria.Proof
