import Mathlib.Data.Nat.Dist
import Hysteria.Impl.Sniff

/-!
# Packet numbers

The number that `decode_packet_number` completes is the nearest one to the number that is
expected next: the numbers that end with the same bytes are a window apart
(`apart_of_mod_eq`), so one within half a window is the nearest. Where the number half a
window away is outside the range of packet numbers, the candidate is the last of them, or the first.
-/

namespace Hysteria.Proof

open Impl Impl.Sniff

variable {largest truncated length window m n : Nat}

theorem apart_of_mod_eq (h : m % window = n % window) : m = n ∨ m + window ≤ n ∨ n + window ≤ m := by
  have hd : window ∣ m - n := Nat.dvd_of_mod_eq_zero (Nat.sub_mod_eq_zero_of_mod_eq h)
  have hd' : window ∣ n - m := Nat.dvd_of_mod_eq_zero (Nat.sub_mod_eq_zero_of_mod_eq h.symm)
  rcases Nat.lt_trichotomy m n with hlt | rfl | hlt
  · have := Nat.le_of_dvd (by omega) hd'
    omega
  · exact .inl rfl
  · have := Nat.le_of_dvd (by omega) hd
    omega

/-- The candidate is in the same window as the number expected, and is a packet number. -/
theorem candidate_spec {expected : Nat} (he : expected < 2 ^ 62) (hd : window ∣ 2 ^ 62) (ht : truncated < window) :
    (expected / window * window + truncated) % window = truncated ∧
      expected / window * window + truncated < expected + window ∧
      expected < expected / window * window + truncated + window ∧
      expected / window * window + truncated < 2 ^ 62 := by
  have hl := Nat.div_mul_le_self expected window
  have hu := Nat.lt_div_mul_add (a := expected) (Nat.lt_of_le_of_lt (Nat.zero_le _) ht)
  have ha : expected / window * window % window = 2 ^ 62 % window := by
    rw [Nat.mul_mod_left, Nat.mod_eq_zero_of_dvd hd]
  have hm : (expected / window * window + truncated) % window = truncated := by
    rw [Nat.mul_add_mod', Nat.mod_eq_of_lt ht]
  refine ⟨hm, by omega, by omega, ?_⟩
  rcases apart_of_mod_eq ha with h | h | h <;> omega

/-- The candidate, or the number a window after or before it; no sum overflows. -/
theorem decodePacketNumber_cases (hl : largest < 2 ^ 62 - 1) (hn : length ≤ 4) (ht : truncated < 2 ^ (8 * length)) :
    ∃ candidate, candidate % 2 ^ (8 * length) = truncated ∧ candidate < largest + 1 + 2 ^ (8 * length) ∧
      largest + 1 < candidate + 2 ^ (8 * length) ∧ candidate < 2 ^ 62 ∧
      decodePacketNumber largest truncated length = .ok (
        if candidate + 2 ^ (8 * length) / 2 ≤ largest + 1 ∧ candidate < 2 ^ 62 - 2 ^ (8 * length) then
          candidate + 2 ^ (8 * length)
        else if candidate > largest + 1 + 2 ^ (8 * length) / 2 ∧ candidate ≥ 2 ^ (8 * length) then
          candidate - 2 ^ (8 * length)
        else candidate) := by
  have hu : 2 ^ (8 * length) ≤ 2 ^ 32 := Nat.pow_le_pow_right (by decide) (by omega)
  obtain ⟨hm, hb, ha, hr⟩ := candidate_spec (show largest + 1 < 2 ^ 62 by omega)
    (pow_dvd_pow 2 (show 8 * length ≤ 62 by omega)) ht
  refine ⟨_, hm, hb, ha, hr, ?_⟩
  have hs : ∀ {a b : Nat}, a < 2 ^ 62 → b < 2 ^ 62 → add a b = .ok (a + b) := fun ha hb => if_pos (by omega)
  unfold decodePacketNumber
  rw [Nat.mul_comm length 8, hs (by omega) (by decide)]
  simp only [bind, Except.bind, pure, Except.pure, if_neg (show ¬ 64 ≤ 8 * length by omega)]
  rw [show (largest + 1) / 2 ^ (8 * length) * 2 ^ (8 * length) ||| truncated = _ by
    rw [Nat.mul_comm, ← Nat.two_pow_add_eq_or_of_lt ht, Nat.mul_comm]]
  generalize (largest + 1) / 2 ^ (8 * length) * 2 ^ (8 * length) + truncated = candidate at *
  generalize 2 ^ (8 * length) = window at *
  simp only [hs hr (show window / 2 < 2 ^ 62 by omega), hs hr (show window < 2 ^ 62 by omega),
    hs (show largest + 1 < 2 ^ 62 by omega) (show window / 2 < 2 ^ 62 by omega)]
  split_ifs <;> rfl

theorem packet_number_nearest (largest truncated length : Nat) (hlargest : largest < 2 ^ 62 - 1)
    (hlength : 1 ≤ length ∧ length ≤ 4) (htruncated : truncated < 2 ^ (8 * length)) :
    ∃ number, decodePacketNumber largest truncated length = .ok number ∧ number < 2 ^ 62 ∧
      number % 2 ^ (8 * length) = truncated ∧ ∀ other < 2 ^ 62, other % 2 ^ (8 * length) = truncated →
        ¬ Nat.dist other (largest + 1) < Nat.dist number (largest + 1) := by
  obtain ⟨candidate, hm, hb, ha, hr, heq⟩ := decodePacketNumber_cases hlargest hlength.2 htruncated
  have hv : 2 ∣ 2 ^ (8 * length) := dvd_pow_self 2 (by omega)
  refine ⟨_, heq, ?_⟩
  generalize 2 ^ (8 * length) = window at *
  simp only [Nat.dist]
  split_ifs with hup hdown
  · refine ⟨by omega, by rwa [Nat.add_mod_right], fun other ho h => ?_⟩
    have := apart_of_mod_eq (h.trans hm.symm)
    omega
  · refine ⟨by omega, ?_, fun other ho h => ?_⟩
    · rwa [← Nat.add_mod_right, Nat.sub_add_cancel hdown.2]
    have := apart_of_mod_eq (h.trans hm.symm)
    omega
  · refine ⟨hr, hm, fun other ho h => ?_⟩
    have := apart_of_mod_eq (h.trans hm.symm)
    omega

theorem packet_number_nearest_twoBytes : decodePacketNumber 0xa82f30ea 0x9b32 2 = .ok 0xa82f9b32 ∧
    ∀ other < 2 ^ 62, other % 2 ^ 16 = 0x9b32 →
      ¬ Nat.dist other (0xa82f30ea + 1) < Nat.dist 0xa82f9b32 (0xa82f30ea + 1) := by
  obtain ⟨number, hd, -, -, h⟩ := packet_number_nearest 0xa82f30ea 0x9b32 2 (by decide) (by decide) (by decide)
  cases hd.symm.trans (show decodePacketNumber 0xa82f30ea 0x9b32 2 = .ok 0xa82f9b32 from rfl)
  exact ⟨hd, h⟩

end Hysteria.Proof
