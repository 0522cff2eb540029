import Mathlib.Tactic.Ring
import Hysteria.Proof.Transport.AckRate

/-!
# Brutal's window and pacing rate

`Bounded` holds of every state that fewer than `2⁶¹` reported packets lead to:
the ack rate is between 4/5 and 1. From it the window and the pacing rate are
the exact ones for the bandwidth, up to a factor of 5/4 (`brutal_bounds`).
`adaptive_brutal`: in the adaptive controller Brutal sees some of the events.
-/

namespace Hysteria.Proof

open Framework Impl Spec List

variable {b : Brutal} {tot : Nat}

/-! ## The ack rate -/

/-- An ack rate between 4/5 and 1. -/
structure RateBounds (numerator denominator : Nat) : Prop where
  pos : 0 < numerator
  atMost : numerator ≤ denominator
  atLeast : 4 * denominator ≤ 5 * numerator
  small : denominator < 2 ^ 61

theorem rateBounds_one : RateBounds 1 1 := ⟨by decide, by decide, by decide, by decide⟩

theorem rateBounds_ratePair {acks losses : Nat} (h : acks + losses < 2 ^ 61) :
    RateBounds (ratePair acks losses).1 (ratePair acks losses).2 := by
  unfold ratePair
  split
  · exact rateBounds_one
  split
  · exact ⟨by decide, by decide, by decide, by decide⟩
  · exact ⟨by omega, by omega, by omega, h⟩

/-- The packets in all slots. -/
def slotTotal (b : Brutal) : Nat := ∑ i, ((ringOf b i).value.1 + (ringOf b i).value.2)

/-- At most `total` packets are in the slots. -/
structure Bounded (total : Nat) (b : Brutal) : Prop where
  slots : slotTotal b ≤ total
  rate : RateBounds b.ackRateNumerator b.ackRateDenominator

theorem saturating64_le (n : Nat) : saturating64 n ≤ n := Nat.min_le_left _ _

theorem recordSlot_le (info : PacketInfo) (ts acknowledgements losses : Nat) :
    let info' := Brutal.recordSlot info ts acknowledgements losses
    info'.ackCount + info'.lossCount ≤ info.ackCount + info.lossCount + (acknowledgements + losses) := by
  have ha := saturating64_le (info.ackCount + acknowledgements)
  have hl := saturating64_le (info.lossCount + losses)
  unfold Brutal.recordSlot
  split <;> simp only <;> omega

theorem slotTotal_set (b : Brutal) (slot : Fin sampleSlotCount) {info : PacketInfo} {more : Nat}
    (h : info.ackCount + info.lossCount ≤ (ringOf b slot).value.1 + (ringOf b slot).value.2 + more) :
    slotTotal { b with slots := b.slots.set slot info } ≤ slotTotal b + more := by
  unfold slotTotal
  rw [ringOf_set]
  calc ∑ i, _ ≤ ∑ i, ((ringOf b i).value.1 + (ringOf b i).value.2 + if i = slot then more else 0) := by
        refine Finset.sum_le_sum fun i _ => ?_
        by_cases hi : i = slot
        · subst hi
          rw [Function.update_self, if_pos rfl]
          exact h
        grind
    _ = _ := by simp [Finset.sum_add_distrib]

theorem slotTotal_record (b : Brutal) (now acknowledgements losses : Nat) :
    slotTotal (b.record now acknowledgements losses) ≤ slotTotal b + (acknowledgements + losses) := by
  rw [Brutal.record, slotTotal, ringOf_updateAckRate]
  exact slotTotal_set b _ (recordSlot_le _ _ _ _)

theorem since_le_slotTotal (b : Brutal) (lo : Nat) :
    ((ringOf b).since lo).1 + ((ringOf b).since lo).2 ≤ slotTotal b := by
  rw [TimeRing.since, Prod.fst_sum, Prod.snd_sum, ← Finset.sum_add_distrib, slotTotal]
  refine Finset.sum_le_sum fun i _ => ?_
  split
  · exact Nat.le_refl _
  · exact Nat.zero_le _

theorem Bounded.record (h : Bounded tot b) (now acknowledgements losses : Nat)
    (hf : tot + (acknowledgements + losses) < 2 ^ 61) :
    Bounded (tot + (acknowledgements + losses)) (b.record now acknowledgements losses) := by
  have hs : slotTotal (b.record now acknowledgements losses) ≤ tot + (acknowledgements + losses) :=
    Nat.le_trans (slotTotal_record b now acknowledgements losses) (Nat.add_le_add_right h.slots _)
  refine ⟨hs, ?_⟩
  cases hc : b.control.disableLossCompensation with
  | true =>
    rw [Brutal.record, Brutal.updateAckRate, if_pos hc]
    exact rateBounds_one
  | false =>
    have hle := since_le_slotTotal (b.record now acknowledgements losses) (b.timestamp now - sampleSlotCount)
    cases hsm : (ringOf (b.record now acknowledgements losses)).since (b.timestamp now - sampleSlotCount) with
    | mk acks lost =>
    have hb := rateBounds_ratePair (Nat.lt_of_le_of_lt (Nat.le_trans hle hs) hf)
    grind [record_rate]

/-! ## Runs -/

/-- The packets that an event reports. -/
def packetsIn : CongestionEvent → Nat
  | .ack _ _ => 1
  | .congestion _ lostPackets => lostPackets
  | .mtuUpdate _ => 0
  | .setBrutalBandwidth _ => 0

def reported (events : List CongestionEvent) : Nat := (events.map packetsIn).sum

theorem Bounded.handle (h : Bounded tot b) {ev : CongestionEvent} (hf : tot + packetsIn ev < 2 ^ 61) :
    Bounded (tot + packetsIn ev) (b.handle ev) := by
  cases ev with
  | ack now rtt =>
    have hrt : Bounded tot { b with smoothedRtt := rtt } := ⟨h.slots, h.rate⟩
    exact hrt.record now 1 0 hf
  | congestion now lostPackets =>
    unfold Brutal.handle Brutal.onCongestionEvent
    simp only
    split
    · have hr := h.record now 0 lostPackets
      rw [Nat.zero_add] at hr
      exact hr hf
    · exact ⟨Nat.le_trans h.slots (Nat.le_add_right _ _), h.rate⟩
  | mtuUpdate newMtu => exact ⟨h.slots, h.rate⟩
  | setBrutalBandwidth bytesPerSecond =>
    unfold Brutal.handle Brutal.setBandwidth
    simp only
    split
    · exact ⟨h.slots, h.rate⟩
    · exact h

theorem bounded_new (ctl : BrutalControl) (orig : Nat) (mtu : UInt16) : Bounded 0 (Brutal.new ctl orig mtu) := by
  refine ⟨?_, rateBounds_one⟩
  simp [slotTotal, ringOf, slotOf, Brutal.new]

theorem Bounded.run (evs : List CongestionEvent) (h : Bounded tot b) (hf : tot + reported evs < 2 ^ 61) :
    Bounded (tot + reported evs) (evs.foldl Brutal.handle b) := by
  induction evs generalizing tot b with
  | nil => exact h
  | cons ev evs ih =>
    rw [reported, map_cons, sum_cons, ← Nat.add_assoc] at hf ⊢
    exact ih (h.handle (by omega)) hf

/-! ## The window -/

theorem saturating128_of_lt {n : Nat} (h : n < 2 ^ 128) : saturating128 n = n := by
  rw [saturating128]
  omega

theorem saturating128_le (n : Nat) : saturating128 n ≤ n := Nat.min_le_left _ _

theorem saturating128_mono {m n : Nat} (h : m ≤ n) : saturating128 m ≤ saturating128 n :=
  Nat.le_min.mpr ⟨Nat.le_trans (Nat.min_le_left _ _) h, Nat.min_le_right _ _⟩

variable {num den : Nat}

/-- Dividing by the ack rate does not make less. -/
theorem RateBounds.div_le (h : RateBounds num den) (x c : Nat) : x / c ≤ x * den / (c * num) := by
  rw [← Nat.mul_div_mul_right x c h.pos]
  exact Nat.div_le_div_right (Nat.mul_le_mul_left x h.atMost)

/-- Dividing by the ack rate does not make more than 5/4 of it. -/
theorem RateBounds.le_div (h : RateBounds num den) (x : Nat) {c : Nat} (hc : 0 < c) :
    x * den / (c * num) ≤ 5 * x / (4 * c) := by
  rw [Nat.le_div_iff_mul_le (by omega)]
  have hq := Nat.div_mul_le_self (x * den) (c * num)
  generalize x * den / (c * num) = q at hq ⊢
  refine Nat.le_of_mul_le_mul_right ?_ h.pos
  calc q * (4 * c) * num = 4 * (q * (c * num)) := by ring
    _ ≤ 4 * (x * den) := Nat.mul_le_mul_left 4 hq
    _ = x * (4 * den) := by ring
    _ ≤ x * (5 * num) := Nat.mul_le_mul_left x h.atLeast
    _ = 5 * x * num := by ring

/-- The quotient of `target_window`, as the code computes it. -/
def windowQuotient (b : Brutal) : Nat :=
  saturating128 (saturating128 (saturating128 (b.control.bandwidth.toNat * b.smoothedRtt) * 2) *
    b.ackRateDenominator) / (1000000000 * b.ackRateNumerator)

theorem window_eq (h : RateBounds b.ackRateNumerator b.ackRateDenominator) (hr : 0 < b.smoothedRtt) :
    b.window = max (saturating64 (windowQuotient b)) b.mtu.toNat := by
  have hn : max b.ackRateNumerator 1 = b.ackRateNumerator := Nat.max_eq_left h.pos
  have hs := Nat.lt_of_le_of_lt h.atMost h.small
  unfold Brutal.window Brutal.targetWindow windowQuotient
  rw [if_neg (by omega), hn, saturating128_of_lt (by omega : 1000000000 * b.ackRateNumerator < 2 ^ 128)]
  rfl

/-- Nothing saturates as long as the whole product does not. -/
theorem windowQuotient_eq (h : RateBounds b.ackRateNumerator b.ackRateDenominator)
    (hp : b.control.bandwidth.toNat * b.smoothedRtt * 2 * b.ackRateDenominator < 2 ^ 128) :
    windowQuotient b =
      b.control.bandwidth.toNat * b.smoothedRtt * 2 * b.ackRateDenominator / (1000000000 * b.ackRateNumerator) := by
  have hd : 1 ≤ b.ackRateDenominator := Nat.le_trans h.pos h.atMost
  have ht := Nat.lt_of_le_of_lt (Nat.le_mul_of_pos_right _ hd) hp
  have ho : b.control.bandwidth.toNat * b.smoothedRtt < 2 ^ 128 := by omega
  rw [windowQuotient, saturating128_of_lt ho, saturating128_of_lt ht, saturating128_of_lt hp]

theorem windowQuotient_le (b : Brutal) : windowQuotient b ≤
      b.control.bandwidth.toNat * b.smoothedRtt * 2 * b.ackRateDenominator / (1000000000 * b.ackRateNumerator) := by
  refine Nat.div_le_div_right (Nat.le_trans (saturating128_le _) (Nat.mul_le_mul_right _ ?_))
  exact Nat.le_trans (saturating128_le _) (Nat.mul_le_mul_right _ (saturating128_le _))

theorem le_window (h : RateBounds b.ackRateNumerator b.ackRateDenominator) (hr : 0 < b.smoothedRtt)
    (hp : b.control.bandwidth.toNat * b.smoothedRtt * 2 * b.ackRateDenominator < 2 ^ 128)
    (hf : 2 * b.control.bandwidth.toNat * b.smoothedRtt / 10 ^ 9 < 2 ^ 64) :
    max b.mtu.toNat (2 * b.control.bandwidth.toNat * b.smoothedRtt / 10 ^ 9) ≤ b.window := by
  have hle := h.div_le (b.control.bandwidth.toNat * b.smoothedRtt * 2) 1000000000
  rw [show b.control.bandwidth.toNat * b.smoothedRtt * 2 = 2 * b.control.bandwidth.toNat * b.smoothedRtt by ring] at hle
  rw [window_eq h hr, windowQuotient_eq h hp, Nat.max_comm b.mtu.toNat,
    show b.control.bandwidth.toNat * b.smoothedRtt * 2 = 2 * b.control.bandwidth.toNat * b.smoothedRtt by ring]
  refine max_le_max_right _ (Nat.le_min.mpr ⟨hle, ?_⟩)
  omega

theorem window_le (h : RateBounds b.ackRateNumerator b.ackRateDenominator) (hr : 0 < b.smoothedRtt) :
    b.window ≤ max b.mtu.toNat (5 * b.control.bandwidth.toNat * b.smoothedRtt / (2 * 10 ^ 9)) := by
  rw [window_eq h hr, Nat.max_comm b.mtu.toNat]
  refine max_le_max_right _ (Nat.le_trans (saturating64_le _) (Nat.le_trans (windowQuotient_le b) ?_))
  calc _ ≤ 5 * (b.control.bandwidth.toNat * b.smoothedRtt * 2) / (4 * 1000000000) := h.le_div _ (by decide)
    _ = 2 * (5 * b.control.bandwidth.toNat * b.smoothedRtt) / (2 * (2 * 10 ^ 9)) := by
      congr 1
      ring
    _ = _ := Nat.mul_div_mul_left _ _ (by decide)

/-- More bandwidth or a longer way does not make the window smaller. -/
theorem window_mono {b' : Brutal} (h : RateBounds b.ackRateNumerator b.ackRateDenominator) (hr : 0 < b.smoothedRtt)
    (hn : b'.ackRateNumerator = b.ackRateNumerator) (hd : b'.ackRateDenominator = b.ackRateDenominator)
    (hm : b'.mtu = b.mtu) (hbw : b.control.bandwidth ≤ b'.control.bandwidth) (hle : b.smoothedRtt ≤ b'.smoothedRtt) :
    b.window ≤ b'.window := by
  have h' : RateBounds b'.ackRateNumerator b'.ackRateDenominator := by
    rw [hn, hd]
    exact h
  rw [window_eq h hr, window_eq h' (Nat.lt_of_lt_of_le hr hle), hm]
  refine max_le_max_right _ (Nat.le_min.mpr ⟨Nat.le_trans (Nat.min_le_left _ _) (?_), Nat.min_le_right _ _⟩)
  unfold windowQuotient
  rw [hn, hd]
  refine Nat.div_le_div_right (saturating128_mono (Nat.mul_le_mul_right _ (saturating128_mono
    (Nat.mul_le_mul_right _ (saturating128_mono ?_)))))
  exact Nat.mul_le_mul (UInt64.le_iff_toNat_le.mp hbw) hle

/-! ## The pacing rate -/

theorem pacing_bounds (h : RateBounds b.ackRateNumerator b.ackRateDenominator) :
    b.control.bandwidth.toNat ≤ saturating64 b.pacingBytesPerSecond ∧
      saturating64 b.pacingBytesPerSecond ≤ 5 * b.control.bandwidth.toNat / 4 := by
  have hn : max b.ackRateNumerator 1 = b.ackRateNumerator := Nat.max_eq_left h.pos
  have hbw := b.control.bandwidth.toNat_lt
  have hp : b.control.bandwidth.toNat * b.ackRateDenominator < 2 ^ 128 :=
    Nat.lt_of_lt_of_le (Nat.mul_lt_mul'' hbw h.small) (by decide)
  have hq : b.pacingBytesPerSecond =
      b.control.bandwidth.toNat * b.ackRateDenominator / (1 * b.ackRateNumerator) := by
    rw [Brutal.pacingBytesPerSecond, saturating128_of_lt hp, hn, Nat.one_mul]
  have hl := h.div_le b.control.bandwidth.toNat 1
  have hu := h.le_div b.control.bandwidth.toNat (c := 1) (by decide)
  rw [← hq] at hl hu
  rw [Nat.div_one] at hl
  refine ⟨Nat.le_min.mpr ⟨hl, by omega⟩, ?_⟩
  exact Nat.le_trans (saturating64_le _) hu

/-! ## Every state -/

/-- In every state that fewer than `2⁶¹` reported packets lead to: the ack rate
is between 4/5 and 1, the window is the product of bandwidth and smoothed RTT
times 2 to 5/2 and at least the MTU, the pacing rate is 1 to 5/4 times the
bandwidth, and for the same ack rate the window is monotone. -/
theorem brutal_bounds (control : BrutalControl) (origin : Nat) (mtu : UInt16) (events : List CongestionEvent)
    (hfew : reported events < 2 ^ 61) :
    let b := events.foldl Brutal.handle (Brutal.new control origin mtu)
    let bw := b.control.bandwidth.toNat
    let rtt := b.smoothedRtt
    (0 < b.ackRateNumerator ∧ b.ackRateNumerator ≤ b.ackRateDenominator ∧
        4 * b.ackRateDenominator ≤ 5 * b.ackRateNumerator) ∧
      (0 < rtt → bw * rtt * 2 * b.ackRateDenominator < 2 ^ 128 →
        (2 * bw * rtt / 10 ^ 9 < 2 ^ 64 → max b.mtu.toNat (2 * bw * rtt / 10 ^ 9) ≤ b.window) ∧
          b.window ≤ max b.mtu.toNat (5 * bw * rtt / (2 * 10 ^ 9))) ∧
      (∃ bs, b.pacingRate = saturating64 (bs * 8) ∧ bw ≤ bs ∧ bs ≤ 5 * bw / 4) ∧
      ∀ (slower faster : UInt64) (near far : Nat), slower ≤ faster → 0 < near → near ≤ far →
        Brutal.window { b with control := { b.control with bandwidth := slower }, smoothedRtt := near } ≤
          Brutal.window { b with control := { b.control with bandwidth := faster }, smoothedRtt := far } := by
  intro b bw rtt
  have hb : Bounded (0 + reported events) b := (bounded_new control origin mtu).run events (by omega)
  have hr := hb.rate
  refine ⟨⟨hr.pos, hr.atMost, hr.atLeast⟩, ?_, ?_, ?_⟩
  · intro hrt hp
    exact ⟨le_window hr hrt hp, window_le hr hrt⟩
  · obtain ⟨hl, hu⟩ := pacing_bounds hr
    exact ⟨_, rfl, hl, hu⟩
  intro slower faster near far hbw hn hle
  refine window_mono ?_ hn rfl rfl rfl hbw hle
  exact hr

/-- 80 acknowledgements and 20 losses, at a megabyte a second and 100 ms. -/
theorem brutal_bounds_losses :
    let control : BrutalControl := { enabled := false, bandwidth := 0, disableLossCompensation := false }
    let evs := .setBrutalBandwidth 1000000 :: replicate 80 (.ack 1000000000 100000000) ++ [.congestion 1500000000 20]
    let b := evs.foldl Brutal.handle (Brutal.new control 0 1200)
    b.window = 250000 ∧ 200000 ≤ b.window ∧ b.window ≤ 250000 ∧ b.pacingRate = 10000000 := by
  intro control evs b
  obtain ⟨-, hw, -, -⟩ := brutal_bounds control 0 1200 evs (by decide)
  have hst : b.smoothedRtt = 100000000 ∧ b.control.bandwidth = 1000000 ∧ b.mtu = 1200 ∧
      b.ackRateDenominator = 100 ∧ b.window = 250000 ∧ b.pacingRate = 10000000 := by
    decide +kernel
  obtain ⟨hr, hbw, hm, hd, he, hp⟩ := hst
  rw [show evs.foldl Brutal.handle (Brutal.new control 0 1200) = b from rfl, hr, hbw, hm, hd] at hw
  obtain ⟨hl, hu⟩ := hw (by decide) (by decide)
  exact ⟨he, hl (by decide), hu, hp⟩

/-! ## In the adaptive controller -/

theorem brutal_handle {φ : Type} (controller : Fallback φ) (a : AdaptiveCongestion φ) (ev : CongestionEvent) :
    (a.handle controller ev).brutal = a.brutal.handle ev ∨ (a.handle controller ev).brutal = a.brutal := by
  unfold AdaptiveCongestion.handle
  split
  · exact .inl rfl
  · exact .inl rfl
  grind

/-- Brutal sees some of the events, and `brutal_bounds` is about its run on these. -/
theorem adaptive_brutal {φ : Type} (controller : Fallback φ) (evs : List CongestionEvent) (a : AdaptiveCongestion φ) :
    ∃ seen : List CongestionEvent, seen.Sublist evs ∧
      (evs.foldl (AdaptiveCongestion.handle controller) a).brutal = seen.foldl Brutal.handle a.brutal := by
  induction evs generalizing a with
  | nil => exact ⟨[], .slnil, rfl⟩
  | cons ev evs ih =>
    obtain ⟨seen, hs, hr⟩ := ih (a.handle controller ev)
    rw [foldl_cons, hr]
    rcases brutal_handle controller a ev with hss | hsm
    · rw [hss]
      exact ⟨ev :: seen, hs.cons_cons ev, rfl⟩
    grind

end Hysteria.Proof
