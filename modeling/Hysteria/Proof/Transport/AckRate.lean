import Mathlib.Algebra.BigOperators.Pi
import Mathlib.Algebra.Order.BigOperators.Group.Finset
import Mathlib.Data.Rat.Cast.Order
import Mathlib.Tactic.FieldSimp
import Hysteria.Framework.TimeRing
import Hysteria.Spec.AckRate

/-!
# The slots stand for the history

`ringOf` is the ring of time slots that Brutal keeps. While fewer than `2⁶¹`
packets of either kind are reported nothing saturates, so that `record` is
`TimeRing.record` (`ringOf_record`) and `updateAckRate` has the exact counts
(`updateAckRate_eq`). `ack_rate_refines`: the ack rate is that of the history.
-/

namespace Hysteria.Proof

open Framework Impl Spec List

variable {b : Brutal} {control : BrutalControl} {orig : Nat} {mtu : UInt16} {reps : List Report}

theorem saturating64_of_lt {n : Nat} (h : n < 2 ^ 64) : saturating64 n = n := by
  rw [saturating64]
  omega

/-! ## The ring -/

def slotOf (info : PacketInfo) : TimeSlot (Nat × Nat) := ⟨info.timestamp, info.ackCount, info.lossCount⟩

def ringOf (b : Brutal) : TimeRing (Nat × Nat) sampleSlotCount := fun i => slotOf b.slots[i]

theorem slotOf_recordSlot {info : PacketInfo} (ts acknowledgements losses : Nat)
    (ha : info.timestamp = some ts → info.ackCount + acknowledgements < 2 ^ 64)
    (hl : info.timestamp = some ts → info.lossCount + losses < 2 ^ 64) :
    slotOf (Brutal.recordSlot info ts acknowledgements losses) =
      (slotOf info).record ts (acknowledgements, losses) := by
  unfold Brutal.recordSlot TimeSlot.record
  by_cases ht : info.timestamp = some ts
  · have hs : (slotOf info).time = some ts := ht
    rw [if_pos ht, if_pos hs]
    simp only [slotOf, ht, saturating64_of_lt (ha ht), saturating64_of_lt (hl ht), Prod.mk_add_mk]
  have hs : (slotOf info).time ≠ some ts := ht
  rw [if_neg ht, if_neg hs]
  rfl

@[simp] theorem ringOf_updateAckRate (b : Brutal) (ts : Nat) : ringOf (b.updateAckRate ts) = ringOf b := by
  unfold Brutal.updateAckRate
  simp only
  repeat' split
  all_goals rfl

@[simp] theorem control_updateAckRate (b : Brutal) (ts : Nat) : (b.updateAckRate ts).control = b.control := by
  unfold Brutal.updateAckRate
  simp only
  repeat' split
  all_goals rfl

theorem ringOf_set (b : Brutal) (i : Fin sampleSlotCount) (info : PacketInfo) :
    ringOf { b with slots := b.slots.set i info } = Function.update (ringOf b) i (slotOf info) := by
  funext j
  unfold ringOf
  by_cases hj : j = i
  · subst hj
    simp
  grind

/-- `record`, while the counts do not saturate. -/
theorem ringOf_record (now acknowledgements losses : Nat) (hf : ∀ i, (ringOf b i).time = some (b.timestamp now) →
      (ringOf b i).value.1 + acknowledgements < 2 ^ 64 ∧ (ringOf b i).value.2 + losses < 2 ^ 64) :
    ringOf (b.record now acknowledgements losses) =
      (ringOf b).record (b.timestamp now) (acknowledgements, losses) := by
  rw [Brutal.record, ringOf_updateAckRate, ringOf_set, TimeRing.record]
  congr 1
  exact slotOf_recordSlot _ _ _ (fun h => (hf _ h).1) fun h => (hf _ h).2

/-! ## The counts -/

theorem foldl_saturating : ∀ (infos : List PacketInfo) (acks losses : Nat),
    acks + (infos.map (·.ackCount)).sum < 2 ^ 64 → losses + (infos.map (·.lossCount)).sum < 2 ^ 64 →
    infos.foldl (fun (ack, loss) slot => (saturating64 (ack + slot.ackCount), saturating64 (loss + slot.lossCount)))
      (acks, losses) = (acks + (infos.map (·.ackCount)).sum, losses + (infos.map (·.lossCount)).sum)
  | [], _, _, _, _ => rfl
  | info :: infos, acks, losses, ha, hl => by
    simp only [map_cons, sum_cons] at ha hl ⊢
    rw [foldl_cons, saturating64_of_lt (by omega), saturating64_of_lt (by omega),
      foldl_saturating infos _ _ (by omega) (by omega), Nat.add_assoc, Nat.add_assoc]

theorem sum_filter_map {α : Type} (p : α → Bool) (f : α → Nat) (xs : List α) :
    ((xs.filter p).map f).sum = (xs.map fun x => if p x then f x else 0).sum := by
  induction xs with
  | nil => rfl
  | cons x xs ih =>
    grind

theorem sum_slots (f : PacketInfo → Nat) (b : Brutal) :
    (b.slots.toList.map f).sum = ∑ i : Fin sampleSlotCount, f b.slots[i] := by
  congr 1
  apply List.ext_getElem
  · simp
  grind

theorem samples_eq (lo : Nat) (ha : ((ringOf b).since lo).1 < 2 ^ 64)
    (hl : ((ringOf b).since lo).2 < 2 ^ 64) : b.samples lo = (ringOf b).since lo := by
  have hs (slot : PacketInfo) : (slot.timestamp.any (lo ≤ ·)) = true ↔ (slotOf slot).Since lo := by
    simp [TimeSlot.Since, slotOf, Option.any_eq_true]
  have hf : ((b.slots.toList.filter fun slot => slot.timestamp.any (lo ≤ ·)).map (·.ackCount)).sum =
      ((ringOf b).since lo).1 := by
    rw [sum_filter_map, sum_slots, TimeRing.since, Prod.fst_sum]
    refine Finset.sum_congr rfl fun i _ => ?_
    simp only [hs, apply_ite Prod.fst]
    rfl
  have hsn : ((b.slots.toList.filter fun slot => slot.timestamp.any (lo ≤ ·)).map (·.lossCount)).sum =
      ((ringOf b).since lo).2 := by
    rw [sum_filter_map, sum_slots, TimeRing.since, Prod.snd_sum]
    refine Finset.sum_congr rfl fun i _ => ?_
    simp only [hs, apply_ite Prod.snd]
    rfl
  rw [Brutal.samples, foldl_saturating _ _ _ (by omega) (by omega), hf, hsn, Nat.zero_add, Nat.zero_add]

/-- The numerator and denominator for so many packets. -/
def ratePair (acknowledgements losses : Nat) : Nat × Nat :=
  if acknowledgements + losses < 50 then (1, 1)
  else if acknowledgements * 5 < (acknowledgements + losses) * 4 then (4, 5)
  else (acknowledgements, acknowledgements + losses)

theorem ackRate_eq (acknowledgements losses : Nat) : ackRate acknowledgements losses =
      ((ratePair acknowledgements losses).1 : ℚ) / (ratePair acknowledgements losses).2 := by
  unfold ackRate ratePair
  simp only
  by_cases hf : acknowledgements + losses < 50
  · rw [if_pos hf, if_pos hf]
    norm_num
  have hp : (0 : ℚ) < (acknowledgements + losses : Nat) := by
    exact_mod_cast (by omega : 0 < acknowledgements + losses)
  have hl : (acknowledgements : ℚ) / (acknowledgements + losses : Nat) < 4 / 5 ↔
      acknowledgements * 5 < (acknowledgements + losses) * 4 := by
    rw [div_lt_div_iff₀ hp (by norm_num), mul_comm (4 : ℚ)]
    exact_mod_cast Iff.rfl
  rw [if_neg hf, if_neg hf]
  simp only [hl]
  split
  · norm_num
  · rfl

theorem updateAckRate_eq (hen : b.control.disableLossCompensation = false) {ts acks losses : Nat}
    (hs : (ringOf b).since (ts - sampleSlotCount) = (acks, losses)) (ha : acks < 2 ^ 61) (hls : losses < 2 ^ 61) :
    ((b.updateAckRate ts).ackRateNumerator, (b.updateAckRate ts).ackRateDenominator) =
      ratePair acks losses := by
  have heq : b.samples (ts - sampleSlotCount) = (acks, losses) := by
    grind [samples_eq]
  unfold Brutal.updateAckRate ratePair
  rw [hen, heq]
  have ht : saturating64 (acks + losses) = acks + losses := saturating64_of_lt (by omega)
  have hl : saturating64 (acks * 5) = acks * 5 := saturating64_of_lt (by omega)
  have hr : saturating64 ((acks + losses) * 4) = (acks + losses) * 4 := saturating64_of_lt (by omega)
  simp only [minSampleCount, minAckRateNumerator, minAckRateDenominator, ht, hl, hr, Bool.false_eq_true, if_false]
  split
  · rfl
  · split <;> rfl

theorem record_rate (hen : b.control.disableLossCompensation = false) (now acknowledgements losses : Nat)
    {acks lost : Nat} (hs : (ringOf (b.record now acknowledgements losses)).since (b.timestamp now - sampleSlotCount) =
      (acks, lost)) (ha : acks < 2 ^ 61) (hl : lost < 2 ^ 61) :
    ((b.record now acknowledgements losses).ackRateNumerator,
      (b.record now acknowledgements losses).ackRateDenominator) = ratePair acks lost := by
  rw [Brutal.record, ringOf_updateAckRate] at hs
  refine updateAckRate_eq ?_ hs ha hl
  exact hen

/-! ## The history -/

/-- What the ring counts of a history. -/
def eventsOf (origin : Nat) (reports : List Report) : List (Nat × Nat × Nat) :=
  reports.map fun report => (report.second origin, report.acknowledgements, report.losses)

theorem sumWhere_eventsOf (p : Nat → Prop) [DecidablePred p] (orig : Nat) (reps : List Report) :
    TimeRing.sumWhere p (eventsOf orig reps) = (acknowledged (reps.filter fun rep => p (rep.second orig)),
        lost (reps.filter fun rep => p (rep.second orig))) := by
  induction reps with
  | nil => rfl
  | cons rep reps ih =>
    unfold TimeRing.sumWhere eventsOf at ih ⊢
    rw [map_cons, map_cons, sum_cons, ih, filter_cons]
    by_cases hp : p (rep.second orig)
    · simp [hp, acknowledged, lost]
    · simp [hp]

theorem acknowledged_filter_le (p : Report → Bool) (reps : List Report) :
    acknowledged (reps.filter p) ≤ acknowledged reps :=
  List.Sublist.sum_le_sum (filter_sublist.map _) fun _ _ => Nat.zero_le _

theorem lost_filter_le (p : Report → Bool) (reps : List Report) : lost (reps.filter p) ≤ lost reps :=
  List.Sublist.sum_le_sum (filter_sublist.map _) fun _ _ => Nat.zero_le _

/-- The state after a history. -/
structure Tracked (control : BrutalControl) (origin : Nat) (reports : List Report) (b : Brutal) : Prop where
  sameControl : b.control = control
  sameOrigin : b.origin = origin
  holds : TimeRing.Holds (ringOf b) (eventsOf origin reports)

theorem tracked_new (control : BrutalControl) (orig : Nat) (mtu : UInt16) :
    Tracked control orig [] (Brutal.new control orig mtu) where
  sameControl := rfl
  sameOrigin := rfl
  holds := by
    have he : ringOf (Brutal.new control orig mtu) = TimeRing.empty := by
      funext i
      simp [ringOf, Brutal.new, slotOf, TimeRing.empty]
    rw [he]
    exact TimeRing.holds_empty

theorem origin_updateAckRate (b : Brutal) (ts : Nat) : (b.updateAckRate ts).origin = b.origin := by
  unfold Brutal.updateAckRate
  simp only
  repeat' split
  all_goals rfl

theorem second_le {last : Report} (h : ∀ rep ∈ reps, rep.now ≤ last.now) (orig : Nat) :
    ∀ e ∈ eventsOf orig reps, e.1 ≤ last.second orig := by
  intro e he
  obtain ⟨rep, hr, rfl⟩ := mem_map.mp he
  exact Nat.div_le_div_right (Nat.sub_le_sub_right (h rep hr) orig)

theorem Tracked.record {last : Report} (h : Tracked control orig reps b) (hl : ∀ rep ∈ reps, rep.now ≤ last.now)
    (ha : acknowledged (reps ++ [last]) < 2 ^ 61) (hls : lost (reps ++ [last]) < 2 ^ 61) :
    let b' := b.record last.now last.acknowledgements last.losses
    Tracked control orig (reps ++ [last]) b' ∧ ringOf b' =
      (ringOf b).record (last.second orig) (last.acknowledgements, last.losses) := by
  have hr : ringOf (b.record last.now last.acknowledgements last.losses) =
      (ringOf b).record (last.second orig) (last.acknowledgements, last.losses) := by
    rw [ringOf_record, Brutal.timestamp, h.sameOrigin, Report.second]
    intro i ht
    rw [h.holds.value _ _ ht, sumWhere_eventsOf]
    have hle := acknowledged_filter_le (fun rep => rep.second orig = b.timestamp last.now) reps
    have hle' := lost_filter_le (fun rep => rep.second orig = b.timestamp last.now) reps
    simp only [acknowledged, lost, map_append, map_cons, map_nil, sum_append, sum_singleton]
      at ha hls hle hle' ⊢
    omega
  refine ⟨⟨?_, ?_, ?_⟩, hr⟩
  · rw [Brutal.record, control_updateAckRate]
    exact h.sameControl
  · rw [Brutal.record, origin_updateAckRate]
    exact h.sameOrigin
  · rw [hr, eventsOf, map_append]
    exact h.holds.record (second_le hl orig) _

theorem filter_recent {last : Report} (h : ∀ rep ∈ reps, rep.now ≤ last.now) (orig : Nat) :
    (reps.filter fun rep => last.second orig < rep.second orig + sampleSlotCount) =
      recent orig (last.second orig) reps := by
  refine filter_congr fun rep hr => ?_
  have hle : rep.second orig ≤ last.second orig := Nat.div_le_div_right (Nat.sub_le_sub_right (h rep hr) orig)
  grind

theorem Tracked.rate {last : Report} (h : Tracked control orig reps b)
    (hen : control.disableLossCompensation = false) (hl : ∀ rep ∈ reps, rep.now ≤ last.now)
    (ha : acknowledged (reps ++ [last]) < 2 ^ 61) (hls : lost (reps ++ [last]) < 2 ^ 61) :
    let b' := b.record last.now last.acknowledgements last.losses
    let window := recent orig (last.second orig) (reps ++ [last])
    (b'.ackRateNumerator, b'.ackRateDenominator) = ratePair (acknowledged window) (lost window) := by
  obtain ⟨ht, hrn⟩ := h.record hl ha hls
  have hal : ∀ rep ∈ reps ++ [last], rep.now ≤ last.now := by
    grind
  have htm : (ringOf (b.record last.now last.acknowledgements last.losses)
      (Fin.ofNat sampleSlotCount (last.second orig))).time = some (last.second orig) := by
    rw [hrn, TimeRing.time_record, if_pos rfl]
  have hs := ht.holds.since_eq (second_le hal orig) htm
  rw [sumWhere_eventsOf, filter_recent hal] at hs
  have hsn : b.timestamp last.now = last.second orig := by
    rw [Brutal.timestamp, h.sameOrigin, Report.second]
  exact record_rate (h.sameControl ▸ hen) _ _ _ (hsn.symm ▸ hs)
    (Nat.lt_of_le_of_lt (acknowledged_filter_le _ _) ha) (Nat.lt_of_le_of_lt (lost_filter_le _ _) hls)

theorem tracked_recordAll (mtu : UInt16) (hs : reps.Pairwise (·.now ≤ ·.now)) (ha : acknowledged reps < 2 ^ 61)
    (hl : lost reps < 2 ^ 61) : Tracked control orig reps (recordAll (Brutal.new control orig mtu) reps) := by
  induction reps using reverseRecOn with
  | nil => exact tracked_new control orig mtu
  | append_singleton reps last ih =>
    obtain ⟨hs, -, hls⟩ := pairwise_append.mp hs
    have hf : acknowledged reps < 2 ^ 61 ∧ lost reps < 2 ^ 61 := by
      simp only [acknowledged, lost, map_append, sum_append] at ha hl ⊢
      omega
    rw [recordAll, foldl_append]
    exact ((ih hs hf.1 hf.2).record (fun rep h => hls rep h last mem_cons_self) ha
      hl).1

/-- After each call the ack rate is that of all packets reported in the last
five seconds. -/
theorem ack_rate_refines (control : BrutalControl) (henabled : control.disableLossCompensation = false) (origin : Nat)
    (mtu : UInt16) (reports : List Report) (last : Report) (hsorted : (reports ++ [last]).Pairwise (·.now ≤ ·.now))
    (hacks : acknowledged (reports ++ [last]) < 2 ^ 61) (hlosses : lost (reports ++ [last]) < 2 ^ 61) :
    let b := recordAll (Brutal.new control origin mtu) (reports ++ [last])
    let window := recent origin (last.second origin) (reports ++ [last])
    (b.ackRateNumerator : ℚ) / b.ackRateDenominator = ackRate (acknowledged window) (lost window) := by
  obtain ⟨hsorted, -, hl⟩ := pairwise_append.mp hsorted
  have hf : acknowledged reports < 2 ^ 61 ∧ lost reports < 2 ^ 61 := by
    simp only [acknowledged, lost, map_append, sum_append] at hacks hlosses ⊢
    omega
  have ht : Tracked control origin reports (recordAll (Brutal.new control origin mtu) reports) :=
    tracked_recordAll mtu hsorted hf.1 hf.2
  have hr := ht.rate henabled (fun rep h => hl rep h last mem_cons_self) hacks hlosses
  intro b window
  have hb : (b.ackRateNumerator, b.ackRateDenominator) = ratePair (acknowledged window) (lost window) := by
    rw [← hr]
    simp only [b, recordAll, foldl_append, foldl_cons, foldl_nil]
  rw [ackRate_eq, ← hb]

/-- 80 acknowledgements in one second and 20 losses in the next; and the losses
still with 180 acknowledgements when the 80 are too old. -/
theorem ack_rate_refines_losses :
    let control : BrutalControl := { enabled := true, bandwidth := 1000000, disableLossCompensation := false }
    let acked : Report := ⟨1500000000, 80, 0⟩
    let lossy : Report := ⟨2000000000, 0, 20⟩
    let late : Report := ⟨6000000000, 180, 0⟩
    ((recordAll (Brutal.new control 0 1200) ([acked] ++ [lossy])).ackRateNumerator : ℚ) /
        (recordAll (Brutal.new control 0 1200) ([acked] ++ [lossy])).ackRateDenominator = 4 / 5 ∧
      ((recordAll (Brutal.new control 0 1200) ([acked, lossy] ++ [late])).ackRateNumerator : ℚ) /
        (recordAll (Brutal.new control 0 1200) ([acked, lossy] ++ [late])).ackRateDenominator = 9 / 10 := by
  intro control acked lossy late
  constructor
  · rw [ack_rate_refines control rfl 0 1200 [acked] lossy (by decide) (by decide) (by decide)]
    decide +kernel
  · rw [ack_rate_refines control rfl 0 1200 [acked, lossy] late (by decide) (by decide) (by decide)]
    decide +kernel

end Hysteria.Proof
