import Mathlib.Algebra.BigOperators.Fin
import Mathlib.Data.Nat.ModEq

/-!
# Rings of time slots

A ring of `n` slots counts what happens: an event at time `t` goes into slot
`t % n`, and takes it over if it still holds an earlier time. `Holds` says what
the slots have of a history of events; `since_eq`: at time `t` the slots not
older than `t - n` have what happened in the last `n` units of time.
-/

namespace Framework

open List

variable {α : Type*} [AddCommMonoid α] {n : Nat}

structure TimeSlot (α : Type*) where
  time : Option Nat
  value : α

def TimeSlot.record (slot : TimeSlot α) (t : Nat) (v : α) : TimeSlot α :=
  if slot.time = some t then ⟨some t, slot.value + v⟩ else ⟨some t, v⟩

/-- The slot is in use and not older than `start`. -/
def TimeSlot.Since (slot : TimeSlot α) (start : Nat) : Prop := ∃ t ∈ slot.time, start ≤ t

instance (slot : TimeSlot α) (start : Nat) : Decidable (slot.Since start) :=
  inferInstanceAs (Decidable (∃ t ∈ slot.time, start ≤ t))

abbrev TimeRing (α : Type*) (n : Nat) := Fin n → TimeSlot α

namespace TimeRing

variable [NeZero n] {r : TimeRing α n} {evs : List (Nat × α)} {t : Nat} {v : α}

def empty : TimeRing α n := fun _ => ⟨none, 0⟩

def record (r : TimeRing α n) (t : Nat) (v : α) : TimeRing α n :=
  Function.update r (Fin.ofNat n t) ((r (Fin.ofNat n t)).record t v)

/-- What the slots not older than `start` have. -/
def since (r : TimeRing α n) (start : Nat) : α := ∑ i, if (r i).Since start then (r i).value else 0

/-- What happened at the times with `p`. -/
def sumWhere (p : Nat → Prop) [DecidablePred p] (events : List (Nat × α)) : α :=
  (events.map fun e => if p e.1 then e.2 else 0).sum

theorem sumWhere_concat (p : Nat → Prop) [DecidablePred p] :
    sumWhere p (evs ++ [(t, v)]) = sumWhere p evs + if p t then v else 0 := by
  simp [sumWhere]

theorem sumWhere_congr {p q : Nat → Prop} [DecidablePred p] [DecidablePred q]
    (h : ∀ e ∈ evs, p e.1 ↔ q e.1) : sumWhere p evs = sumWhere q evs := by
  unfold sumWhere
  congr 1
  grind [map_congr_left]

theorem sumWhere_eq_zero {p : Nat → Prop} [DecidablePred p] (h : ∀ e ∈ evs, ¬ p e.1) : sumWhere p evs = 0 := by
  refine sum_eq_zero fun x hx => ?_
  grind

theorem sum_sumWhere (p : Nat → Prop) [DecidablePred p] (evs : List (Nat × α)) :
    ∑ i : Fin n, sumWhere (fun s => p s ∧ Fin.ofNat n s = i) evs = sumWhere p evs := by
  induction evs with
  | nil => simp [sumWhere]
  | cons e evs ih =>
    simp only [sumWhere, map_cons, sum_cons, Finset.sum_add_distrib] at ih ⊢
    congr 1
    by_cases hp : p e.1
    · simp [hp]
    · simp [hp]

/-- The slots have the latest times of the history, each with what happened then. -/
structure Holds (r : TimeRing α n) (events : List (Nat × α)) : Prop where
  unused : ∀ i, (r i).time = none → ∀ e ∈ events, Fin.ofNat n e.1 ≠ i
  place : ∀ i t, (r i).time = some t → Fin.ofNat n t = i
  occurs : ∀ i t, (r i).time = some t → ∃ e ∈ events, e.1 = t
  latest : ∀ i t, (r i).time = some t → ∀ e ∈ events, Fin.ofNat n e.1 = i → e.1 ≤ t
  value : ∀ i t, (r i).time = some t → (r i).value = sumWhere (· = t) events

theorem holds_empty : Holds (empty : TimeRing α n) [] where
  unused _ _ e he := by cases he
  place _ _ h := by cases h
  occurs _ _ h := by cases h
  latest _ _ h := by cases h
  value _ _ h := by cases h

theorem time_record (r : TimeRing α n) (t : Nat) (v : α) (i : Fin n) :
    (r.record t v i).time = if i = Fin.ofNat n t then some t else (r i).time := by
  unfold record
  split
  · rename_i hi
    rw [hi, Function.update_self, TimeSlot.record]
    split <;> rfl
  grind

/-- The slot of `t` has what happened at `t`, once `v` is added. -/
theorem Holds.value_record (h : Holds r evs) (hl : ∀ e ∈ evs, e.1 ≤ t) :
    ((r (Fin.ofNat n t)).record t v).value = sumWhere (· = t) (evs ++ [(t, v)]) := by
  rw [sumWhere_concat, if_pos rfl, TimeSlot.record]
  split
  · rename_i ht
    rw [h.value _ _ ht]
  -- Nothing happened at `t` before, or the slot would have it.
  rw [sumWhere_eq_zero, zero_add]
  rintro e he rfl
  rcases hs : (r (Fin.ofNat n e.1)).time with _ | s
  · exact h.unused _ hs e he rfl
  obtain ⟨last, hm, rfl⟩ := h.occurs _ s hs
  have heq := Nat.le_antisymm (h.latest _ _ hs e he rfl) (hl last hm)
  rw [← heq] at hs
  exact absurd hs ‹_›

theorem Holds.record (h : Holds r evs) (hl : ∀ e ∈ evs, e.1 ≤ t) (v : α) : Holds (r.record t v) (evs ++ [(t, v)]) := by
  constructor
  · have hun := h.unused
    grind [time_record]
  · grind [h.place, time_record]
  · intro i s hs
    rw [time_record] at hs
    split at hs
    · simp_all
    · obtain ⟨e, he, rfl⟩ := h.occurs i s hs
      exact ⟨e, mem_append_left _ he, rfl⟩
  · intro i s hs e he hi
    rw [time_record] at hs
    split at hs
    · grind
    have hlast := h.latest i s hs
    grind
  · intro i s hs
    rw [time_record] at hs
    split at hs
    · rename_i hi
      cases hs
      rw [hi, TimeRing.record, Function.update_self, h.value_record hl]
    rename_i hne
    have hst : t ≠ s := by
      rintro rfl
      exact hne (h.place i t hs).symm
    rw [TimeRing.record, Function.update_of_ne hne, h.value i s hs, sumWhere_concat, if_neg hst, add_zero]

/-- Of two times in one slot, the one that is less than `n` later is not later. -/
theorem eq_of_ofNat_eq {s s' : Nat} (h : Fin.ofNat n s = Fin.ofNat n s') (hle : s ≤ s') (hlt : s' < s + n) :
    s = s' := by
  have hm : s % n = s' % n := congrArg Fin.val h
  have hd : n ∣ s' - s := (Nat.modEq_iff_dvd' hle).mp hm
  have := Nat.eq_zero_of_dvd_of_lt hd (by omega)
  omega

theorem Holds.slot_since (h : Holds r evs) (hl : ∀ e ∈ evs, e.1 ≤ t)
    (ht : (r (Fin.ofNat n t)).time = some t) (i : Fin n) :
    (if (r i).Since (t - n) then (r i).value else 0) =
      sumWhere (fun s => t < s + n ∧ Fin.ofNat n s = i) evs := by
  split
  · rename_i hsn
    obtain ⟨s, hs, hb⟩ := hsn
    obtain ⟨e, he, rfl⟩ := h.occurs i s hs
    have hp := h.place i _ hs
    have hr : t < e.1 + n := by
      by_contra hold
      -- A time just `n` earlier would be in the slot of `t`.
      have hsm : Fin.ofNat n e.1 = Fin.ofNat n t := by
        rw [show t = e.1 + n by omega]
        exact Fin.ext (Nat.add_mod_right e.1 n).symm
      rw [← hp, hsm, ht] at hs
      cases hs
      omega
    rw [h.value i _ hs]
    refine sumWhere_congr fun e' he' => ⟨?_, ?_⟩
    · grind
    grind [eq_of_ofNat_eq, Nat.lt_of_le_of_lt]
  · rename_i hsn
    refine (sumWhere_eq_zero ?_).symm
    rintro e he ⟨hr, hp⟩
    rcases hs : (r i).time with _ | s
    · exact h.unused i hs e he hp
    · have := h.latest i s hs e he hp
      exact hsn ⟨s, hs, by omega⟩

/-- After an event at `t` the slots not older than `t - n` have what happened
in the last `n` units of time. -/
theorem Holds.since_eq (h : Holds r evs) (hl : ∀ e ∈ evs, e.1 ≤ t)
    (ht : (r (Fin.ofNat n t)).time = some t) : r.since (t - n) = sumWhere (fun s => t < s + n) evs := by
  rw [since, ← sum_sumWhere (n := n)]
  exact Finset.sum_congr rfl fun i _ => h.slot_since hl ht i

end TimeRing

end Framework
