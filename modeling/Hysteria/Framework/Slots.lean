import Mathlib.Data.Finset.Range
import Mathlib.Data.Finset.Card
import Mathlib.Data.List.Basic

/-!
# Slot vectors

A vector of slots, each empty or filled (`List (Option α)`), as a receiver
keeps it that collects numbered pieces in any order. `filled` counts the
filled slots: filling an empty one adds one (`filled_set`), and when every
slot is filled (`filled_eq_length`) the contents can be read off in order
(`exists_eq_map_some`). `slots` are the slots when some of the numbered pieces
of one whole have come in.
-/

namespace Framework

open List

variable {α : Type}

/-- How many slots are filled. -/
def filled (slots : List (Option α)) : Nat := slots.countP Option.isSome

@[simp] theorem filled_replicate_none (n : Nat) : filled (replicate n (none : Option α)) = 0 := by
  simp [filled, countP_replicate]

theorem filled_set {slots : List (Option α)} {i : Nat} (h : slots[i]? = some none) (a : α) :
    filled (slots.set i (some a)) = filled slots + 1 := by
  induction slots generalizing i with
  | nil => simp at h
  | cons s slots ih =>
    rcases i with _ | i
    · grind [getElem?_cons_zero, Option.some.injEq, filled]
    have := ih h
    simp only [filled, set_cons_succ, countP_cons] at this ⊢
    omega

/-- All slots are filled exactly if none is empty. -/
theorem filled_eq_length {slots : List (Option α)} : filled slots = slots.length ↔ ∀ s ∈ slots, s.isSome = true := by
  rw [filled, countP_eq_length]

/-- The contents of a vector whose slots are all filled. -/
theorem exists_eq_map_some {slots : List (Option α)} (h : filled slots = slots.length) :
    ∃ xs : List α, slots = xs.map some := by
  rw [filled_eq_length] at h
  induction slots with
  | nil => exact ⟨[], rfl⟩
  | cons s slots ih =>
    obtain ⟨a, rfl⟩ := Option.isSome_iff_exists.mp (h s mem_cons_self)
    obtain ⟨xs, rfl⟩ := ih fun s hs => h s (mem_cons_of_mem _ hs)
    exact ⟨a :: xs, rfl⟩

/-! ## The pieces of one whole -/

/-- `n` slots: the pieces whose number is in `seen` have come in. -/
def slots (n : Nat) (seen : Finset Nat) (piece : Nat → α) : List (Option α) :=
  (List.range n).map fun i => if i ∈ seen then some (piece i) else none

variable {n i : Nat} {seen : Finset Nat} {piece : Nat → α}

theorem slots_empty (n : Nat) (piece : Nat → α) : slots n ∅ piece = replicate n none := by
  simp [slots]

theorem getElem?_slots (hi : i < n) (seen : Finset Nat) (piece : Nat → α) :
    (slots n seen piece)[i]? = some (if i ∈ seen then some (piece i) else none) := by
  rw [slots, getElem?_map, getElem?_range hi, Option.map_some]

theorem set_slots (hi : i < n) (seen : Finset Nat) (piece : Nat → α) :
    (slots n seen piece).set i (some (piece i)) = slots n (insert i seen) piece := by
  apply ext_getElem?
  intro j
  rw [getElem?_set]
  by_cases hj : j < n
  · rw [getElem?_slots hj, getElem?_slots hj, slots, length_map, length_range]
    grind
  · simp [slots, hj]
    omega

theorem filterMap_slots (n : Nat) (piece : Nat → α) :
    (slots n (Finset.range n) piece).filterMap id = (range n).map piece := by
  have ha : slots n (Finset.range n) piece = ((range n).map piece).map some := by
    simp [slots, map_map]
  simp_all

end Framework
