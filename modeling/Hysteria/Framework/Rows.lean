import Mathlib.Data.List.Induction
import Mathlib.Data.List.Perm.Subperm
import Mathlib.Logic.Function.Basic

/-!
# Rows

A system with a growing number of parties keeps them in a list, one row each,
in the order in which they appear. A step adds a row at the end
(`getElem?_concat`) or changes one (`getElem?_set_cases`). `length_le_countP`
counts rows by their numbers. A table that leads from keys to rows is a function;
`foldl_update_of_mem` and `foldl_update_of_not_mem` are for loops that fill it.
-/

namespace Framework

open List

variable {α : Type}

theorem getElem?_concat {xs : List α} {x y : α} {i : Nat} (h : (xs ++ [x])[i]? = some y) :
    xs[i]? = some y ∨ i = xs.length ∧ y = x := by
  rcases Nat.lt_trichotomy i xs.length with hi | rfl | hi
  · grind
  · exact .inr ⟨rfl, by simpa using h.symm⟩
  grind

theorem getElem?_set_cases {xs : List α} {x y : α} {i j : Nat} (h : (xs.set i x)[j]? = some y) :
    j = i ∧ y = x ∨ j ≠ i ∧ xs[j]? = some y := by
  rw [getElem?_set] at h
  split at h
  · grind
  grind

/-- The rows with a property, by their numbers. -/
theorem countP_eq_length_filter_range (p : α → Bool) (xs : List α) :
    xs.countP p = ((range xs.length).filter fun i => xs[i]?.any p).length := by
  induction xs using reverseRecOn with
  | nil => rfl
  | append_singleton xs x ih =>
    have hr : (range xs.length).filter (fun i => (xs ++ [x])[i]?.any p) =
        (range xs.length).filter fun i => xs[i]?.any p := by
      grind [filter_congr, getElem?_append_left]
    rw [countP_append, ih, length_append, length_singleton, range_succ, filter_append, hr, length_append]
    cases hx : p x <;> simp [hx]

/-- Different rows with a property are at most as many as there are. -/
theorem length_le_countP {p : α → Bool} {xs : List α} {nums : List Nat} (hn : nums.Nodup)
    (h : ∀ i ∈ nums, xs[i]?.any p = true) : nums.length ≤ xs.countP p := by
  rw [countP_eq_length_filter_range]
  refine (hn.subperm fun i hi => ?_).length_le
  refine mem_filter.mpr ⟨mem_range.mpr ?_, h i hi⟩
  grind

/-! ## Tables -/

variable {κ β : Type} [DecidableEq κ] {key : α → κ} {val : α → β} {xs : List α}

/-- A loop over a table leaves the other keys alone. -/
theorem foldl_update_of_not_mem {k : κ} (hk : k ∉ xs.map key) (tbl : κ → β) :
    xs.foldl (fun tbl x => Function.update tbl (key x) (val x)) tbl k = tbl k := by
  induction xs generalizing tbl with
  | nil => rfl
  | cons x xs ih =>
    simp_all

/-- A key that is set has a value that was set for it. -/
theorem foldl_update_of_mem {k : κ} (hk : k ∈ xs.map key) (tbl : κ → β) :
    ∃ x ∈ xs, key x = k ∧ xs.foldl (fun tbl x => Function.update tbl (key x) (val x)) tbl k = val x := by
  induction xs generalizing tbl with
  | nil => cases hk
  | cons y ys ih =>
    by_cases hys : k ∈ ys.map key
    · simp_all
    obtain rfl : k = key y := (mem_cons.mp hk).resolve_right hys
    refine ⟨y, mem_cons_self, rfl, ?_⟩
    rw [foldl_cons, foldl_update_of_not_mem hys, Function.update_self]

end Framework
