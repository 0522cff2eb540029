import Mathlib.Data.List.Basic

/-!
# Patterns with a star

Patterns over any alphabet with one symbol `star` that stands for any text.
`Glob` is what a pattern says. `LiteralFirst` is the same where a star of the
pattern that meets a star of the text must take just that one. A text without
stars does not tell them apart (`literalFirst_iff_glob`).

A matcher that goes through the text from left to right and, when it fails, moves
only the last star it passed has to know that the earlier stars need not move.
`LiteralFirst.overtaken` is that: `w` is what stands between the last star and
the place reached, and any match that gives the last star more also leads there,
with less text left.
-/

namespace Framework

open List

variable {α : Type} {star : α}

/-- Each star of the pattern is replaced by some text, the rest is kept. -/
inductive Glob (star : α) : List α → List α → Prop
  | nil : Glob star [] []
  | star {p v : List α} (s : List α) : Glob star p v → Glob star (star :: p) (s ++ v)
  | keep {c : α} {p v : List α} : c ≠ star → Glob star p v → Glob star (c :: p) (c :: v)

/-- The same, but where the pattern and the text both have a star, the one is kept as the other. -/
inductive LiteralFirst (star : α) : List α → List α → Prop
  | nil : LiteralFirst star [] []
  | same {p v : List α} (c : α) : LiteralFirst star p v → LiteralFirst star (c :: p) (c :: v)
  | star {p v : List α} (s : List α) : (s ++ v).head? ≠ some star → LiteralFirst star p v →
    LiteralFirst star (star :: p) (s ++ v)

namespace LiteralFirst

variable {p q v w rest y : List α} {c d : α}

theorem glob (h : LiteralFirst star p v) : Glob star p v := by
  induction h with
  | nil => exact .nil
  | @same p v c _ ih =>
    by_cases hc : c = star
    · subst hc
      exact .star [c] ih
    · exact .keep hc ih
  | star s _ _ ih => exact .star s ih

theorem of_glob (h : Glob star p v) (hv : star ∉ v) : LiteralFirst star p v := by
  induction h with
  | nil => exact .nil
  | @star p v s _ ih =>
    simp only [mem_append, not_or] at hv
    refine .star s (fun hs => ?_) (ih hv.2)
    rcases mem_append.mp (mem_of_head? hs) with h | h
    · exact hv.1 h
    · exact hv.2 h
  | keep _ _ ih => exact .same _ (ih (fun h => hv (mem_cons_of_mem _ h)))

theorem refl (v : List α) : LiteralFirst star v v := by
  induction v with
  | nil => exact .nil
  | cons c v ih => exact .same c ih

theorem nil_left_iff : LiteralFirst star [] v ↔ v = [] := by
  constructor
  · intro h
    cases h
    rfl
  · rintro rfl
    exact .nil

theorem cons_same_iff : LiteralFirst star (c :: p) (c :: v) ↔ LiteralFirst star p v := by
  refine ⟨fun h => ?_, .same c⟩
  generalize hy : c :: v = y at h
  cases h with
  | same _ h =>
    grind
  | star s hs _ =>
    rw [← hy] at hs
    exact absurd rfl hs

theorem not_cons (hd : d ≠ star) (hcd : v.head? ≠ some d) : ¬ LiteralFirst star (d :: p) v := by
  intro h
  cases h with
  | same _ h => exact hcd rfl
  | star => exact hd rfl

/-- A star that does not meet one takes any part of the text. -/
theorem cons_star_iff (hv : v.head? ≠ some star) :
    LiteralFirst star (star :: p) v ↔ ∃ y, y <:+ v ∧ LiteralFirst star p y := by
  constructor
  · intro h
    cases h with
    | same _ h => exact absurd rfl hv
    | star s _ h => exact ⟨_, ⟨s, rfl⟩, h⟩
  · rintro ⟨y, ⟨s, rfl⟩, h⟩
    exact .star s hv h

/-- The end of the text is matched by stars only. -/
theorem nil_right_iff : LiteralFirst star p [] ↔ ∀ c ∈ p, c = star := by
  induction p with
  | nil => simpa using LiteralFirst.nil
  | cons d p ih =>
    by_cases hd : d = star
    · subst hd
      rw [cons_star_iff (by simp)]
      simp [ih]
    · have hn : ¬ LiteralFirst star (d :: p) [] := not_cons hd (by simp)
      simp [hn, hd]

/-- What a star matches in a part of the text it matches in the whole. -/
theorem of_suffix (hv : v.head? ≠ some star) (hy : y <:+ v) (h : LiteralFirst star (star :: p) y) :
    LiteralFirst star (star :: p) v := by
  rw [cons_star_iff hv]
  cases h with
  | same _ h => exact ⟨_, (suffix_cons star _).trans hy, h⟩
  | star s _ h => exact ⟨_, (suffix_append s _).trans hy, h⟩

theorem overtaken (hy : y <:+ w ++ rest) (h : LiteralFirst star (w ++ q) y) :
    ∃ z, z <:+ rest ∧ LiteralFirst star q z := by
  induction w generalizing y with
  | nil => exact ⟨y, hy, h⟩
  | cons c w ih =>
    cases h with
    | @same _ v _ h =>
      rcases suffix_cons_iff.mp hy with hy | hy
      · obtain ⟨-, rfl⟩ := cons.inj hy
        exact ih (suffix_refl _) h
      · exact ih ((suffix_cons c v).trans hy) h
    | @star _ v s hs h =>
      rcases suffix_cons_iff.mp hy with hy | hy
      · -- the whole text begins with a star, which this one would have had to keep
        rw [hy] at hs
        exact absurd rfl hs
      · exact ih ((suffix_append s v).trans hy) h

end LiteralFirst

variable {p v : List α}

theorem literalFirst_iff_glob (h : star ∉ v ∨ star ∉ p) : LiteralFirst star p v ↔ Glob star p v := by
  refine ⟨LiteralFirst.glob, fun hg => ?_⟩
  rcases h with h | h
  · exact .of_glob hg h
  · -- without stars in the pattern both say that the text is the pattern
    suffices hpv : p = v by
      rw [hpv]
      exact .refl v
    induction hg with
    | nil => rfl
    | star => exact absurd mem_cons_self h
    | keep _ _ ih => rw [ih (fun h' => h (mem_cons_of_mem _ h'))]

end Framework
