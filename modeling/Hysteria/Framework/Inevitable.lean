import Mathlib.Logic.Relation

/-!
# What every run comes to

`Inevitable Step P s`: no run from `s` stops or goes on forever before it comes
to a state with `P`. No scheduler is assumed to be fair.

* `Inevitable.simulate`: a system comes to `P` when its steps follow those of a
  process that ends, with finitely many steps of its own in between;
* `Inevitable.reflect`: the converse, for a process whose steps the system can
  follow.
-/

namespace Framework

open Relation

variable {σ ι : Type*} {Step : σ → σ → Prop} {P P' : σ → Prop} {Low : ι → ι → Prop} {Q : ι → Prop}
variable {s : σ} {R : σ → ι → Prop} {i : ι}

inductive Inevitable (Step : σ → σ → Prop) (P : σ → Prop) : σ → Prop
  | now {s : σ} (h : P s) : Inevitable Step P s
  | later {s : σ} (hnext : ∃ t, Step s t) (hall : ∀ t, Step s t → Inevitable Step P t) : Inevitable Step P s

theorem Inevitable.step {t : σ} (h : Inevitable Step P s) (hs : ¬P s) (step : Step s t) : Inevitable Step P t := by
  rcases h with h | ⟨-, ha⟩
  · exact absurd h hs
  · exact ha t step

theorem Inevitable.mono (h : Inevitable Step P s) (hP : ∀ s, P s → P' s) : Inevitable Step P' s := by
  induction h with
  | now h => exact .now (hP _ h)
  | later hn _ ih => exact .later hn ih

theorem Inevitable.exists_run (h : Inevitable Step P s) : ∃ t, ReflTransGen Step s t ∧ P t := by
  induction h with
  | now h => exact ⟨_, .refl, h⟩
  | later hn _ ih =>
    obtain ⟨t, step⟩ := hn
    obtain ⟨u, run, hu⟩ := ih t step
    exact ⟨u, .head step run, hu⟩

/-- Each step lowers `μ` or is the last that matters. -/
theorem Inevitable.of_measure {R : σ → Prop} (μ : σ → Nat) (hp : ∀ s, R s → ¬P s → ∃ t, Step s t)
    (hs : ∀ s t, R s → Step s t → Inevitable Step P t ∨ (R t ∧ μ t < μ s)) (h : R s) : Inevitable Step P s := by
  induction hn : μ s using Nat.strongRecOn generalizing s with
  | _ n ih =>
    by_cases hP : P s
    · exact .now hP
    refine .later (hp s h hP) ?_
    grind

/-- Each step of the system is one of the process, or lowers `μ`; and it can always go on. -/
theorem Inevitable.simulate (μ : σ → Nat) (hQ : ∀ i j, Q i → ¬Low i j)
    (hp : ∀ s i, R s i → Inevitable Low Q i → ¬P s → ∃ t, Step s t)
    (hst : ∀ s i t, R s i → Step s t → P t ∨ (R t i ∧ μ t < μ s) ∨ ∃ j, Low i j ∧ R t j) (hi : Inevitable Low Q i)
    (h : R s i) : Inevitable Step P s := by
  induction hi generalizing s with
  | @now i hq =>
    refine .of_measure (R := (R · i)) μ (fun s hs => hp s i hs (.now hq)) ?_ h
    intro s t hs step
    rcases hst s i t hs step with hP | ht | ⟨j, hj, -⟩
    · exact .inl (.now hP)
    · exact .inr ht
    · exact absurd hj (hQ i j hq)
  | @later i hn ha ih =>
    refine .of_measure (R := (R · i)) μ (fun s hs => hp s i hs (.later hn ha)) ?_ h
    intro s t hs step
    rcases hst s i t hs step with hP | ht | ⟨j, hj, ht⟩
    · exact .inl (.now hP)
    · exact .inr ht
    · exact .inl (ih j hj ht)

/-- Each step of the process is one of the system, which may take some by itself first. -/
theorem Inevitable.reflect (hl : ∀ s i, R s i → ¬P s)
    (hm : ∀ s i, R s i → (∃ t, Step s t) → Q i ∨ (∃ t, Step s t ∧ R t i) ∨
      ((∃ j, Low i j) ∧ ∀ j, Low i j → ∃ t, Step s t ∧ R t j)) (hs : Inevitable Step P s) (h :
    R s i) : Inevitable Low Q i := by
  induction hs generalizing i with
  | now hP => exact absurd hP (hl _ i h)
  | later hn _ ih =>
    rcases hm _ i h hn with hq | ⟨t, step, ht⟩ | ⟨hlw, hf⟩
    · exact .now hq
    · exact ih t step ht
    refine .later hlw ?_
    grind

end Framework
