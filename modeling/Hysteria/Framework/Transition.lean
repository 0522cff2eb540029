import Mathlib.Logic.Relation

/-!
# Runs of a transition relation

A system is a relation `Step` on its states; a run is `ReflTransGen Step`.
`invariant_run` is the induction rule for what holds in every state of every
run. Where the steps have names, `Trace` is a run with the names of its steps:

* `Trace.invariant`, `Trace.history`: the same rule for traces;
* `Trace.first`: the first step of a kind, if there is one;
* `Trace.congr_iff`, `Trace.restrict_iff`: the runs whose steps, or states, have a
  property, by another property of the steps;
* `Trace.through`: a run goes on while its events can be taken.
-/

namespace Framework

open Relation List

variable {σ : Type*} {Step : σ → σ → Prop}
variable {I P : σ → Prop}

/-- What holds at first and is kept by every step holds along every run. -/
theorem invariant_run (hs : ∀ s t, I s → Step s t → I t) {s t : σ} (h : I s) (run : ReflTransGen Step s t) : I t := by
  induction run with
  | refl => exact h
  | tail _ step ih => exact hs _ _ ih step

/-- A run of named steps, the names in order. -/
inductive Trace {ε : Type*} (Step : σ → ε → σ → Prop) : σ → List ε → σ → Prop
  | nil (s : σ) : Trace Step s [] s
  | cons {s t u : σ} {e : ε} {es : List ε} (step : Step s e t) (rest : Trace Step t es u) : Trace Step s (e :: es) u

namespace Trace

variable {ε : Type*} {Step : σ → ε → σ → Prop} {s t u : σ} {e : ε} {es fs : List ε}

theorem append (first : Trace Step s es t) (rest : Trace Step t fs u) : Trace Step s (es ++ fs) u := by
  induction first with
  | nil => exact rest
  | cons step _ ih => exact .cons step (ih rest)

theorem single (step : Step s e t) : Trace Step s [e] t := .cons step (.nil t)

theorem mono {Step' : σ → ε → σ → Prop} (h : ∀ s e t, Step s e t → Step' s e t) (run : Trace Step s es t) :
    Trace Step' s es t := by
  induction run with
  | nil s => exact .nil s
  | cons step _ ih => exact .cons (h _ _ _ step) ih

theorem invariant (hs : ∀ s e t, I s → Step s e t → I t) (h : I s) (run : Trace Step s es t) : I t := by
  induction run with
  | nil => exact h
  | cons step _ ih => exact ih (hs _ _ _ h step)

/-- The same for what is said about a state and the names of the steps to it. -/
theorem history {I : List ε → σ → Prop} (hs : ∀ es s e t, I es s → Step s e t → I (es ++ [e]) t) (h : I [] s)
    (run : Trace Step s es t) : I es t := by
  have ha : ∀ before, I before s → I (before ++ es) t := by
    clear h
    induction run with
    | nil s =>
      intro before h
      rwa [append_nil]
    | @cons s s' t e es step _ ih =>
      grind
  exact ha [] h

theorem split (run : Trace Step s (es ++ fs) u) : ∃ t, Trace Step s es t ∧ Trace Step t fs u := by
  induction es generalizing s with
  | nil => exact ⟨s, .nil s, run⟩
  | cons e es ih =>
    cases run with
    | cons step rest =>
      obtain ⟨t, first, rest⟩ := ih rest
      exact ⟨t, .cons step first, rest⟩

/-- `P` is kept up to the first step of the kind `K`, which is taken in a state with `P`. -/
theorem first {K : ε → Prop} (hk : ∀ s e t, P s → Step s e t → ¬K e → P t) (h : P s) (run : Trace Step s es t) :
    (P t ∧ ∀ e ∈ es, ¬K e) ∨
    ∃ before e after u v, es = before ++ e :: after ∧ (∀ e ∈ before, ¬K e) ∧ K e ∧
      Trace Step s before u ∧ P u ∧ Step u e v ∧ Trace Step v after t := by
  induction run with
  | nil s => exact .inl ⟨h, by simp⟩
  | @cons s s' t e es step rest ih =>
    by_cases he : K e
    · exact .inr ⟨[], e, es, s, s', rfl, by simp, he, .nil s, h, step, rest⟩
    rcases ih (hk _ _ _ h step he) with ⟨ht, hes⟩ | ⟨before, e', after, u, v, rfl, hb, he', hu, hP, step', hv⟩
    · exact .inl ⟨ht, by simpa [he] using hes⟩
    · exact .inr ⟨e :: before, e', after, u, v, rfl, by simpa [he] using hb, he', .cons step hu, hP, step', hv⟩

/-- Two relations that agree where `I` holds have the same runs, if one of them keeps `I`. -/
theorem congr_iff {Step' : σ → ε → σ → Prop} (hi : ∀ s e t, I s → (Step s e t ↔ Step' s e t))
    (hin : ∀ s e t, I s → Step s e t → I t) (hI : I s) : Trace Step s es t ↔ Trace Step' s es t := by
  constructor
  · intro run
    induction run with
    | nil => exact .nil _
    | cons step _ ih => exact .cons ((hi _ _ _ hI).1 step) (ih (hin _ _ _ hI step))
  intro run
  induction run with
  | nil => exact .nil _
  | cons step _ ih =>
    have step := (hi _ _ _ hI).2 step
    exact .cons step (ih (hin _ _ _ hI step))

/-- When a step keeps `P` exactly if it meets `C`, the runs through states with
`P` are the runs of steps that meet `C`. -/
theorem restrict_iff {C : σ → ε → Prop} (hi : ∀ s e t, I s → Step s e t → I t)
    (hs : ∀ s e t, I s → P s → Step s e t → (P t ↔ C s e)) (hI : I s) (hP : P s) :
    Trace (fun s e t => Step s e t ∧ P t) s es t ↔ Trace (fun s e t => Step s e t ∧ C s e) s es t := by
  refine congr_iff (I := fun s => I s ∧ P s) ?_ ?_ ⟨hI, hP⟩
  · grind
  grind

/-- If every event of a run can be taken in its state or is of the kind `K`, all
are taken up to the first of this kind. -/
theorem through {K : ε → Prop} {C : σ → ε → Prop} (hs : ∀ s e, C s e → K e ∨ ∃ t, Step s e t)
    (h : ∀ before e after t, es = before ++ e :: after → Trace Step s before t → C t e) :
    (∃ t, Trace Step s es t) ∨ ∃ e ∈ es, K e := by
  induction es generalizing s with
  | nil => exact .inl ⟨s, .nil s⟩
  | cons e es ih =>
    rcases hs s e (h [] e es s rfl (.nil s)) with hk | ⟨t, step⟩
    · exact .inr ⟨e, mem_cons_self, hk⟩
    rcases ih fun before e' after u heq run => h (e :: before) e' after u (by rw [heq]; rfl) (.cons step run) with
      ⟨u, run⟩ | ⟨e', he', hk⟩
    · exact .inl ⟨u, .cons step run⟩
    grind

end Trace

end Framework
