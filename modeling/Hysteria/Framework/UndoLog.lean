import Mathlib.Data.List.Forall2

/-!
# Effects with a log to undo them

Code that acts on a state of type `σ` step after step, records each effect, and
undoes the recorded effects, latest first, when it is abandoned. `runEach` is
the loop; `restored_runEach` says that whatever step it stops at, undoing leads
back to where the loop began; `runEach_forall₂` says what a loop that came to its
end has recorded. `tableAdd` is an effect on a table that erasing undoes.
-/

namespace Framework

open List

variable {σ α β ε : Type}
variable {undo : α → σ → σ} {act : Nat → β → σ → Except ε (α × σ)}

/-- A state and the effects on it, in the order they were made. -/
structure UndoLog (σ α : Type) where
  state : σ
  log : List α

variable {l : UndoLog σ α}

/-- The state after the effects are undone, latest first. -/
def UndoLog.restored (undo : α → σ → σ) (l : UndoLog σ α) : σ := l.log.foldr undo l.state

def UndoLog.record (l : UndoLog σ α) (state : σ) (effect : α) : UndoLog σ α :=
  { state, log := l.log ++ [effect] }

theorem UndoLog.restored_record {st : σ} {effect : α}
    (h : undo effect st = l.state) : (l.record st effect).restored undo = l.restored undo := by
  simp [restored, record, foldr_append, h]

/-- For each item an effect, recorded once it is made; the first that fails ends
the loop. An action also depends on how many effects there are already. -/
def UndoLog.runEach (act : Nat → β → σ → Except ε (α × σ)) : List β → UndoLog σ α → Except ε Unit × UndoLog σ α
  | [], l => (.ok (), l)
  | item :: items, l =>
    match act l.log.length item l.state with
    | .error error => (.error error, l)
    | .ok (effect, state) => runEach act items (l.record state effect)

theorem UndoLog.restored_runEach (h : ∀ n item s effect s', act n item s = .ok (effect, s') → undo effect s' = s)
    (items : List β) (l : UndoLog σ α) : (l.runEach act items).2.restored undo = l.restored undo := by
  induction items generalizing l with
  | nil => rfl
  | cons item items ih =>
    grind [restored_record, runEach]

/-- The effects of a loop that came to its end: one for each item. -/
theorem UndoLog.runEach_forall₂ {made : β → α → Prop} {apply : σ → α → σ}
    {items : List β} {l' : UndoLog σ α} (hr : l.runEach act items = (.ok (), l'))
    (h : ∀ n item s effect s', act n item s = .ok (effect, s') → made item effect ∧ s' = apply s effect) :
    ∃ effects, List.Forall₂ made items effects ∧ l' = ⟨effects.foldl apply l.state, l.log ++ effects⟩ := by
  induction items generalizing l with
  | nil =>
    cases hr
    exact ⟨[], .nil, by simp⟩
  | cons item items ih =>
    rw [runEach] at hr
    split at hr
    · cases hr
    next effect st ha =>
      obtain ⟨hm, rfl⟩ := h _ _ _ _ _ ha
      obtain ⟨effects, hal, rfl⟩ := ih hr
      simp_all [record]

/-! ## Tables -/

section Table

variable [DecidableEq α]

/-- Adds an entry, unless it is refused or already there. -/
def tableAdd (refusal : Option ε) (present : ε) (entry : α) (table : List α) : Except ε (List α) :=
  match refusal with
  | some error => .error error
  | none => if entry ∈ table then .error present else .ok (table ++ [entry])

theorem tableAdd_ok {refusal : Option ε} {present : ε} {ent : α} {tbl tbl' : List α}
    (h : tableAdd refusal present ent tbl = .ok tbl') : tbl' = tbl ++ [ent] ∧ tbl'.erase ent = tbl := by
  cases refusal with
  | some err => cases h
  | none =>
    by_cases hm : ent ∈ tbl
    · simp [tableAdd, hm] at h
    have ht : tbl ++ [ent] = tbl' := by simpa [tableAdd, hm] using h
    grind

end Table

end Framework
