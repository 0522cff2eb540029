import Mathlib.Logic.Basic

/-!
# Programs that ask

A `Dialogue` asks its environment and goes on with the answer, until it is done or
fails. The environment is a relation `serves` between its state before a request, the
request, an answer and its state after; `Runs serves` says how the program can end in
it. `runs_done`, `runs_fail`, `runs_ask` and `runs_bind` give the runs of a program by
those of its parts.
-/

namespace Framework

/-- A program that asks requests `ρ`, each with its answers, and ends with a result `β` or an error `ε`. -/
inductive Dialogue {ρ : Type} (Answer : ρ → Type) (ε β : Type) : Type
  | done (result : β)
  | fail (error : ε)
  | ask (request : ρ) (next : Answer request → Dialogue Answer ε β)

namespace Dialogue

variable {ρ σ ε β γ : Type} {Answer : ρ → Type}

protected def bind : Dialogue Answer ε β → (β → Dialogue Answer ε γ) → Dialogue Answer ε γ
  | done result, f => f result
  | fail error, _ => fail error
  | ask request next, f => ask request fun answer => (next answer).bind f

instance : Monad (Dialogue Answer ε) where
  pure := done
  bind := Dialogue.bind

def ofExcept : Except ε β → Dialogue Answer ε β
  | .ok result => done result
  | .error error => fail error

/-- The program can end with `result`, and leave the environment in the last state. -/
inductive Runs (serves : σ → (request : ρ) → Answer request → σ → Prop) :
    σ → Dialogue Answer ε β → Except ε β → σ → Prop
  | done (s : σ) (result : β) : Runs serves s (.done result) (.ok result) s
  | fail (s : σ) (error : ε) : Runs serves s (.fail error) (.error error) s
  | ask {s t u : σ} {request : ρ} {answer : Answer request} {next : Answer request → Dialogue Answer ε β}
      {result : Except ε β} (served : serves s request answer t) (rest : Runs serves t (next answer) result u) :
      Runs serves s (.ask request next) result u

variable {serves : σ → (req : ρ) → Answer req → σ → Prop} {s t u : σ}

theorem runs_done {res : β} {ending : Except ε β} :
    Runs serves s (.done res : Dialogue Answer ε β) ending t ↔ ending = .ok res ∧ t = s := by
  constructor
  · intro h
    cases h
    exact ⟨rfl, rfl⟩
  · rintro ⟨rfl, rfl⟩
    exact .done _ _

theorem runs_fail {err : ε} {ending : Except ε β} :
    Runs serves s (.fail err : Dialogue Answer ε β) ending t ↔ ending = .error err ∧ t = s := by
  constructor
  · intro h
    cases h
    exact ⟨rfl, rfl⟩
  · rintro ⟨rfl, rfl⟩
    exact .fail _ _

theorem runs_ask {req : ρ} {next : Answer req → Dialogue Answer ε β} {ending : Except ε β} :
    Runs serves s (.ask req next) ending u ↔
      ∃ ans t, serves s req ans t ∧ Runs serves t (next ans) ending u := by
  constructor
  · intro h
    cases h with
    | ask served rest => exact ⟨_, _, served, rest⟩
  · rintro ⟨ans, t, served, rest⟩
    exact .ask served rest

theorem runs_ofExcept {res ending : Except ε β} :
    Runs serves s (ofExcept res : Dialogue Answer ε β) ending t ↔ ending = res ∧ t = s := by
  cases res with
  | ok res => exact runs_done
  | error err => exact runs_fail

/-- A program in two parts ends in its second part, or fails in its first. -/
theorem runs_bind {x : Dialogue Answer ε β} {f : β → Dialogue Answer ε γ} {ending : Except ε γ} :
    Runs serves s (x >>= f) ending u ↔ (∃ res t, Runs serves s x (.ok res) t ∧ Runs serves t (f res) ending u) ∨
        ∃ err, ending = .error err ∧ Runs serves s x (.error err) u := by
  induction x generalizing s with
  | done res =>
    constructor
    · intro h
      exact .inl ⟨res, s, .done s res, h⟩
    rintro (⟨b, t, hx, hf⟩ | ⟨err, -, hx⟩)
    · cases hx
      exact hf
    · cases hx
  | fail err =>
    constructor
    · intro h
      obtain ⟨rfl, rfl⟩ := runs_fail.1 h
      exact .inr ⟨err, rfl, .fail _ err⟩
    rintro (⟨b, t, hx, -⟩ | ⟨e, rfl, hx⟩)
    · cases hx
    · obtain ⟨⟨⟩, rfl⟩ := runs_fail.1 hx
      exact .fail _ err
  | ask req next ih =>
    constructor
    · intro h
      obtain ⟨ans, t, served, rest⟩ := runs_ask.1 h
      obtain ⟨b, v, hx, hf⟩ | ⟨err, rfl, hx⟩ := (ih ans).1 rest
      · exact .inl ⟨b, v, .ask served hx, hf⟩
      · exact .inr ⟨err, rfl, .ask served hx⟩
    · rintro (⟨b, v, hx, hf⟩ | ⟨err, rfl, hx⟩)
      · obtain ⟨ans, t, served, rest⟩ := runs_ask.1 hx
        exact .ask served ((ih ans).2 (.inl ⟨b, v, rest, hf⟩))
      · obtain ⟨ans, t, served, rest⟩ := runs_ask.1 hx
        exact .ask served ((ih ans).2 (.inr ⟨err, rfl, rest⟩))

/-- A second part that only computes. -/
theorem runs_bind_done {x : Dialogue Answer ε β} {f : β → Dialogue Answer ε γ} {ending : Except ε γ}
    (h : Runs serves s (x >>= f) ending u) (g : β → γ) (hf : ∀ b, f b = .done (g b)) :
    ∃ res, Runs serves s x res u ∧ ending = res.map g := by
  obtain ⟨b, t, hx, he⟩ | ⟨err, rfl, hx⟩ := runs_bind.1 h
  · rw [hf] at he
    obtain ⟨rfl, rfl⟩ := runs_done.1 he
    exact ⟨.ok b, hx, rfl⟩
  · exact ⟨.error err, hx, rfl⟩

theorem runs_bind_ok {x : Dialogue Answer ε β} {f : β → Dialogue Answer ε γ} {res : γ} :
    Runs serves s (x >>= f) (.ok res) u ↔
      ∃ b t, Runs serves s x (.ok b) t ∧ Runs serves t (f b) (.ok res) u := by
  rw [runs_bind]
  simp

end Dialogue

end Framework
