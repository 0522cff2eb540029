import Mathlib.Data.List.Forall2

/-!
# Code that can fail

Loops in `Except ε` (`mapM_ok`, `mem_mapM_iff`, `forM_ok`, `foldlM_invariant`),
and conditions on how code ends (`Ends`, with `Ends.bind` and `Ends.branch`). Stateful code,
`StateT σ (Except ε)`: what a result says about the parts of the code that gave
it (`bind_ok`, `mapM_forall₂`), and what its errors can be (`FailsOnly`).
-/

namespace Framework

open List

variable {σ ε α β : Type}

variable {xs : List α} {ys : List β}

theorem bind_eq_ok {x : Except ε α} {f : α → Except ε β} {b : β} (h : x >>= f = .ok b) :
    ∃ a, x = .ok a ∧ f a = .ok b := by
  rcases x with e | a
  · cases h
  · exact ⟨a, rfl, h⟩

theorem bind_eq_ok_iff {x : Except ε α} {f : α → Except ε β} {b : β} : x >>= f = .ok b ↔ ∃ a, x = .ok a ∧ f a = .ok b :=
  ⟨bind_eq_ok, fun ⟨_, ha, hf⟩ => ha ▸ hf⟩

theorem bind_ne_error {x : Except ε α} {f : α → Except ε β} {e : ε} (hx : x ≠ .error e)
    (hf : ∀ a, x = .ok a → f a ≠ .error e) : x >>= f ≠ .error e := by
  rcases x with e' | a
  · exact fun h => hx (congrArg Except.error (Except.error.inj h))
  · exact hf a rfl

theorem mapError_eq_ok_iff {δ : Type} {x : Except ε α} {f : ε → δ} {a : α} : x.mapError f = .ok a ↔ x = .ok a := by
  cases x <;> simp [Except.mapError]

theorem map_eq_ok_iff {x : Except ε α} {f : α → β} {b : β} : x.map f = .ok b ↔ ∃ a, x = .ok a ∧ b = f a := by
  cases x <;> simp [Except.map, eq_comm]

theorem toOption_bind (x : Except ε α) (f : α → Except ε β) :
    (x >>= f).toOption = x.toOption.bind fun a => (f a).toOption := by
  cases x <;> rfl

/-! ## Loops -/

theorem mapM_ok {f : α → Except ε β} {g : α → β} :
    ∀ {xs : List α}, (∀ x ∈ xs, f x = .ok (g x)) → xs.mapM f = .ok (xs.map g)
  | [], _ => rfl
  | x :: xs, h => by
    rw [mapM_cons, h x mem_cons_self, mapM_ok fun y hy => h y (mem_cons_of_mem _ hy)]
    rfl

theorem mapM_cons_ok_iff {f : α → Except ε β} {x : α} :
    (x :: xs).mapM f = .ok ys ↔ ∃ y rest, f x = .ok y ∧ xs.mapM f = .ok rest ∧ ys = y :: rest := by
  rw [mapM_cons]
  cases f x with
  | error err => exact ⟨nofun, nofun⟩
  | ok y =>
  rcases xs.mapM f with err | rest
  · exact ⟨nofun, nofun⟩
  constructor
  · rintro ⟨⟩
    exact ⟨y, rest, rfl, rfl, rfl⟩
  · rintro ⟨_, _, ⟨⟩, ⟨⟩, rfl⟩
    rfl

theorem mapM_exists_iff {f : α → Except ε β} : (∃ ys, xs.mapM f = .ok ys) ↔ ∀ x ∈ xs, ∃ y, f x = .ok y := by
  induction xs with
  | nil => exact ⟨fun _ => nofun, fun _ => ⟨[], rfl⟩⟩
  | cons x xs ih =>
    rw [forall_mem_cons, ← ih]
    constructor
    · rintro ⟨ys, h⟩
      obtain ⟨y, ys, hy, hys, -⟩ := mapM_cons_ok_iff.mp h
      exact ⟨⟨y, hy⟩, ys, hys⟩
    · rintro ⟨⟨y, hy⟩, ys, hys⟩
      exact ⟨y :: ys, mapM_cons_ok_iff.mpr ⟨y, ys, hy, hys, rfl⟩⟩

theorem length_mapM_ok {f : α → Except ε β} (h : xs.mapM f = .ok ys) : ys.length = xs.length := by
  induction xs generalizing ys with
  | nil =>
    cases h
    rfl
  | cons x xs ih =>
    obtain ⟨y, ys, -, hys, rfl⟩ := mapM_cons_ok_iff.mp h
    rw [length_cons, length_cons, ih hys]

/-- The results of a loop are those of its elements. -/
theorem mem_mapM_iff {f : α → Except ε β} (h : xs.mapM f = .ok ys) {y : β} : y ∈ ys ↔ ∃ x ∈ xs, f x = .ok y := by
  induction xs generalizing ys with
  | nil =>
    cases h
    simp
  | cons x xs ih =>
    obtain ⟨first, rest, hf, hr, rfl⟩ := mapM_cons_ok_iff.mp h
    simp [ih hr, hf, eq_comm]

theorem forM_ok {f : α → Except ε Unit} (h : xs.forM f = .ok ()) : ∀ x ∈ xs, f x = .ok () := by
  induction xs with
  | nil => simp
  | cons x xs ih =>
    obtain ⟨_, hx, h⟩ := bind_eq_ok h
    exact forall_mem_cons.mpr ⟨hx, ih h⟩

/-- What holds before a loop and is kept by every round holds of what it returns. -/
theorem foldlM_invariant {I : β → Prop} {f : β → α → Except ε β} (hs : ∀ b x b', I b → f b x = .ok b' → I b')
    {b b' : β} (hb : I b) (h : xs.foldlM f b = .ok b') : I b' := by
  induction xs generalizing b with
  | nil =>
    cases h
    exact hb
  | cons x xs ih =>
    rw [foldlM_cons] at h
    obtain ⟨next, hx, h⟩ := bind_eq_ok h
    exact ih (hs b x next hb hx) h

/-! ## Conditions -/

/-- If the code fails, it is in one of these ways; if it returns a value, it is one of these. -/
structure Ends (P : ε → Prop) (Q : α → Prop) (x : Except ε α) : Prop where
  of_error : ∀ e, x = .error e → P e
  of_ok : ∀ a, x = .ok a → Q a

namespace Ends

variable {P : ε → Prop} {Q : α → Prop} {R : β → Prop} {x : Except ε α} {f : α → Except ε β}

theorem ok {a : α} (h : Q a) : Ends P Q (.ok a : Except ε α) where
  of_error e he := by cases he
  of_ok b hb := by
    cases hb
    exact h

theorem error {e : ε} (h : P e) : Ends P Q (.error e : Except ε α) where
  of_error e' he := by
    cases he
    exact h
  of_ok b hb := by cases hb

theorem mono {Q' : α → Prop} (hx : Ends P Q x) (h : ∀ a, Q a → Q' a) : Ends P Q' x :=
  ⟨hx.of_error, fun a ha => h a (hx.of_ok a ha)⟩

theorem bind (hx : Ends P Q x) (hf : ∀ a, Q a → Ends P R (f a)) : Ends P R (x >>= f) := by
  rcases h : x with e | a
  · exact error (hx.of_error e h)
  · exact hf a (hx.of_ok a h)

theorem branch {c : Prop} [Decidable c] {y : Except ε α} (hx : c → Ends P Q x) (hy : ¬ c → Ends P Q y) :
    Ends P Q (if c then x else y) := by
  split
  · rename_i hc
    exact hx hc
  · rename_i hc
    exact hy hc

end Ends

/-! ## Stateful code -/

theorem bind_ok {x : StateT σ (Except ε) α} {f : α → StateT σ (Except ε) β} {s t : σ} {b : β}
    (h : (x >>= f) s = .ok (b, t)) : ∃ a s', x s = .ok (a, s') ∧ f a s' = .ok (b, t) := by
  rcases hx : x s with err | r
  · simp only [bind, StateT.bind, hx, Except.bind] at h
    cases h
  · simp only [bind, StateT.bind, hx, Except.bind] at h
    exact ⟨r.1, r.2, rfl, h⟩

theorem pure_ok {s t : σ} {a b : α} (h : (pure a : StateT σ (Except ε) α) s = .ok (b, t)) : b = a := by
  cases h
  rfl

/-- Each result of a loop comes from its element. -/
theorem mapM_forall₂ {f : α → StateT σ (Except ε) β} {s t : σ} (h : xs.mapM f s = .ok (ys, t)) :
    List.Forall₂ (fun x y => ∃ s t, f x s = .ok (y, t)) xs ys := by
  induction xs generalizing ys s t with
  | nil =>
    cases pure_ok h
    exact .nil
  | cons x xs ih =>
    rw [mapM_cons] at h
    obtain ⟨y, s₁, hy, h⟩ := bind_ok h
    obtain ⟨rest, s₂, hr, h⟩ := bind_ok h
    cases pure_ok h
    exact .cons ⟨s, s₁, hy⟩ (ih hr)

/-! ## What can fail -/

/-- The code has no other errors than these. -/
def FailsOnly (P : ε → Prop) (x : StateT σ (Except ε) α) : Prop := ∀ s e, x s = .error e → P e

namespace FailsOnly

variable {P : ε → Prop}

theorem pure (a : α) : FailsOnly P (pure a : StateT σ (Except ε) α) := nofun

theorem bind {x : StateT σ (Except ε) α} {f : α → StateT σ (Except ε) β} (hx : FailsOnly P x)
    (hf : ∀ a s t, x s = .ok (a, t) → FailsOnly P (f a)) : FailsOnly P (x >>= f) := by
  intro s e h
  simp only [Bind.bind, StateT.bind] at h
  rcases hxs : x s with err | r
  · rw [hxs] at h
    cases h
    exact hx s e hxs
  · rw [hxs] at h
    exact hf r.1 s r.2 hxs r.2 e h

theorem mapM {f : α → StateT σ (Except ε) β} (h : ∀ x ∈ xs, FailsOnly P (f x)) : FailsOnly P (xs.mapM f) := by
  induction xs with
  | nil => exact .pure []
  | cons x xs ih =>
    rw [mapM_cons]
    refine (h x mem_cons_self).bind fun y _ _ _ => ?_
    exact (ih fun z hz => h z (mem_cons_of_mem _ hz)).bind fun ys _ _ _ => .pure (y :: ys)

end FailsOnly

end Framework
