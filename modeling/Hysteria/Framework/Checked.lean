import Hysteria.Framework.Bytes

/-!
# Code that can panic

`Failure` tells an error that the code returns from a panic. Code with its
indices checked (`getOrError`, `getOrPanic`) is compared with the code without them.
-/

namespace Framework

inductive Failure (ε : Type) where
  | error (e : ε)
  /-- An index or a slice out of range, or an `unwrap` of nothing. -/
  | panicked
deriving DecidableEq

variable {ε α : Type}

/-- `x.ok_or(e)?`. -/
def getOrError (x : Option α) (e : ε) : Except (Failure ε) α :=
  match x with
  | none => .error (.error e)
  | some a => .ok a

/-- `x[i]`, `x[i..j]`, `x.unwrap()`. -/
def getOrPanic (x : Option α) : Except (Failure ε) α :=
  match x with
  | none => .error .panicked
  | some a => .ok a

@[simp] theorem getOrError_some (a : α) (e : ε) : getOrError (some a) e = .ok a := rfl

@[simp] theorem getOrPanic_some (a : α) : getOrPanic (some a) = (.ok a : Except (Failure ε) α) := rfl

theorem getOrError_eq_ok_iff {x : Option α} {e : ε} {a : α} : getOrError x e = .ok a ↔ x = some a := by
  cases x <;> simp [getOrError]

@[simp] theorem toOption_getOrError (x : Option α) (e : ε) : (getOrError x e).toOption = x := by
  cases x <;> rfl

@[simp] theorem toOption_getOrPanic (x : Option α) : (getOrPanic x : Except (Failure ε) α).toOption = x := by
  cases x <;> rfl

theorem getOrError_bind_ne_panicked {β : Type} {x : Option α} {e : ε} {f : α → Except (Failure ε) β}
    (h : ∀ a, x = some a → f a ≠ .error .panicked) : getOrError x e >>= f ≠ .error .panicked := by
  rcases x with _ | a
  · nofun
  · exact h a rfl

/-- The result of code that does not panic; `e` stands for a panic. -/
def withoutPanic (e : ε) : Except (Failure ε) α → Except ε α
  | .ok a => .ok a
  | .error (.error e) => .error e
  | .error .panicked => .error e

theorem withoutPanic_eq_ok_iff {e : ε} {x : Except (Failure ε) α} {a : α} : withoutPanic e x = .ok a ↔ x = .ok a := by
  rcases x with (_ | _) | _ <;> simp [withoutPanic]

theorem eq_mapError_withoutPanic (e : ε) {x : Except (Failure ε) α} (h : x ≠ .error .panicked) :
    x = (withoutPanic e x).mapError .error := by
  rcases x with (_ | _) | _
  · rfl
  · exact absurd rfl h
  · rfl

theorem mapError_ne_panicked (x : Except ε α) : x.mapError Failure.error ≠ .error .panicked := by
  cases x <;> simp [Except.mapError]

/-- `<[u8; n]>::try_from(bytes).ok()`. -/
def arrayFrom (n : Nat) (bytes : List UInt8) : Option (List UInt8) := if bytes.length = n then some bytes else none

theorem arrayFrom_of_slice {bs part : List UInt8} {start n : Nat} (h : slice bs start (start + n) = some part) :
    arrayFrom n part = some part :=
  if_pos (length_of_slice h)

/-- The conversion of a slice to an array of its length succeeds. -/
theorem array_eq_ok_iff {bs : List UInt8} {start n : Nat} {truncated invalid : ε} {f : List UInt8 → α} {x : α} :
    (do let part ← getOrError (slice bs start (start + n)) truncated
        let part ← getOrError (arrayFrom n part) invalid
        return f part) = .ok x ↔ ∃ part, slice bs start (start + n) = some part ∧ f part = x := by
  rcases hsl : slice bs start (start + n) with _ | part
  · exact ⟨nofun, nofun⟩
  · simp [arrayFrom_of_slice hsl, bind, Except.bind, pure, Except.pure]

end Framework
