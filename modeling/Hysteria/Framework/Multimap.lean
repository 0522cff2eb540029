import Mathlib.Data.List.Basic

/-!
# Multimaps as lists

A list of keys and values in which a key may come more than once. `valuesOf`
determines what matters of it; `valuesOf_removeKey`, `valuesOf_setKey` and
`valuesOf_removeKeys` say what the operations change.
-/

namespace Framework

open List

variable {κ β : Type} [DecidableEq κ]

/-- The values of a key, in order. -/
def valuesOf (key : κ) (m : List (κ × β)) : List β := (m.filter (·.1 = key)).map (·.2)

/-- Without the values of a key. -/
def removeKey (key : κ) (m : List (κ × β)) : List (κ × β) := m.filter (·.1 ≠ key)

/-- One value for a key, in the place of those it had. -/
def setKey (key : κ) (value : β) (m : List (κ × β)) : List (κ × β) := removeKey key m ++ [(key, value)]

theorem valuesOf_removeKey (key other : κ) (m : List (κ × β)) :
    valuesOf key (removeKey other m) = if key = other then [] else valuesOf key m := by
  by_cases heq : key = other
  · subst heq
    simp [valuesOf, removeKey, filter_filter]
  rw [if_neg heq, valuesOf, removeKey, filter_filter, valuesOf]
  grind

theorem valuesOf_setKey (key other : κ) (val : β) (m : List (κ × β)) :
    valuesOf key (setKey other val m) = if key = other then [val] else valuesOf key m := by
  have ha : valuesOf key (setKey other val m) =
      valuesOf key (removeKey other m) ++ valuesOf key [(other, val)] := by simp [valuesOf, setKey]
  rw [ha, valuesOf_removeKey]
  by_cases heq : key = other
  · simp [heq, valuesOf]
  · simp [heq, Ne.symm heq, valuesOf]

theorem valuesOf_removeKeys (key : κ) (others : List κ) (m : List (κ × β)) :
    valuesOf key (others.foldl (fun m other => removeKey other m) m) =
      if key ∈ others then [] else valuesOf key m := by
  induction others generalizing m with
  | nil => simp
  | cons other others ih =>
    rw [foldl_cons, ih, valuesOf_removeKey]
    grind

/-- The first value of a key, as a search finds it. -/
theorem head?_valuesOf (key : κ) (m : List (κ × β)) : (valuesOf key m).head? = (m.find? (·.1 = key)).map (·.2) := by
  rw [valuesOf, head?_map, head?_filter]

end Framework
