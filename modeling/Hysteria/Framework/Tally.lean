import Mathlib.Data.List.AList

/-!
# Counting the rows of a table

`tally p m` is the number of keys of the table `m` with the property `p`. A new
row adds one if its key has it, erasing a row takes one away, and a row that is
overwritten changes nothing.
-/

namespace Framework

open List

variable {κ : Type} {β : κ → Type} {m : AList β} {k : κ}

def tally (p : κ → Bool) (m : AList β) : Nat := m.keys.countP p

theorem tally_true (m : AList β) : tally (fun _ => true) m = m.entries.length := by
  rw [tally, countP_true, AList.keys, keys, length_map]

theorem tally_pos {p : κ → Bool} (h : k ∈ m) (hp : p k = true) : 0 < tally p m :=
  countP_pos_iff.mpr ⟨k, AList.mem_keys.mp h, hp⟩

/-- As many keys have both properties as the first: that one implies the other. -/
theorem tally_le_and {p q : κ → Bool} :
    tally p m ≤ tally (fun k => q k && p k) m ↔ ∀ k ∈ m, p k = true → q k = true := by
  rw [tally, tally, ← countP_filter, countP_eq_length_filter]
  constructor
  · intro h k hk hp
    have heq := Nat.le_antisymm countP_le_length h
    exact countP_eq_length.mp heq k (mem_filter.mpr ⟨AList.mem_keys.mp hk, hp⟩)
  intro h
  refine Nat.le_of_eq (countP_eq_length.mpr fun k hk => ?_).symm
  obtain ⟨hm, hp⟩ := mem_filter.mp hk
  exact h k (AList.mem_keys.mpr hm) hp

variable [DecidableEq κ]

theorem tally_erase (p : κ → Bool) (h : k ∈ m) : tally p (m.erase k) + (p k).toNat = tally p m := by
  have hp := perm_cons_erase (AList.mem_keys.mp h)
  rw [tally, tally, AList.keys_erase, hp.countP_eq, countP_cons]
  cases p k <;> rfl

theorem tally_erase_le (p : κ → Bool) (m : AList β) (k : κ) : tally p (m.erase k) ≤ tally p m := by
  rw [tally, AList.keys_erase]
  exact erase_sublist.countP_le

theorem lookup_of_erase {k' : κ} {v : β k} (h : (m.erase k').lookup k = some v) : m.lookup k = some v := by
  by_cases heq : k = k'
  · subst heq
    rw [AList.lookup_erase] at h
    cases h
  · rwa [AList.lookup_erase_ne heq] at h

theorem lookup_of_foldl_erase {ks : List κ} {v : β k}
    (h : (ks.foldl (fun m k => m.erase k) m).lookup k = some v) : m.lookup k = some v := by
  induction ks generalizing m with
  | nil => exact h
  | cons k' ks ih => exact lookup_of_erase (ih h)

theorem tally_insert (p : κ → Bool) (h : k ∉ m) (v : β k) : tally p (m.insert k v) = tally p m + (p k).toNat := by
  rw [tally, AList.keys_insert, erase_of_not_mem (mt AList.mem_keys.mpr h), countP_cons, tally]
  cases p k <;> rfl

theorem tally_insert_mem (p : κ → Bool) (h : k ∈ m) (v : β k) : tally p (m.insert k v) = tally p m := by
  have hp := perm_cons_erase (AList.mem_keys.mp h)
  rw [tally, AList.keys_insert, tally, hp.countP_eq]

theorem erase_insert (m : AList β) (k : κ) (v : β k) : (m.insert k v).erase k = m.erase k := by
  apply AList.ext
  exact kerase_cons_eq (s := ⟨k, v⟩) rfl

end Framework
