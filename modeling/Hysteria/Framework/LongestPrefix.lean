import Mathlib.Data.List.MinMax
import Hysteria.Framework.Ip

/-!
# Longest-prefix matching

A table of routes of any type, each of which covers some addresses and has a
length: `Longest` is the choice among those that cover an address. The addresses
that agree with a given one in a prefix of `n` bits are all the same to the routes
no longer than `n` (`longest_iff_of_le`). `IpAddr.samePrefix` is the agreement of
IP addresses.
-/

namespace Framework

open List

/-! ## Prefixes of addresses -/

/-- The first `length` bits agree, of two addresses of one family. -/
def IpAddr.samePrefix (length : Nat) : IpAddr → IpAddr → Bool
  | .v4 a, .v4 b => a >>> (32 - length) = b >>> (32 - length)
  | .v6 a, .v6 b => a >>> (128 - length) = b >>> (128 - length)
  | .v4 _, .v6 _ => false
  | .v6 _, .v4 _ => false

namespace IpAddr

variable {a b c : IpAddr} {m n : Nat}

theorem samePrefix_refl (n : Nat) (a : IpAddr) : samePrefix n a a := by
  cases a <;> simp [samePrefix]

theorem samePrefix_symm (h : samePrefix n a b) : samePrefix n b a := by
  cases a <;> cases b <;> simp_all [samePrefix]

theorem samePrefix_trans (h : samePrefix n a b) (h' : samePrefix n b c) : samePrefix n a c := by
  cases a <;> cases b <;> cases c <;> simp_all [samePrefix]

theorem ushiftRight_eq_of_le {w : Nat} {x y : BitVec w} {i j : Nat} (hij : i ≤ j) (h : x >>> i = y >>> i) :
    x >>> j = y >>> j := by
  obtain ⟨k, rfl⟩ := Nat.exists_eq_add_of_le hij
  rw [BitVec.shiftRight_add, BitVec.shiftRight_add, h]

theorem samePrefix_of_le (hmn : m ≤ n) (h : samePrefix n a b) : samePrefix m a b := by
  cases a <;> cases b <;> simp only [samePrefix, decide_eq_true_eq, Bool.false_eq_true] at h ⊢
  · exact ushiftRight_eq_of_le (by omega) h
  · exact ushiftRight_eq_of_le (by omega) h

end IpAddr

/-! ## The longest route -/

section Longest

variable {ρ α : Type} (contains : ρ → α → Bool) (length : ρ → Nat)

/-- No route that covers the address is longer. -/
def Longest (table : List ρ) (ip : α) (route : ρ) : Prop :=
  route ∈ table ∧ contains route ip ∧ ∀ other ∈ table, contains other ip → length other ≤ length route

instance [DecidableEq ρ] (table : List ρ) (ip : α) (route : ρ) :
    Decidable (Longest contains length table ip route) := inferInstanceAs (Decidable (_ ∧ _))

variable {contains length} {tbl larger : List ρ} {ip other : α} {rt : ρ} {n : Nat}

/-- A table that covers an address has a choice for it. -/
theorem exists_longest (hmm : rt ∈ tbl) (hc : contains rt ip) : ∃ longest, Longest contains length tbl ip longest := by
  have hcv : rt ∈ tbl.filter (contains · ip) := mem_filter.mpr ⟨hmm, hc⟩
  rcases hm : (tbl.filter (contains · ip)).argmax length with _ | longest
  · simp [argmax_eq_none.mp hm] at hcv
  obtain ⟨hl, hc⟩ := mem_filter.mp (argmax_mem hm)
  refine ⟨longest, hl, hc, ?_⟩
  intro other ho hcv
  exact le_of_mem_argmax (mem_filter.mpr ⟨ho, hcv⟩) hm

/-- A choice from a larger table is one from the table, if it is there. -/
theorem Longest.of_subset (h : Longest contains length larger ip rt) (hs : tbl ⊆ larger)
    (hm : rt ∈ tbl) : Longest contains length tbl ip rt :=
  ⟨hm, h.2.1, fun _ ho hc => h.2.2 _ (hs ho) hc⟩

/-- Where no route longer than `n` covers an address, the choice is that of any
address with the same `n` bits among the routes no longer than `n`. -/
theorem longest_iff_of_le (hs : ∀ rt, length rt ≤ n → contains rt ip = contains rt other)
    (hsh : ∀ rt ∈ tbl, contains rt ip → length rt ≤ n) :
    Longest contains length tbl ip rt ↔
      Longest contains length (tbl.filter fun rt => length rt ≤ n) other rt := by
  simp only [Longest, mem_filter, decide_eq_true_eq]
  constructor
  · grind
  grind

end Longest

end Framework
