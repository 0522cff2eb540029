import Hysteria.Impl.Tun.LinuxPolicy

/-!
# The priorities of the policy rules

The block that `select_priority` finds is the first one in which no rule has its
priority, and the rules of `strict_rules` stay in their block: each `goto` goes on to a
later priority, at which there is a rule of the same family.
-/

namespace Hysteria.Proof

open Impl List

variable {existing : List RuleMessage} {start : Nat}

/-- A block of eleven priorities that no rule has; the blocks start at 9000. -/
structure FreeBlock (existing : List RuleMessage) (start : Nat) : Prop where
  aligned : ∃ k, start = 9000 + 11 * k
  bounded : start ≤ 31989
  unused : ∀ p, start ≤ p ∧ p < start + 11 → ∀ rule ∈ existing, rulePriority rule ≠ some p

theorem unused_iff : ((range' start priorityBlockSize).all fun p => !(existing.filterMap rulePriority).contains p) ↔
    ∀ p, start ≤ p ∧ p < start + 11 → ∀ rule ∈ existing, rulePriority rule ≠ some p := by
  simp [priorityBlockSize, mem_range'_1]

/-- The search goes over the blocks in order. -/
theorem selectPriority_some (h : selectPriority existing = some start) :
    FreeBlock existing start ∧ ∀ other, FreeBlock existing other → start ≤ other := by
  obtain ⟨hu, i, hi, rfl, hb⟩ := find?_eq_some_iff_getElem.mp h
  rw [length_range'] at hi
  have hi : i < 2090 := hi
  have hs : ∀ j, 9000 + 11 * j = preferredPriority + priorityBlockSize * j := fun _ => rfl
  simp only [getElem_range', ← hs] at hu hb ⊢
  refine ⟨⟨⟨i, rfl⟩, by omega, unused_iff.mp hu⟩, ?_⟩
  rintro _ ⟨⟨j, rfl⟩, -, hj⟩
  by_contra hlt
  have := hb j (by omega)
  rw [unused_iff.mpr hj] at this
  cases this

theorem selectPriority_none (h : selectPriority existing = none) (start : Nat) : ¬ FreeBlock existing start := by
  rintro ⟨⟨k, rfl⟩, hb, hu⟩
  have hk : k < 2090 := by omega
  exact find?_eq_none.mp h _ (mem_range'.mpr ⟨k, hk, rfl⟩) (unused_iff.mpr hu)

/-- The rules with a `goto`, and the rules that end a block. -/
theorem strictRules_goto {table : UInt8} {v4 : BitVec 32 × UInt8} {v6 : BitVec 128 × UInt8}
    {rule : RuleMessage} {dst : Nat} (hr : rule ∈ strictRules table start v4 v6) (hd : .goto dst ∈ rule.attributes) :
    dst = start + 10 ∧ nopRule rule.family (start + 10) ∈ strictRules table start v4 v6 ∧
      ∃ p, rulePriority rule = some p ∧ p < start + 10 := by
  simp only [strictRules, mem_cons, not_mem_nil, or_false] at hr
  rcases hr with rfl | rfl | rfl | rfl | rfl | rfl | rfl | rfl | rfl <;>
    simp [tableRule, gotoRule, dnsMainRule, nopRule, baseRule, priorityBlockSize] at hd <;> subst hd
  · exact ⟨rfl, by simp [strictRules, gotoRule, baseRule, nopRule, priorityBlockSize], start + 1, rfl, by omega⟩
  · exact ⟨rfl, by simp [strictRules, gotoRule, baseRule, nopRule, priorityBlockSize], start, rfl, by omega⟩

/-- Each rule has one priority. -/
theorem strictRules_priority {table : UInt8} {v4 : BitVec 32 × UInt8} {v6 : BitVec 128 × UInt8} {rule : RuleMessage}
    (hr : rule ∈ strictRules table start v4 v6) :
    ∃ p, rulePriority rule = some p ∧ (∀ p', .priority p' ∈ rule.attributes → p' = p) ∧ start ≤ p ∧ p < start + 11 := by
  simp only [strictRules, mem_cons, not_mem_nil, or_false] at hr
  rcases hr with rfl | rfl | rfl | rfl | rfl | rfl | rfl | rfl | rfl <;>
    refine ⟨_, rfl, ?_, ?_⟩ <;>
    simp [tableRule, gotoRule, dnsMainRule, nopRule, baseRule, priorityBlockSize]

/-- The block chosen is the first free one. In it the rules have their priorities and the
targets of their `goto`s, which lead to a later rule of the same family. -/
theorem policy_priority_blocks (existing : List RuleMessage) :
    (∀ start, selectPriority existing = some start ↔
      FreeBlock existing start ∧ ∀ other, FreeBlock existing other → start ≤ other) ∧
    (selectPriority existing = none ↔ ∀ start, ¬ FreeBlock existing start) ∧
    ∀ table start ipv4Address ipv6Address, ∀ rule ∈ strictRules table start ipv4Address ipv6Address,
      ∃ priority, rulePriority rule = some priority ∧ (∀ p, .priority p ∈ rule.attributes → p = priority) ∧
        start ≤ priority ∧ priority < start + 11 ∧
        ∀ destination, .goto destination ∈ rule.attributes → priority < destination ∧ destination < start + 11 ∧
          ∃ target ∈ strictRules table start ipv4Address ipv6Address,
            target.family = rule.family ∧ rulePriority target = some destination := by
  refine ⟨fun start => ⟨selectPriority_some, fun ⟨hf, hl⟩ => ?_⟩, ⟨selectPriority_none, fun h => ?_⟩, ?_⟩
  · rcases hs : selectPriority existing with _ | found
    · exact absurd hf (selectPriority_none hs start)
    obtain ⟨hf', hl'⟩ := selectPriority_some hs
    grind
  · rcases hs : selectPriority existing with _ | found
    · rfl
    · exact absurd (selectPriority_some hs).1 (h found)
  intro table start v4 v6 rule hr
  obtain ⟨p, hp, hu, hl, hb⟩ := strictRules_priority hr
  refine ⟨p, hp, hu, hl, hb, fun dst hd => ?_⟩
  obtain ⟨rfl, ht, p', hp', hlt⟩ := strictRules_goto hr hd
  cases hp.symm.trans hp'
  exact ⟨hlt, by omega, _, ht, rfl, rfl⟩

end Hysteria.Proof
