import Hysteria.Impl.Ports
import Hysteria.Impl.Sniff
import Hysteria.Framework.Fallible

/-!
# What port unions denote

An entry denotes a range of ports (`PortEntry`). Both parsers read the ranges of the entries,
so that the ports of a server and the ports that are sniffed are the same for the same text.
-/

namespace Hysteria.Proof

open Framework Impl List

variable {lib : Libraries} {entry val field : Str} {p : UInt16} {r : UInt16 × UInt16}

/-- The inclusive range of an entry: one port, or two with the first dash between them, in any order. -/
inductive PortEntry : Str → UInt16 × UInt16 → Prop
  | port {entry : Str} {p : UInt16} (hport : parseU16 entry = some p) : PortEntry entry (p, p)
  | range {a b : Str} {x y : UInt16} (hdash : '-' ∉ a) (hstart : parseU16 a = some x) (hstop : parseU16 b = some y)
    (hle : x ≤ y) : PortEntry (a ++ '-' :: b) (x, y)
  | reversed {a b : Str} {x y : UInt16} (hdash : '-' ∉ a) (hstart : parseU16 a = some x)
    (hstop : parseU16 b = some y) (hlt : y < x) : PortEntry (a ++ '-' :: b) (y, x)

/-- The range that an entry denotes is the one that is read. -/
theorem optionalPortsEntry_iff (field : Str) : optionalPortsEntry field entry = .ok r ↔ PortEntry entry r := by
  unfold optionalPortsEntry
  constructor
  · intro h
    rcases hs : splitOnce '-' entry with _ | ⟨a, b⟩ <;> simp only [hs, Option.getD_none, Option.getD_some] at h
    · rcases hp : parseU16 entry with _ | p <;> simp only [hp, reduceCtorEq] at h
      cases h
      simpa [orderedPorts] using PortEntry.port hp
    · obtain ⟨hd, rfl⟩ := splitOnce_eq_some hs
      split at h
      · next ha hb =>
        cases h
        unfold orderedPorts
        split
        · next hlt => exact .reversed hd ha hb hlt
        · next hle => exact .range hd ha hb (UInt16.not_lt.mp hle)
      · cases h
  · rintro (hp | ⟨hd, ha, hb, hle⟩ | ⟨hd, ha, hb, hlt⟩)
    · have hd : '-' ∉ entry := not_mem_of_parseU16 hp (by decide) (by decide)
      simp [splitOnce_of_not_mem hd, hp, orderedPorts]
    · grind [splitOnce_append, orderedPorts]
    · simp [splitOnce_append hd, ha, hb, orderedPorts, hlt]

theorem PortEntry.unique {r' : UInt16 × UInt16} (h : PortEntry entry r) (h' : PortEntry entry r') : r = r' :=
  Except.ok.inj (((optionalPortsEntry_iff []).mpr h).symm.trans ((optionalPortsEntry_iff []).mpr h'))

theorem PortEntry.le (h : PortEntry entry r) : r.1 ≤ r.2 := by
  cases h with
  | port => exact UInt16.le_refl _
  | range _ _ _ hle => exact hle
  | reversed _ _ _ hlt => exact UInt16.le_of_lt hlt

end Hysteria.Proof
