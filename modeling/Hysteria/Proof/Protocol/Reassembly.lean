import Hysteria.Framework.Rows
import Hysteria.Framework.Slots
import Hysteria.Impl.Protocol.Fragment

/-!
# What the reassembler emits

`feedAll_emits`: whatever is fed to a new reassembler, each message it emits
is one it was fed, unfragmented, or is put together (`Assembled`) from messages
it was fed that carry the same packet ID and the same fragment count, one for
each number.
-/

namespace Hysteria.Proof

open Framework Impl List

variable {d : Defragger} {f out : UdpMessage}

/-- `out` is put together from `parts`, the fragments `0 … n - 1` of packet
`packetId`. -/
structure Assembled (packetId : UInt16) (parts : List UdpMessage) (out : UdpMessage) : Prop where
  two_le : 2 ≤ parts.length
  packetId_eq : ∀ f ∈ parts, f.packetId = packetId
  count : ∀ f ∈ parts, f.fragmentCount.toNat = parts.length
  id : ∀ i (h : i < parts.length), parts[i].fragmentId.toNat = i
  address : ∃ f ∈ parts, out.address = f.address
  data : out.data = parts.flatMap (·.data)

/-- The reassembler holds messages that satisfy `P`, each in the slot of its
number. -/
structure Stored (P : UdpMessage → Prop) (d : Defragger) : Prop where
  slot : ∀ {i : Nat} {f : UdpMessage}, d.fragments[i]? = some (some f) →
    P f ∧ f.packetId = d.packetId ∧ f.fragmentCount.toNat = d.fragments.length ∧ f.fragmentId.toNat = i
  received : d.received = filled d.fragments

/-- What the reassembler may emit if it was fed messages that satisfy `P`. -/
def Emits (P : UdpMessage → Prop) (out : UdpMessage) : Prop := (P out ∧ out.fragmentCount ≤ 1) ∨
    ∃ packetId parts, (∀ f ∈ parts, P f) ∧ Assembled packetId parts out

variable {P : UdpMessage → Prop}

theorem stored_default : Stored P {} where
  slot h := by simp at h
  received := rfl

theorem Stored.set (h : Stored P d) (hP : P f) (hid : f.packetId = d.packetId)
    (hc : f.fragmentCount.toNat = d.fragments.length) (hfr : d.fragments[f.fragmentId.toNat]? = some none) :
    Stored P { d with fragments := d.fragments.set f.fragmentId.toNat (some f), received := d.received + 1 } where
  slot hs := by
    rw [length_set]
    rcases getElem?_set_cases hs with ⟨rfl, hf⟩ | ⟨-, hs⟩
    · cases hf
      exact ⟨hP, hid, hc, rfl⟩
    · exact h.slot hs
  received := by
    rw [filled_set hfr, h.received]

/-- A full vector of fragments is the message put together. -/
theorem Stored.assembled (h : Stored P d) (h2 : 2 ≤ d.fragments.length)
    (hfl : d.received = d.fragments.length) (hf : some f ∈ d.fragments)
    (ha : out.address = f.address) (hd : out.data = (d.fragments.filterMap id).flatMap (·.data)) :
    ∃ parts, (∀ f ∈ parts, P f) ∧ Assembled d.packetId parts out := by
  obtain ⟨parts, hps⟩ := exists_eq_map_some (h.received.symm.trans hfl)
  have hs : ∀ i (hi : i < parts.length), P parts[i] ∧ parts[i].packetId = d.packetId ∧
      parts[i].fragmentCount.toNat = parts.length ∧ parts[i].fragmentId.toNat = i := by
    intro i hi
    have := h.slot (i := i) (f := parts[i]) (by simp [hps, hi])
    rwa [hps, length_map] at this
  have hm : ∀ g ∈ parts, P g ∧ g.packetId = d.packetId ∧ g.fragmentCount.toNat = parts.length := by
    intro g hg
    obtain ⟨i, hi, rfl⟩ := getElem_of_mem hg
    exact ⟨(hs i hi).1, (hs i hi).2.1, (hs i hi).2.2.1⟩
  refine ⟨parts, fun g hg => (hm g hg).1, ?_, fun g hg => (hm g hg).2.1, fun g hg => (hm g hg).2.2,
    fun i hi => (hs i hi).2.2.2, ⟨f, ?_, ha⟩, ?_⟩
  · rwa [hps, length_map] at h2
  · simpa [hps] using hf
  · rw [hd, hps, filterMap_map]
    simp

theorem filled_one {i n : Nat} (h : i < n) : filled ((replicate n none).set i (some f)) = 1 := by
  rw [filled_set (by simp [h]), filled_replicate_none]

theorem Stored.feed (h : Stored P d) {m : UdpMessage} (hm : P m) :
    (∀ out, (d.feed m).1 = some out → Emits P out) ∧ Stored P (d.feed m).2 := by
  unfold Defragger.feed
  split
  · rename_i h1
    exact ⟨fun out ho => .inl (Option.some.inj ho ▸ ⟨hm, h1⟩), h⟩
  rename_i h1
  split
  · exact ⟨nofun, h⟩
  rename_i hlt
  have h1 : 2 ≤ m.fragmentCount.toNat := by
    rw [UInt8.le_iff_toNat_le, show (1 : UInt8).toNat = 1 from rfl] at h1
    omega
  have hlt : m.fragmentId.toNat < m.fragmentCount.toNat := by
    rw [ge_iff_le, UInt8.le_iff_toNat_le] at hlt
    omega
  simp only
  split
  · refine ⟨nofun, fun {j} {f} hs => ?_, (filled_one hlt).symm⟩
    rcases getElem?_set_cases hs with ⟨rfl, hf⟩ | ⟨-, hs⟩
    · cases hf
      exact ⟨hm, rfl, by simp, rfl⟩
    · simp [getElem?_replicate] at hs
  rename_i hsm
  obtain ⟨hid, hc⟩ : m.packetId = d.packetId ∧ d.fragments.length = m.fragmentCount.toNat := by
    simpa using hsm
  split
  swap
  · exact ⟨nofun, h⟩
  rename_i hfr
  have hst := h.set hm hid hc.symm hfr
  split
  · rename_i hfl
    refine ⟨fun out ho => .inr ?_, hst⟩
    cases Option.some.inj ho
    exact ⟨_, hst.assembled (f := m) (by simpa [hc] using h1) hfl
      (mem_iff_getElem?.mpr ⟨m.fragmentId.toNat, by simp [hc, hlt]⟩) rfl rfl⟩
  · exact ⟨nofun, hst⟩

theorem Stored.feedAll : ∀ (ms : List UdpMessage) {d : Defragger}, Stored P d → (∀ m ∈ ms, P m) →
    ∀ out ∈ (d.feedAll ms).filterMap id, Emits P out
  | [], _, _, _, out, ho => by simp [Defragger.feedAll] at ho
  | m :: ms, d, h, hms, out, ho => by
    obtain ⟨he, hd⟩ := h.feed (hms m mem_cons_self)
    rw [Defragger.feedAll] at ho
    obtain ⟨_, ho, rfl⟩ := mem_filterMap.mp ho
    rcases mem_cons.mp ho with ho | ho
    · exact he out ho.symm
    · exact hd.feedAll ms (fun m hm => hms m (mem_cons_of_mem _ hm)) out
        (mem_filterMap.mpr ⟨_, ho, rfl⟩)

theorem feedAll_emits {ms : List UdpMessage} (h : ∀ m ∈ ms, P m)
    (ho : out ∈ (Defragger.feedAll {} ms).filterMap id) : Emits P out :=
  stored_default.feedAll ms h out ho

end Hysteria.Proof
