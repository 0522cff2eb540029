import Hysteria.Proof.Obfs.Frame
import Hysteria.Proof.Obfs.Reassembler

/-!
# The reassembler's bookkeeping

`TableKept` is what holds of the table of messages: the two limits, and that every
entry lacks a chunk and has another. `reassembler_bookkeeping`: it holds, with
the counts in step, after every sequence of calls.
-/

namespace Hysteria.Proof

open Framework Impl Spec List

variable {r r' : Reassembler} {m m' base : Reassemblies} {source : Str} {key : ReassemblyKey} {frame : GeckoFrame}
  {entry : ReassemblyEntry} {result : Option (List UInt8)} {now : Nat}

structure TableKept (m : Reassemblies) : Prop where
  perSource : ∀ source, pendingCount source m ≤ maxReassembliesPerSource
  size : m.entries.length ≤ maxReassemblies
  entry : ∀ key entry, m.lookup key = some entry → Partial entry

theorem tableKept_empty : TableKept ∅ where
  perSource _ := Nat.zero_le _
  size := Nat.zero_le _
  entry key entry h := by
    cases h

theorem TableKept.erase (h : TableKept m) (key : ReassemblyKey) : TableKept (m.erase key) where
  perSource source := Nat.le_trans (tally_erase_le _ m key) (h.perSource source)
  size := by
    rw [← tally_true]
    refine Nat.le_trans (tally_erase_le _ m key) ?_
    rw [tally_true]
    exact h.size
  entry _ _ hlook := h.entry _ _ (lookup_of_erase hlook)

/-! ## Entries -/

theorem slotted_fresh (h : ValidFrame frame) (now : Nat) : Slotted (freshEntry frame.totalChunks now) where
  length := length_replicate
  received := (filled_replicate_none _).symm
  atLeast := h.atLeast
  atMost := h.atMost

theorem slotted_fill (h : Slotted entry) (hs : entry.chunks[frame.chunkIndex.toNat]? = some none) :
    Slotted (fill entry frame) where
  length := by
    rw [Spec.fill, length_set]
    exact h.length
  received := by
    rw [Spec.fill, filled_set hs, h.received]
  atLeast := h.atLeast
  atMost := h.atMost

/-- The entry that a frame goes into has room for all chunks. -/
theorem opens_slotted (h : Opens m source frame now base entry) (hm : TableKept m) (hfr : ValidFrame frame) :
    Slotted entry ∧ entry.total = frame.totalChunks := by
  cases h with
  | pending he ht => exact ⟨(hm.entry _ _ he).toSlotted, ht⟩
  | fresh _ _ _ => exact ⟨slotted_fresh hfr now, rfl⟩
  | evicting _ _ _ _ _ => exact ⟨slotted_fresh hfr now, rfl⟩

theorem opens_kept (h : Opens m source frame now base entry) (hm : TableKept m) : TableKept base := by
  cases h with
  | pending _ _ => exact hm
  | fresh _ _ _ => exact hm
  | evicting _ _ _ _ _ => exact hm.erase _

/-- The table has the message already, or room for it. -/
theorem opens_room (h : Opens m source frame now base entry) (hm : TableKept m) : keyOf source frame ∈ base ∨
      keyOf source frame ∉ base ∧ pendingCount source base < maxReassembliesPerSource ∧
        base.entries.length < maxReassemblies := by
  cases h with
  | pending he _ => exact .inl (AList.lookup_isSome.mp (by rw [he]; rfl))
  | fresh hn hs hr => exact .inr ⟨hn, hs, hr⟩
  | evicting hn hs hf he _ =>
    rename_i oldest _ _
    have hmm : oldest ∈ m := AList.lookup_isSome.mp (by rw [he]; rfl)
    have hsz := tally_erase (fun _ => true) hmm
    rw [tally_true, tally_true, Bool.toNat_true] at hsz
    refine .inr ⟨?_, Nat.lt_of_le_of_lt (tally_erase_le _ m _) hs, ?_⟩
    · simp_all
    · have := hm.size
      omega

theorem TableKept.insert (h : TableKept m) (he : Partial entry)
    (hr : key ∈ m ∨ key ∉ m ∧ pendingCount key.source m < maxReassembliesPerSource ∧
      m.entries.length < maxReassemblies) : TableKept (m.insert key entry) where
  perSource source := by
    rcases hr with hm | ⟨hn, hs, -⟩
    · rw [pendingCount_insert_mem hm]
      exact h.perSource source
    rw [pendingCount_insert hn]
    by_cases heq : key.source = source
    · grind
    grind [TableKept.perSource]
  size := by
    rw [← tally_true]
    rcases hr with hm | ⟨hn, -, hl⟩
    · rw [tally_insert_mem _ hm, tally_true]
      exact h.size
    · rw [tally_insert _ hn, tally_true, Bool.toNat_true]
      exact hl
  entry key' entry' hlook := by
    by_cases heq : key' = key
    · subst heq
      simp_all
    · rw [AList.lookup_insert_ne heq] at hlook
      exact h.entry _ _ hlook

/-! ## Runs -/

theorem acceptStep_kept (h : AcceptStep m source frame now result m') (hm : TableKept m) (hfr : ValidFrame frame) :
    TableKept m' := by
  cases h with
  | mismatched _ _ => exact hm
  | refused _ _ => exact hm
  | repeated _ _ _ => exact hm
  | stored hops hsl hl =>
    obtain ⟨hs, ht⟩ := opens_slotted hops hm hfr
    refine (opens_kept hops hm).insert ⟨slotted_fill hs hsl, Nat.le_add_left 1 _, ?_⟩ (opens_room hops hm)
    rw [← ht] at hl
    exact hl
  | completed hops _ _ => exact (opens_kept hops hm).erase _

/-- The two tables of the reassembler. -/
structure Bookkept (r : Reassembler) : Prop extends Balanced r, TableKept r.entries

theorem bookkept_empty : Bookkept .empty := ⟨balanced_empty, tableKept_empty⟩

theorem Bookkept.accept (h : Bookkept r) (hfr : ValidFrame frame) (order : IterationOrder) (source : Str) (now : Nat) :
    ∃ result r', r.accept order source frame now = some (result, r') ∧
      AcceptStep r.entries source frame now result r'.entries ∧ Bookkept r' := by
  obtain ⟨result, r', ha, hs, hb⟩ :=
    h.toBalanced.accept (fun key entry he => (h.entry key entry he).length) hfr order source now
  exact ⟨result, r', ha, hs, ⟨hb, acceptStep_kept hs h.toTableKept hfr⟩⟩

theorem Bookkept.expire (h : Bookkept r) (now : Nat) :
    ∃ r', r.expire now = some r' ∧ (∀ key entry, r'.entries.lookup key = some entry →
      r.entries.lookup key = some entry) ∧ Bookkept r' := by
  obtain ⟨r', hex, he, hb⟩ := h.toBalanced.foldl_dropEntry
    ((r.entries.entries.filter fun entry => now > entry.2.deadline).map (·.1))
  refine ⟨r', hex, fun key entry hl => lookup_of_foldl_erase (he ▸ hl), ⟨hb, ?_⟩⟩
  rw [he]
  generalize (r.entries.entries.filter fun entry => now > entry.2.deadline).map (·.1) = keys
  have hk := h.toTableKept
  generalize r.entries = m at hk
  induction keys generalizing m with
  | nil => exact hk
  | cons key keys ih => exact ih _ (hk.erase key)

theorem Bookkept.apply (h : Bookkept r) {operation : Reassembler.Operation} (hd : Decoded operation) :
    ∃ r', r.apply operation = some r' ∧ Bookkept r' := by
  cases operation with
  | accept order source frame now =>
    obtain ⟨input, hi⟩ := hd
    obtain ⟨result, r', ha, -, hk⟩ := h.accept (GeckoFrame.validFrame_of_decode hi) order source now
    exact ⟨r', congrArg (Option.map _) ha, hk⟩
  | expire now =>
    obtain ⟨r', he, -, hk⟩ := h.expire now
    exact ⟨r', he, hk⟩

theorem Bookkept.run (h : Bookkept r) {operations : List Reassembler.Operation}
    (hd : ∀ operation ∈ operations, Decoded operation) : ∃ r', r.run operations = some r' ∧ Bookkept r' := by
  induction operations generalizing r with
  | nil => exact ⟨r, rfl, h⟩
  | cons operation operations ih =>
    obtain ⟨r₁, ha, hk⟩ := h.apply (hd operation mem_cons_self)
    obtain ⟨r', hr, hkept'⟩ := ih hk fun o ho => hd o (mem_cons_of_mem _ ho)
    refine ⟨r', ?_, hkept'⟩
    rw [Reassembler.run, foldlM_cons, ha]
    exact hr

/-- After every sequence of calls the count of a source is the number of its
entries and not zero where it is kept; both limits hold; every entry has one
slot for each of its chunks, at least one of them filled and one empty. That the
run ends says that no count was decremented below zero. -/
theorem reassembler_bookkeeping (operations : List Reassembler.Operation)
    (hdecoded : ∀ operation ∈ operations, Decoded operation) :
    ∃ r, Reassembler.empty.run operations = some r ∧
      (∀ source, r.count source = r.entries.keys.countP (·.source = source)) ∧
      (∀ source, r.perSource.lookup source ≠ some 0) ∧
      (∀ source, r.count source ≤ maxReassembliesPerSource) ∧
      r.entries.entries.length ≤ maxReassemblies ∧
      ∀ key entry, r.entries.lookup key = some entry →
        entry.chunks.length = entry.total.toNat ∧ 2 ≤ entry.total.toNat ∧ entry.total.toNat ≤ 8 ∧
          entry.received = entry.chunks.countP Option.isSome ∧ 1 ≤ entry.received ∧
          entry.received < entry.total.toNat := by
  obtain ⟨r, hr, hk⟩ := bookkept_empty.run hdecoded
  refine ⟨r, hr, hk.count, hk.positive, ?_, hk.size, ?_⟩
  · intro source
    rw [hk.count]
    exact hk.perSource source
  intro key entry he
  have hs := hk.entry key entry he
  exact ⟨hs.length, hs.atLeast, hs.atMost, hs.received, hs.some, hs.lacking⟩

def inOrder : IterationOrder := ⟨id, fun _ => .refl _⟩

/-- The first of two chunks. -/
def firstFrame : GeckoFrame where
  messageId := 1
  chunkIndex := 0
  totalChunks := 2
  padding := []
  payload := [7]

theorem reassembler_bookkeeping_first :
    ∃ r, Reassembler.empty.run [.accept inOrder "peer".toList firstFrame 0, .expire 1] = some r ∧
      ∀ source, r.count source = r.entries.keys.countP (·.source = source) := by
  obtain ⟨r, hr, hc, -⟩ := reassembler_bookkeeping
    [.accept inOrder "peer" firstFrame 0, .expire 1] (by
      intro operation hop
      rcases mem_pair.mp hop with rfl | rfl
      · exact ⟨[0x80, 1, 0x02, 0, 0, 7], by decide⟩
      · trivial)
  exact ⟨r, hr, hc⟩

end Hysteria.Proof
