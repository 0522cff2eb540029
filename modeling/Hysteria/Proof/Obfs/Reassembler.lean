import Hysteria.Spec.Reassembly

/-!
# The reassembler keeps its two tables in step

`Balanced`: the count of every source is the number of its entries, and no
count is zero. Every operation keeps this, so that no count is ever decremented
below zero, and `accept` does to the entries what `AcceptStep` says
(`Balanced.accept`).
-/

namespace Hysteria.Proof

open Framework Impl Spec List

variable {r r' : Reassembler} {m base : Reassemblies} {src : Str} {key : ReassemblyKey} {fr : GeckoFrame}
  {ent : ReassemblyEntry} {now : Nat} {order : IterationOrder}

/-! ## The counts -/

structure Balanced (r : Reassembler) : Prop where
  count : ∀ source, r.count source = pendingCount source r.entries
  positive : ∀ source, r.perSource.lookup source ≠ some 0

theorem balanced_empty : Balanced .empty where
  count _ := rfl
  positive _ := by
    intro h
    cases h

theorem pendingCount_erase (h : key ∈ m) (src : Str) :
    pendingCount src (m.erase key) + (decide (key.source = src)).toNat = pendingCount src m :=
  tally_erase _ h

theorem pendingCount_insert (h : key ∉ m) (src : Str) :
    pendingCount src (m.insert key ent) = pendingCount src m + (decide (key.source = src)).toNat :=
  tally_insert _ h ent

theorem pendingCount_insert_mem (h : key ∈ m) (src : Str) : pendingCount src (m.insert key ent) = pendingCount src m :=
  tally_insert_mem _ h ent

/-- The source of an entry has a count, and it is not zero. -/
theorem Balanced.exists_count (h : Balanced r) (hk : key ∈ r.entries) :
    ∃ cnt, r.perSource.lookup key.source = some (cnt + 1) ∧ cnt + 1 = pendingCount key.source r.entries := by
  have hp : 0 < pendingCount key.source r.entries := tally_pos hk (decide_eq_true rfl)
  have hc := h.count key.source
  rw [Reassembler.count] at hc
  rcases hl : r.perSource.lookup key.source with _ | n
  · grind
  rw [hl] at hc
  obtain ⟨cnt, rfl⟩ : ∃ cnt, n = cnt + 1 := Nat.exists_eq_succ_of_ne_zero fun hz =>
    h.positive key.source (hz ▸ hl)
  exact ⟨cnt, rfl, hc⟩

/-- A count that has come down to zero has no row. -/
theorem lookup_perSource (counts : AList fun _ : Str => Nat) (counted : Str) (cnt : Nat) (src : Str) :
    (if cnt = 0 then counts.erase counted else counts.insert counted cnt).lookup src =
      if src = counted then (if cnt = 0 then none else some cnt) else counts.lookup src := by
  by_cases heq : src = counted
  · subst heq
    rw [if_pos rfl]
    split
    · exact AList.lookup_erase _ _
    · exact AList.lookup_insert _
  · rw [if_neg heq]
    grind [AList.lookup_erase_ne, AList.lookup_insert_ne]

/-- An entry is dropped, and its source has one less. -/
theorem Balanced.dropEntry (h : Balanced r) (key : ReassemblyKey) :
    ∃ r', r.dropEntry key = some r' ∧ r'.entries = r.entries.erase key ∧ Balanced r' := by
  by_cases hk : key ∈ r.entries
  · obtain ⟨cnt, hl, hc⟩ := h.exists_count hk
    unfold Reassembler.dropEntry
    rw [if_neg (not_not.mpr hk), hl]
    refine ⟨_, rfl, rfl, ⟨?_, ?_⟩⟩
    · intro src
      have he := pendingCount_erase hk src
      have hs := h.count src
      simp only [Reassembler.count, lookup_perSource] at hs ⊢
      by_cases heq : src = key.source
      · grind
      grind
    · intro src
      simp only [lookup_perSource]
      grind [h.positive]
  · refine ⟨r, ?_, (AList.ext (kerase_of_notMem_keys hk)).symm, h⟩
    unfold Reassembler.dropEntry
    rw [if_pos hk]

@[simp] theorem insertEntry_entries (r : Reassembler) (key : ReassemblyKey) (tot : UInt8) (now : Nat) :
    (r.insertEntry key tot now).entries = r.entries.insert key (freshEntry tot now) := rfl

/-- A message gets its entry, and its source one more. -/
theorem Balanced.insertEntry (h : Balanced r) (hn : key ∉ r.entries) (tot : UInt8) (now : Nat) :
    Balanced (r.insertEntry key tot now) where
  count src := by
    have hs := h.count src
    rw [insertEntry_entries, pendingCount_insert hn]
    simp only [Reassembler.insertEntry, Reassembler.count] at hs ⊢
    by_cases heq : src = key.source
    · subst heq
      simp_all
    · rw [AList.lookup_insert_ne heq, decide_eq_false (Ne.symm heq), Bool.toNat_false, Nat.add_zero]
      exact hs
  positive src := by
    simp only [Reassembler.insertEntry]
    by_cases heq : src = key.source
    · subst heq
      simp
    · rw [AList.lookup_insert_ne heq]
      exact h.positive src

theorem Balanced.update (h : Balanced r) (hk : key ∈ r.entries) (ent : ReassemblyEntry) :
    Balanced { r with entries := r.entries.insert key ent } where
  count src := by
    rw [pendingCount_insert_mem hk]
    exact h.count src
  positive := h.positive

/-- The message closest to its deadline is dropped. -/
theorem Balanced.evictOldest (h : Balanced r) (hp : 0 < r.entries.entries.length) (order : IterationOrder) :
    ∃ r' oldest ent, r.evictOldest order = some r' ∧ r.entries.lookup oldest = some ent ∧
      (∀ key other, r.entries.lookup key = some other → ent.deadline ≤ other.deadline) ∧
      r'.entries = r.entries.erase oldest ∧ Balanced r' := by
  unfold Reassembler.evictOldest
  cases hm : (order.arrange r.entries.entries).argmin (·.2.deadline) with
  | none =>
    have hl := (order.perm r.entries.entries).length_eq
    simp_all
  | some oldest =>
    obtain ⟨r', hd, he, hb⟩ := h.dropEntry oldest.1
    have hmm := (order.perm _).mem_iff.mp (argmin_mem hm)
    refine ⟨r', oldest.1, oldest.2, hd, AList.mem_lookup_iff.mpr hmm, ?_, he, hb⟩
    intro key other ho
    have hmem' := (order.perm _).mem_iff.mpr (AList.mem_lookup_iff.mp ho)
    exact le_of_mem_argmin (f := fun ent => ent.2.deadline) hmem' hm

theorem Balanced.foldl_dropEntry (h : Balanced r) (keys : List ReassemblyKey) :
    ∃ r', keys.foldlM Reassembler.dropEntry r = some r' ∧ r'.entries = keys.foldl (fun m key => m.erase key) r.entries ∧
      Balanced r' := by
  induction keys generalizing r with
  | nil => exact ⟨r, rfl, rfl, h⟩
  | cons key keys ih =>
    obtain ⟨r₁, hd, he, hb⟩ := h.dropEntry key
    grind

/-! ## What a frame does -/

/-- The chunk goes into an entry with room for it. -/
theorem Balanced.storeChunk (h : Balanced r) (hen : r.entries.lookup key = some ent)
    (hs : ent.chunks[fr.chunkIndex.toNat]? = some none) :
    ∃ res r', r.storeChunk key fr = some (res, r') ∧ Balanced r' ∧ (ent.received + 1 < ent.total.toNat ∧ res = none ∧
          r'.entries = r.entries.insert key (fill ent fr) ∨
        ent.total.toNat ≤ ent.received + 1 ∧ res = some (packet (fill ent fr)) ∧
          r'.entries = r.entries.erase key) := by
  have hk : key ∈ r.entries := AList.lookup_isSome.mp (by rw [hen]; rfl)
  unfold Reassembler.storeChunk
  rw [hen]
  simp only [hs]
  have hu := h.update hk (fill ent fr)
  split
  · rename_i hlt
    exact ⟨none, _, rfl, hu, .inl ⟨hlt, rfl, rfl⟩⟩
  rename_i hge
  obtain ⟨r', hd, he, hb⟩ := hu.dropEntry key
  rw [erase_insert] at he
  exact ⟨_, r', congrArg (Option.map _) hd, hb, .inr ⟨Nat.le_of_not_lt hge, rfl, he⟩⟩

/-- The second half of `accept`, for an entry that is open. -/
theorem Balanced.accept_opened (h : Balanced r) (hops : Opens m src fr now base ent)
    (hbs : r.entries.lookup (keyOf src fr) = some ent)
    (hi : ∀ ent, r.entries.insert (keyOf src fr) ent = base.insert (keyOf src fr) ent)
    (her : r.entries.erase (keyOf src fr) = base.erase (keyOf src fr))
    (ht : ent.total = fr.totalChunks) (hs : ent.chunks[fr.chunkIndex.toNat]? = some none) :
    ∃ res r', r.storeChunk (keyOf src fr) fr = some (res, r') ∧
      AcceptStep m src fr now res r'.entries ∧ Balanced r' := by
  obtain ⟨res, r', hst, hb, ⟨hlt, rfl, he⟩ | ⟨hge, rfl, he⟩⟩ := h.storeChunk hbs hs
  · rw [hi] at he
    exact ⟨none, r', hst, he ▸ .stored hops hs (ht ▸ hlt), hb⟩
  · rw [her] at he
    exact ⟨_, r', hst, he ▸ .completed hops hs (ht ▸ hge), hb⟩

theorem Balanced.accept_new (h : Balanced r) (hn : keyOf src fr ∉ r.entries) (hfr : ValidFrame fr)
    (hops : Opens m src fr now r.entries (freshEntry fr.totalChunks now)) :
    ∃ res r', (r.insertEntry (keyOf src fr) fr.totalChunks now).storeChunk (keyOf src fr) fr =
        some (res, r') ∧ AcceptStep m src fr now res r'.entries ∧ Balanced r' := by
  refine (h.insertEntry hn fr.totalChunks now).accept_opened hops ?_ ?_ ?_ rfl ?_
  · simp
  · simp
  · rw [insertEntry_entries, erase_insert]
  · exact getElem?_replicate_of_lt hfr.index

/-- `accept` never panics, and does to the entries what `AcceptStep` says. -/
theorem Balanced.accept (h : Balanced r)
    (hln : ∀ key ent, r.entries.lookup key = some ent → ent.chunks.length = ent.total.toNat)
    (hfr : ValidFrame fr) (order : IterationOrder) (src : Str) (now : Nat) :
    ∃ res r', r.accept order src fr now = some (res, r') ∧
      AcceptStep r.entries src fr now res r'.entries ∧ Balanced r' := by
  unfold Reassembler.accept
  simp only
  rw [show ReassemblyKey.mk src fr.messageId = keyOf src fr from rfl, h.count src]
  cases hl : r.entries.lookup (keyOf src fr) with
  | some ent =>
    simp only
    split
    · rename_i ht
      exact ⟨none, r, rfl, .mismatched hl ht, h⟩
    rename_i ht
    rw [not_not] at ht
    have hi : fr.chunkIndex.toNat < ent.chunks.length := by
      rw [hln _ _ hl, ht]
      exact hfr.index
    rcases hsl : ent.chunks.get ⟨_, hi⟩ with _ | chunk
    · exact h.accept_opened (.pending hl ht) hl (fun _ => rfl) rfl ht
        (List.getElem?_eq_some_iff.mpr ⟨hi, hsl⟩)
    have hch := List.getElem?_eq_some_iff.mpr ⟨hi, hsl⟩
    refine ⟨none, r, ?_, .repeated hl ht hch, h⟩
    unfold Reassembler.storeChunk
    rw [hl]
    simp only [hch]
  | none =>
    have hn := AList.lookup_eq_none.mp hl
    simp only
    split
    · rename_i hf
      exact ⟨none, r, rfl, .refused hn hf, h⟩
    rename_i hs
    have hs := Nat.lt_of_not_le hs
    split
    · rename_i hf
      have hp : 0 < r.entries.entries.length := Nat.lt_of_lt_of_le (by decide) hf
      obtain ⟨r₁, oldest, ent, hev, hen, holdest, he, hb⟩ := h.evictOldest hp order
      rw [hev]
      have hnew' : keyOf src fr ∉ r₁.entries := by
        simp_all
      exact hb.accept_new hnew' hfr (he ▸ .evicting hn hs hf hen holdest)
    · rename_i hr
      exact h.accept_new hn hfr (.fresh hn hs (by omega))

end Hysteria.Proof
