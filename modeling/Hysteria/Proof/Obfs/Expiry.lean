import Hysteria.Impl.Transport.PacketCodec
import Hysteria.Proof.Obfs.Delivery

/-!
# Messages past their deadline

No socket calls `expire`, so a message past its deadline stays in the table. It
has no effect (`NoExpiredEffect`) exactly as long as no frame completes it, none clashes
with it and no new message of its source meets the limit with it (`NoExpiredUse`).
-/

namespace Hysteria.Proof

open Framework Impl Spec

variable {blake2b : List UInt8 → Vector UInt8 keyLength} {gecko : Gecko} {datagram : WireDatagram} {r r' : Reassembler}
  {fr : GeckoFrame} {ent : ReassemblyEntry}

section Definitions

variable (blake2b : List UInt8 → Vector UInt8 keyLength) (gecko : Gecko) (datagram : WireDatagram) (r : Reassembler)

/-- How many messages of the source lack a chunk and are not past their deadline. -/
def livePending (source : Str) (now : Nat) (m : Reassemblies) : Nat :=
  tally (fun key => (m.lookup key).any (fun entry => decide (now ≤ entry.deadline)) && decide (key.source = source)) m

/-- The chunk of the frame is in the table, for a message of as many chunks. -/
def Holds (m : Reassemblies) (source : Str) (frame : GeckoFrame) : Prop :=
  ∃ entry, m.lookup (keyOf source frame) = some entry ∧ entry.total = frame.totalChunks ∧
    entry.chunks[frame.chunkIndex.toNat]? = some (some frame.payload)

/-- The frame is of another message than the entry: of another number of chunks, or with
another chunk in its place. -/
def Clashes (entry : ReassemblyEntry) (frame : GeckoFrame) : Prop := entry.total ≠ frame.totalChunks ∨
    ∃ chunk, entry.chunks[frame.chunkIndex.toNat]? = some (some chunk) ∧ chunk ≠ frame.payload

/-- What is past its deadline has no part in what `decode` does: no chunk of it is in the
packet that is returned, and a chunk for which there is no message within its deadline is
dropped only if eight others are, of its source. -/
structure NoExpiredEffect : Prop where
  chunks : ∀ frame entry packet r', ReadsFrame blake2b gecko datagram.packet frame →
    r.entries.lookup (keyOf datagram.source.display frame) = some entry →
    (PacketCodec.gecko gecko).decode blake2b datagram r = some (some packet, r') → datagram.now ≤ entry.deadline
  dropped : ∀ frame r', ReadsFrame blake2b gecko datagram.packet frame →
    (∀ entry, r.entries.lookup (keyOf datagram.source.display frame) = some entry → entry.deadline < datagram.now) →
    (PacketCodec.gecko gecko).decode blake2b datagram r = some (none, r') →
    ¬Holds r'.entries datagram.source.display frame →
    maxReassembliesPerSource ≤ livePending datagram.source.display datagram.now r.entries

/-- The message that lacks only the chunk of the datagram is not past its deadline, nor is
one with the same number that the frame clashes with, nor one of eight messages of the
source that stand in the way of a new one. -/
structure NoExpiredUse : Prop where
  chunks : ∀ frame entry, ReadsFrame blake2b gecko datagram.packet frame →
    r.entries.lookup (keyOf datagram.source.display frame) = some entry → entry.total = frame.totalChunks →
    entry.chunks[frame.chunkIndex.toNat]? = some none → entry.received + 1 = entry.total.toNat →
    datagram.now ≤ entry.deadline
  clash : ∀ frame entry, ReadsFrame blake2b gecko datagram.packet frame →
    r.entries.lookup (keyOf datagram.source.display frame) = some entry → Clashes entry frame →
    datagram.now ≤ entry.deadline
  limit : ∀ frame, ReadsFrame blake2b gecko datagram.packet frame → keyOf datagram.source.display frame ∉ r.entries →
    r.count datagram.source.display = maxReassembliesPerSource →
    ∀ key entry, r.entries.lookup key = some entry → key.source = datagram.source.display →
      datagram.now ≤ entry.deadline

end Definitions

theorem pendingCount_le_livePending {src : Str} {now : Nat} {m : Reassemblies} :
    pendingCount src m ≤ livePending src now m ↔
      ∀ key ent, m.lookup key = some ent → key.source = src → now ≤ ent.deadline := by
  rw [pendingCount, livePending, tally_le_and]
  constructor
  · intro h key ent he hs
    have hl := h key (AList.lookup_isSome.mp (by rw [he]; rfl)) (decide_eq_true hs)
    grind
  intro h key hk hs
  obtain ⟨ent, he⟩ := Option.isSome_iff_exists.mp (AList.lookup_isSome.mpr hk)
  grind

theorem Bookkept.decode (h : Bookkept r) (hr : ReadsFrame blake2b gecko datagram.packet fr) :
    ∃ res r', (PacketCodec.gecko gecko).decode blake2b datagram r = some (res, r') ∧
      AcceptStep r.entries datagram.source.display fr datagram.now res r'.entries := by
  obtain ⟨res, r', hrc, hs, -⟩ := h.receivePacket blake2b gecko datagram.arrival
  obtain ⟨pkt, rfl, ha⟩ := hs.of_reads hr
  refine ⟨pkt, r', ?_, ha⟩
  rw [PacketCodec.decode, hrc]
  rfl

section AcceptStep

variable {m m' : Reassemblies} {src : Str} {now : Nat} {res : Option (List UInt8)}

/-- When a frame completes a message that is there. -/
theorem acceptStep_isSome_iff (h : AcceptStep m src fr now res m') (hm : TableKept m)
    (he : m.lookup (keyOf src fr) = some ent) :
    res.isSome = true ↔ ent.total = fr.totalChunks ∧ ent.chunks[fr.chunkIndex.toNat]? = some none ∧
      ent.received + 1 = ent.total.toNat := by
  have hmm : keyOf src fr ∈ m := AList.lookup_isSome.mp (by rw [he]; rfl)
  have hlc := (hm.entry _ _ he).lacking
  have hr : ∀ ent', Receives m src fr now ent' → ent' = ent := by
    rintro ent' (⟨hent', -⟩ | ⟨hn, -⟩)
    · exact Option.some.inj (hent'.symm.trans he)
    · exact absurd hmm hn
  cases h with
  | mismatched hent' ht =>
    grind
  | refused hn _ => exact absurd hmm hn
  | repeated hent' _ hch =>
    grind
  | stored hops _ hlt =>
    cases hr _ (opens_receives hops)
    grind
  | completed hops hsl hl =>
    cases hr _ (opens_receives hops)
    have ht : ent.total = fr.totalChunks := by
      rcases opens_receives hops with ⟨-, ht⟩ | ⟨hn, -⟩
      · exact ht
      · exact absurd hmm hn
    grind

theorem not_clashes (ht : ent.total = fr.totalChunks) (hsl : ent.chunks[fr.chunkIndex.toNat]? = some none) :
    ¬Clashes ent fr := by
  rintro (hne | ⟨chunk, hch, -⟩)
  · exact hne ht
  · cases hsl.symm.trans hch

/-- A frame is not dropped if there is an entry for it. -/
theorem opens_not_dropped {base : Reassemblies} (h : Opens m src fr now base ent)
    (hsl : ent.chunks[fr.chunkIndex.toNat]? = some none) :
    ¬((∃ ent, m.lookup (keyOf src fr) = some ent ∧ Clashes ent fr) ∨
      keyOf src fr ∉ m ∧ maxReassembliesPerSource ≤ pendingCount src m) := by
  have hnew : ∀ {other}, keyOf src fr ∉ m → m.lookup (keyOf src fr) ≠ some other := fun hn he => by
    rw [AList.lookup_eq_none.mpr hn] at he
    cases he
  cases h with
  | pending he ht =>
    rintro (⟨other, ho, hc⟩ | ⟨hn, -⟩)
    · cases he.symm.trans ho
      exact not_clashes ht hsl hc
    · exact hnew hn he
  | fresh hn hs _ =>
    rintro (⟨other, ho, -⟩ | ⟨-, hf⟩)
    · exact hnew hn ho
    · exact Nat.not_le.mpr hs hf
  | evicting hn hs _ _ _ =>
    rintro (⟨other, ho, -⟩ | ⟨-, hf⟩)
    · exact hnew hn ho
    · exact Nat.not_le.mpr hs hf

/-- When a frame is dropped. -/
theorem acceptStep_drops_iff (h : AcceptStep m src fr now res m') :
    res = none ∧ ¬Holds m' src fr ↔ (∃ ent, m.lookup (keyOf src fr) = some ent ∧ Clashes ent fr) ∨
      keyOf src fr ∉ m ∧ maxReassembliesPerSource ≤ pendingCount src m := by
  cases h with
  | mismatched he ht =>
    refine iff_of_true ⟨rfl, ?_⟩ (.inl ⟨_, he, .inl ht⟩)
    rintro ⟨other, ho, ht', -⟩
    cases he.symm.trans ho
    exact ht ht'
  | refused hn hs =>
    refine iff_of_true ⟨rfl, ?_⟩ (.inr ⟨hn, hs⟩)
    rintro ⟨other, ho, -⟩
    rw [AList.lookup_eq_none.mpr hn] at ho
    cases ho
  | repeated he ht hch =>
    constructor
    · rintro ⟨-, hh⟩
      exact .inl ⟨_, he, .inr ⟨_, hch, fun hp => hh ⟨_, he, ht, hp ▸ hch⟩⟩⟩
    · rintro (⟨other, ho, hc⟩ | ⟨hn, -⟩)
      · cases he.symm.trans ho
        obtain ⟨chunk, hch', hp⟩ := hc.resolve_left (not_not_intro ht)
        cases hch.symm.trans hch'
        refine ⟨rfl, ?_⟩
        rintro ⟨other, ho, -, hpl⟩
        cases he.symm.trans ho
        cases hch.symm.trans hpl
        exact hp rfl
      · rw [AList.lookup_eq_none.mpr hn] at he
        cases he
  | @stored base ent hops hsl _ =>
    refine iff_of_false ?_ (opens_not_dropped hops hsl)
    rintro ⟨-, hh⟩
    obtain ⟨hlt, -⟩ := List.getElem?_eq_some_iff.mp hsl
    have ht : (fill ent fr).total = fr.totalChunks := by
      rcases opens_receives hops with ⟨-, ht⟩ | ⟨-, rfl⟩
      · exact ht
      · rfl
    refine hh ⟨_, AList.lookup_insert _, ht, ?_⟩
    rw [fill, List.getElem?_set_self hlt]
  | completed hops hsl _ => exact iff_of_false (by simp) (opens_not_dropped hops hsl)

end AcceptStep

theorem noExpiredEffect_iff (h : Bookkept r) :
    NoExpiredEffect blake2b gecko datagram r ↔ NoExpiredUse blake2b gecko datagram r := by
  constructor
  · intro hef
    -- A frame that is dropped, for no message within its deadline, meets eight that are.
    have hlive : ∀ {fr}, ReadsFrame blake2b gecko datagram.packet fr →
        (∀ ent, r.entries.lookup (keyOf datagram.source.display fr) = some ent → ent.deadline < datagram.now) →
        ((∃ ent, r.entries.lookup (keyOf datagram.source.display fr) = some ent ∧ Clashes ent fr) ∨
          keyOf datagram.source.display fr ∉ r.entries ∧
            maxReassembliesPerSource ≤ pendingCount datagram.source.display r.entries) →
        ∀ key ent, r.entries.lookup key = some ent → key.source = datagram.source.display →
          datagram.now ≤ ent.deadline := by
      intro fr hr hpast hdrop
      obtain ⟨res, r', hd, hs⟩ := h.decode hr
      obtain ⟨rfl, hh⟩ := (acceptStep_drops_iff hs).mpr hdrop
      have hlv := hef.dropped fr r' hr hpast hd hh
      exact pendingCount_le_livePending.mp (Nat.le_trans (h.perSource _) hlv)
    refine ⟨fun fr ent hr he ht hsl hl => ?_, fun fr ent hr he hc => ?_, fun fr hr hn hc => ?_⟩
    · obtain ⟨res, r', hd, hs⟩ := h.decode hr
      obtain ⟨pkt, rfl⟩ := Option.isSome_iff_exists.mp
        ((acceptStep_isSome_iff hs h.toTableKept he).mpr ⟨ht, hsl, hl⟩)
      exact hef.chunks fr ent pkt r' hr he hd
    · by_contra hpast
      refine hpast (hlive hr (fun other ho => ?_) (.inl ⟨ent, he, hc⟩) _ ent he rfl)
      cases he.symm.trans ho
      exact Nat.not_le.mp hpast
    · have hf : maxReassembliesPerSource ≤ pendingCount datagram.source.display r.entries := by
        rw [← h.count, hc]
      refine hlive hr (fun ent he => ?_) (.inr ⟨hn, hf⟩)
      rw [AList.lookup_eq_none.mpr hn] at he
      cases he
  · intro hu
    refine ⟨fun fr ent pkt r' hr he hd => ?_, fun fr r' hr hpast hd hh => ?_⟩
    · obtain ⟨res, r₁, hdec', hs⟩ := h.decode hr
      cases hd.symm.trans hdec'
      obtain ⟨ht, hsl, hl⟩ := (acceptStep_isSome_iff hs h.toTableKept he).mp rfl
      exact hu.chunks fr ent hr he ht hsl hl
    obtain ⟨res, r₁, hdec', hs⟩ := h.decode hr
    cases hd.symm.trans hdec'
    rcases (acceptStep_drops_iff hs).mp ⟨rfl, hh⟩ with ⟨ent, he, hc⟩ | ⟨hn, hf⟩
    · exact absurd (hu.clash fr ent hr he hc) (Nat.not_le.mpr (hpast ent he))
    · have hc : r.count datagram.source.display = maxReassembliesPerSource := by
        rw [h.count]
        exact Nat.le_antisymm (h.perSource _) hf
      exact Nat.le_trans hf (pendingCount_le_livePending.mpr (hu.limit fr hr hn hc))

/-! ## Runs -/

theorem Bookkept.decodeAll (h : Bookkept r) (dgs : List WireDatagram) :
    ∃ pkts r', (PacketCodec.gecko gecko).decodeAll blake2b dgs r = some (pkts, r') ∧ Bookkept r' := by
  induction dgs generalizing r with
  | nil => exact ⟨[], r, rfl, h⟩
  | cons datagram dgs ih =>
    obtain ⟨res, r₁, hr, -, h₁⟩ := h.receivePacket blake2b gecko datagram.arrival
    obtain ⟨pkts, r', hrs, h'⟩ := ih h₁
    refine ⟨res.toOption.join :: pkts, r', ?_, h'⟩
    simp only [PacketCodec.decodeAll, PacketCodec.decode, hr, Option.map_some, Option.bind_eq_bind,
      Option.bind_some, hrs]
    rfl

/-- Along a run of `decode`, what is past its deadline has no effect exactly if
no datagram completes a message past its deadline or clashes with one, and none is the first
of a message whose source has eight others with one of them past its deadline. -/
theorem expired_no_effect_iff (blake2b : List UInt8 → Vector UInt8 keyLength) (gecko : Gecko)
    (datagrams : List WireDatagram) :
    (∀ before datagram after packets r, datagrams = before ++ datagram :: after →
        (PacketCodec.gecko gecko).decodeAll blake2b before .empty = some (packets, r) →
        NoExpiredEffect blake2b gecko datagram r) ↔
      ∀ before datagram after packets r, datagrams = before ++ datagram :: after →
        (PacketCodec.gecko gecko).decodeAll blake2b before .empty = some (packets, r) →
        NoExpiredUse blake2b gecko datagram r := by
  have hs : ∀ before datagram packets r,
      (PacketCodec.gecko gecko).decodeAll blake2b before .empty = some (packets, r) →
      (NoExpiredEffect blake2b gecko datagram r ↔ NoExpiredUse blake2b gecko datagram r) := by
    intro before datagram packets r hd
    obtain ⟨pkts', r', hdec', hr⟩ := bookkept_empty.decodeAll before
    cases hd.symm.trans hdec'
    exact noExpiredEffect_iff hr
  constructor
  · intro hef before datagram after packets r hd hr
    exact (hs before datagram packets r hr).mp (hef before datagram after packets r hd hr)
  · intro hu before datagram after packets r hd hr
    exact (hs before datagram packets r hr).mpr (hu before datagram after packets r hd hr)

section Example

def wirePeer : SocketAddr := { ip := .v4 0x7f000001#32, port := 4433 }

/-- One of two chunks, of one byte. -/
def wireChunk (messageId chunk byte : UInt8) (now : Nat) : WireDatagram :=
  ⟨wirePeer, zeroSalt ++ [0x80, messageId, chunk, 0, 0, byte], now, inOrder⟩

/-- Eight messages that lost their second chunk. -/
def lostChunks : List WireDatagram := (List.range 8).map fun i => wireChunk (UInt8.ofNat (i + 1)) 0x02 0x80 0

/-- A message one second after all deadlines. -/
def lateChunks : List WireDatagram := [wireChunk 9 0x02 0x80 9000000000, wireChunk 9 0x12 7 9000000000]

/-- The eight keep out the new message of their source. -/
theorem expired_blocks_source :
    (∃ r, (PacketCodec.gecko tightGecko).decodeAll zeroKey (lostChunks ++ lateChunks) .empty =
      some (List.replicate 10 none, r)) ∧
    ¬ ∀ before datagram after packets r, lostChunks ++ lateChunks = before ++ datagram :: after →
        (PacketCodec.gecko tightGecko).decodeAll zeroKey before .empty = some (packets, r) →
        NoExpiredEffect zeroKey tightGecko datagram r := by
  refine ⟨⟨_, rfl⟩, fun h => ?_⟩
  have he := h lostChunks (wireChunk 9 0x02 0x80 9000000000) [wireChunk 9 0x12 7 9000000000] _ _ rfl rfl
  have hr : ReadsFrame zeroKey tightGecko (zeroSalt ++ [0x80, 9, 0x02, 0, 0, 0x80]) ⟨9, 0, 2, [], [0x80]⟩ :=
    ⟨0x80, [9, 0x02, 0, 0, 0x80], by decide, by decide, by decide⟩
  have hlive := he.dropped _ _ hr (fun _ hl => ?_) rfl ?_
  · exact absurd hlive (by decide)
  · exact absurd (AList.lookup_isSome.mp (Option.isSome_of_mem hl)) (by decide)
  · rintro ⟨_, hl, -⟩
    exact absurd (AList.lookup_isSome.mp (Option.isSome_of_mem hl)) (by decide)

end Example

end Hysteria.Proof
