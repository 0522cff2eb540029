import Hysteria.Proof.Obfs.Encode

/-!
# Every packet is delivered

`Collecting` follows the chunks of one message through the table of the
receiver, whatever order they come in and whatever comes between them. A frame
of another message leaves it as it is (`Collecting.foreign`), a chunk is added
(`Collecting.accept`), the last one gives the packet (`Collecting.completed`).
`gecko_delivers` puts the sender in front.
-/

namespace Hysteria.Proof

open Framework Impl Spec
open List hiding Vector

variable {blake2b : List UInt8 → Vector UInt8 keyLength} {gecko : Gecko} {m m' base : Reassemblies} {src : Str}
  {key : ReassemblyKey} {pkt : List UInt8} {tot : UInt8} {fr : GeckoFrame} {ent : ReassemblyEntry}
  {res : Option (List UInt8)} {seen : Finset Nat} {r r' : Reassembler} {arrival : Arrival} {now idx last : Nat}
variable {ans : Except GeckoError (Option (List UInt8))}

/-! ## Frames of other messages -/

/-- The frame comes when the table is full. -/
def Evicts (m : Reassemblies) (source : Str) (frame : GeckoFrame) : Prop :=
  keyOf source frame ∉ m ∧ pendingCount source m < maxReassembliesPerSource ∧ maxReassemblies ≤ m.entries.length

theorem opens_eq (h : Opens m src fr now base ent) (he : ¬ Evicts m src fr) : base = m := by
  cases h with
  | pending _ _ => rfl
  | fresh _ _ _ => rfl
  | evicting hn hs hf _ _ => exact absurd ⟨hn, hs, hf⟩ he

/-- A frame that evicts nothing changes no entry but that of its own message. -/
theorem acceptStep_lookup_eq (h : AcceptStep m src fr now res m') (hk : key ≠ keyOf src fr)
    (he : ¬ Evicts m src fr) : m'.lookup key = m.lookup key := by
  cases h with
  | mismatched _ _ => rfl
  | refused _ _ => rfl
  | repeated _ _ _ => rfl
  | stored hops _ _ => rw [AList.lookup_insert_ne hk, opens_eq hops he]
  | completed hops _ _ => rw [AList.lookup_erase_ne hk, opens_eq hops he]

section Definitions

variable (blake2b : List UInt8 → Vector UInt8 keyLength) (gecko : Gecko) (key : ReassemblyKey)

/-- A datagram of another source, of another message, or not a frame at all. -/
def Foreign (arrival : Arrival) : Prop :=
  ∀ frame, ReadsFrame blake2b gecko arrival.datagram frame → keyOf arrival.source frame ≠ key

/-- Room for a new message of the source. -/
structure Room (source : Str) (m : Reassemblies) : Prop where
  source : pendingCount source m < maxReassembliesPerSource
  size : m.entries.length < maxReassemblies

/-- What is foreign evicts nothing, and reaches no limit as long as the message
has no entry of its own. -/
def Spares : List Arrival → Reassembler → Prop
  | [], _ => True
  | arrival :: arrivals, r =>
    (Foreign blake2b gecko key arrival → ∀ frame, ReadsFrame blake2b gecko arrival.datagram frame →
      ¬ Evicts r.entries arrival.source frame) ∧
    ∀ result r', gecko.receivePacket blake2b arrival r = some (result, r') →
      (Foreign blake2b gecko key arrival → key ∉ r'.entries → Room key.source r'.entries) ∧ Spares arrivals r'

/-- The datagram has the chunk with this index. -/
def Delivers (packet : List UInt8) (total : UInt8) (arrival : Arrival) (index : Nat) : Prop :=
  arrival.source = key.source ∧ ∃ frame, FrameOf packet key.messageId total index frame ∧
    ReadsFrame blake2b gecko arrival.datagram frame

end Definitions

/-- What is foreign makes no entry for the message. -/
theorem Foreign.not_mem (h : Foreign blake2b gecko key arrival)
    (hs : ReceiveStep blake2b gecko arrival m ans m') (hn : key ∉ m) : key ∉ m' := by
  cases hs with
  | malformed _ => exact hn
  | whole _ => exact hn
  | chunk hr hs =>
    intro hm
    obtain ⟨other, ho⟩ := Option.isSome_iff_exists.mp (AList.lookup_isSome.mpr hm)
    rcases acceptStep_lookup hs ho with hl | ⟨hk, -⟩
    · exact hn (AList.lookup_isSome.mp (by rw [hl]; rfl))
    · exact h _ hr hk.symm

/-- What is foreign, and evicts nothing, leaves the entry of the message alone. -/
theorem Foreign.lookup_eq (h : Foreign blake2b gecko key arrival) (hs : ReceiveStep blake2b gecko arrival m ans m')
    (he : ∀ fr, ReadsFrame blake2b gecko arrival.datagram fr → ¬ Evicts m arrival.source fr) :
    m'.lookup key = m.lookup key := by
  cases hs with
  | malformed _ => rfl
  | whole _ => rfl
  | chunk hr hs => exact acceptStep_lookup_eq hs (Ne.symm (h _ hr)) (he _ hr)

/-! ## One message -/

/-- The chunks of the message that have come in. -/
inductive Collecting (m : Reassemblies) (key : ReassemblyKey) (packet : List UInt8) (total : UInt8) :
    Finset Nat → Prop
  | waiting (hnew : key ∉ m) (hroom : Room key.source m) : Collecting m key packet total ∅
  | pending {seen : Finset Nat} {deadline : Nat} (hseen : seen.Nonempty)
    (hentry : m.lookup key = some {
      chunks := slots total.toNat seen (piece total.toNat packet), received := seen.card, total, deadline }) :
    Collecting m key packet total seen

theorem Collecting.foreign (h : Collecting m key pkt tot seen) (hl : m'.lookup key = m.lookup key)
    (hr : key ∉ m' → Room key.source m') : Collecting m' key pkt tot seen := by
  cases h with
  | waiting hn _ =>
    have hnew' : key ∉ m' := AList.lookup_eq_none.mp (hl.trans (AList.lookup_eq_none.mpr hn))
    exact .waiting hnew' (hr hnew')
  | pending hs he => exact .pending hs (hl.trans he)

theorem Collecting.opens (h : Collecting m key pkt tot seen)
    (hfr : FrameOf pkt key.messageId tot idx fr) (hops : Opens m key.source fr now base ent) :
    base = m ∧ ∃ due, ent = {
      chunks := slots tot.toNat seen (piece tot.toNat pkt), received := seen.card, total := tot, deadline := due } := by
  have hk : keyOf key.source fr = key := by rw [keyOf, hfr.messageId_eq]
  cases h with
  | waiting hn hr =>
    have hev : ¬ Evicts m key.source fr := fun hfl => Nat.not_le.mpr hr.size hfl.2.2
    refine ⟨opens_eq hops hev, ?_⟩
    have hf : freshEntry fr.totalChunks now = {
        chunks := slots tot.toNat ∅ (piece tot.toNat pkt), received := 0, total := tot
        deadline := now + reassemblyTtl } := by
      rw [freshEntry, slots_empty, hfr.total_eq]
    cases hops with
    | pending he _ =>
      rw [hk, AList.lookup_eq_none.mpr hn] at he
      cases he
    | fresh _ _ _ => exact ⟨_, hf⟩
    | evicting _ _ _ _ _ => exact ⟨_, hf⟩
  | pending _ he =>
    have hm : key ∈ m := AList.lookup_isSome.mp (by rw [he]; rfl)
    cases hops with
    | pending hent' _ =>
      grind
    | fresh hn _ _ => exact absurd hm (hk ▸ hn)
    | evicting hn _ _ _ _ => exact absurd hm (hk ▸ hn)

/-- What a frame of the message makes of an entry that is open for it. -/
theorem fill_slots (hi : idx < tot.toNat) (hfr : FrameOf pkt key.messageId tot idx fr) (due : Nat) :
    fill { chunks := slots tot.toNat seen (piece tot.toNat pkt), received := seen.card, total := tot
           deadline := due } fr =
      { chunks := slots tot.toNat (insert idx seen) (piece tot.toNat pkt), received := seen.card + 1
        total := tot, deadline := due } := by
  rw [Spec.fill, hfr.index_eq, hfr.payload_eq, set_slots hi]

/-- A chunk of the message is stored if it is new. -/
theorem Collecting.accept (h : Collecting m key pkt tot seen) (hi : idx < tot.toNat)
    (hfr : FrameOf pkt key.messageId tot idx fr) (hst : AcceptStep m key.source fr now res m') :
    (idx ∈ seen ∧ res = none ∧ m' = m) ∨ idx ∉ seen ∧
        (seen.card + 1 < tot.toNat ∧ res = none ∧ Collecting m' key pkt tot (insert idx seen) ∨
          tot.toNat ≤ seen.card + 1 ∧
            res = some ((slots tot.toNat (insert idx seen) (piece tot.toNat pkt)).filterMap id).flatten ∧
            key ∉ m') := by
  have hk : keyOf key.source fr = key := by rw [keyOf, hfr.messageId_eq]
  have hs : (slots tot.toNat seen (piece tot.toNat pkt))[fr.chunkIndex.toNat]? = some none →
      idx ∉ seen := by
    rw [hfr.index_eq, getElem?_slots hi]
    simp
  cases hst with
  | mismatched he ht =>
    cases h with
    | waiting hn _ =>
      rw [hk, AList.lookup_eq_none.mpr hn] at he
      cases he
    | pending _ hent' =>
      grind [hfr.total_eq]
  | refused hn hsr =>
    cases h with
    | waiting _ hr => exact absurd hr.source (by omega)
    | pending _ he => exact absurd (AList.lookup_isSome.mp (by rw [he]; rfl)) (hk ▸ hn)
  | repeated he ht hch =>
    have hops : Opens m key.source fr now m _ := .pending he ht
    obtain ⟨-, due, rfl⟩ := h.opens hfr hops
    rw [hfr.index_eq, getElem?_slots hi] at hch
    grind
  | stored hops hslot' hl =>
    obtain ⟨rfl, due, rfl⟩ := h.opens hfr hops
    have hnt := hs hslot'
    rw [hfr.total_eq] at hl
    refine .inr ⟨hnt, .inl ⟨hl, rfl, ?_⟩⟩
    rw [hk, fill_slots hi hfr, ← Finset.card_insert_of_notMem hnt]
    exact .pending (Finset.insert_nonempty _ _) (AList.lookup_insert _)
  | completed hops hslot' hls =>
    obtain ⟨rfl, due, rfl⟩ := h.opens hfr hops
    grind [hfr.total_eq, fill_slots, AList.mem_erase, Spec.packet]

/-! ## Runs -/

theorem receiveAll_append {xs ys : List Arrival} {r₁ : Reassembler}
    {results results' : List (Except GeckoError (Option (List UInt8)))}
    (hxs : gecko.receiveAll blake2b xs r = some (results, r₁))
    (hys : gecko.receiveAll blake2b ys r₁ = some (results', r')) :
    gecko.receiveAll blake2b (xs ++ ys) r = some (results ++ results', r') := by
  induction xs generalizing r results with
  | nil =>
    cases hxs
    exact hys
  | cons arrival xs ih =>
    rcases hr : gecko.receivePacket blake2b arrival r with _ | p
    · grind [Gecko.receiveAll]
    rw [receiveAll_cons hr, Option.map_eq_some_iff] at hxs
    obtain ⟨⟨rest, r₂⟩, hrs, heq⟩ := hxs
    cases heq
    rw [cons_append, receiveAll_cons hr, ih hrs]
    rfl

/-- Nothing but its own chunks makes an entry for the message. -/
theorem receiveAll_foreign {arrs : List Arrival} (hr : Bookkept r) (hn : key ∉ r.entries)
    (hf : ∀ arrival ∈ arrs, Foreign blake2b gecko key arrival) :
    ∃ results r', gecko.receiveAll blake2b arrs r = some (results, r') ∧ key ∉ r'.entries := by
  induction arrs generalizing r with
  | nil => exact ⟨[], r, rfl, hn⟩
  | cons arrival arrs ih =>
    obtain ⟨res, r₁, hrc, hs, hr₁⟩ := hr.receivePacket blake2b gecko arrival
    have hnew₁ : key ∉ r₁.entries := (hf arrival mem_cons_self).not_mem hs hn
    obtain ⟨results, r', hrs, hnew'⟩ := ih hr₁ hnew₁ fun a ha => hf a (mem_cons_of_mem _ ha)
    grind [receiveAll_cons]

theorem Delivers.unique {idx' : Nat} (h : Delivers blake2b gecko key pkt tot arrival idx)
    (h' : Delivers blake2b gecko key pkt tot arrival idx') : idx = idx' := by
  obtain ⟨-, fr, hfr, hr⟩ := h
  obtain ⟨-, fr', hfr', hread'⟩ := h'
  rw [← hfr.index_eq, ← hfr'.index_eq, hr.unique hread']

/-- A datagram before the last chunk: what is foreign leaves the message alone, and
its own chunks are collected. -/
theorem Collecting.receive (h : Collecting m key pkt tot seen)
    (hst : ReceiveStep blake2b gecko arrival m ans m') (hs : seen ⊆ (Finset.range tot.toNat).erase last)
    (hl : last < tot.toNat) (har : Foreign blake2b gecko key arrival ∨
      ∃ idx ∈ (Finset.range tot.toNat).erase last, Delivers blake2b gecko key pkt tot arrival idx)
    (he : Foreign blake2b gecko key arrival →
      ∀ fr, ReadsFrame blake2b gecko arrival.datagram fr → ¬ Evicts m arrival.source fr)
    (hrm : Foreign blake2b gecko key arrival → key ∉ m' → Room key.source m') :
    ∃ seen', Collecting m' key pkt tot seen' ∧ seen ⊆ seen' ∧ seen' ⊆ (Finset.range tot.toNat).erase last ∧
      ∀ idx, Delivers blake2b gecko key pkt tot arrival idx → idx ∈ seen' ∧ ans = .ok none := by
  rcases har with hf | ⟨idx, hi, hd⟩
  · have hlk := hf.lookup_eq hst (he hf)
    refine ⟨seen, h.foreign hlk (hrm hf), subset_rfl, hs, ?_⟩
    rintro idx ⟨hsr, fr, hfr, hr⟩
    refine absurd ?_ (hf fr hr)
    rw [keyOf, hsr, hfr.messageId_eq]
  · obtain ⟨hsr, fr, hfr, hr⟩ := id hd
    obtain ⟨pkt', rfl, ha⟩ := hst.of_reads hr
    rw [hsr] at ha
    have hlt := Finset.mem_range.mp (Finset.mem_of_mem_erase hi)
    have ho : ∀ idx', Delivers blake2b gecko key pkt tot arrival idx' → idx' = idx :=
      fun idx' hidx' => hidx'.unique hd
    rcases h.accept hlt hfr ha with ⟨hm, rfl, rfl⟩ | ⟨hn, ⟨-, rfl, hc⟩ | ⟨hfl, -, -⟩⟩
    · grind
    · grind
    · -- The last chunk is still missing, so this one cannot complete the packet.
      have hcr := Finset.card_le_card (Finset.insert_subset hi hs)
      grind

/-- What comes before the last chunk: the chunks of the message are collected. -/
theorem Collecting.receiveAll {before : List Arrival} (hr : Bookkept r)
    (h : Collecting r.entries key pkt tot seen) (hsn : seen ⊆ (Finset.range tot.toNat).erase last)
    (hl : last < tot.toNat) (hb : ∀ arrival ∈ before, Foreign blake2b gecko key arrival ∨
      ∃ idx ∈ (Finset.range tot.toNat).erase last, Delivers blake2b gecko key pkt tot arrival idx)
    (hs : Spares blake2b gecko key before r) :
    ∃ results r' seen', gecko.receiveAll blake2b before r = some (results, r') ∧ Bookkept r' ∧
      Collecting r'.entries key pkt tot seen' ∧ seen ⊆ seen' ∧ seen' ⊆ (Finset.range tot.toNat).erase last ∧
      List.Forall₂ (fun arrival res =>
        ∀ idx, Delivers blake2b gecko key pkt tot arrival idx → idx ∈ seen' ∧ res = .ok none)
        before results := by
  induction before generalizing r seen with
  | nil => exact ⟨[], r, seen, rfl, hr, h, subset_rfl, hsn, .nil⟩
  | cons arrival before ih =>
    obtain ⟨res, r₁, hrc, hst, hr₁⟩ := hr.receivePacket blake2b gecko arrival
    obtain ⟨he, hs⟩ := hs
    obtain ⟨hrm, hs⟩ := hs _ _ hrc
    obtain ⟨seen₁, hc, hsb, hseen₁, ho⟩ := h.receive hst hsn hl (hb arrival mem_cons_self) he hrm
    obtain ⟨results, r', seen', hrs, hr', hcoll', hsub', hseen', hre⟩ :=
      ih hr₁ hc hseen₁ (fun a ha => hb a (mem_cons_of_mem _ ha)) hs
    refine ⟨res :: results, r', seen', ?_, hr', hcoll', hsb.trans hsub', hseen', .cons ?_ hre⟩
    · rw [receiveAll_cons hrc, hrs]
      rfl
    grind

theorem Collecting.completed (hr : Bookkept r)
    (h : Collecting r.entries key pkt tot ((Finset.range tot.toNat).erase last)) (hl : last < tot.toNat)
    (hd : Delivers blake2b gecko key pkt tot arrival last) :
    ∃ r', gecko.receivePacket blake2b arrival r = some (.ok (some pkt), r') ∧ Bookkept r' ∧ key ∉ r'.entries := by
  obtain ⟨res, r', hrc, hs, hr'⟩ := hr.receivePacket blake2b gecko arrival
  obtain ⟨hsr, fr, hfr, hrd⟩ := hd
  obtain ⟨pkt', rfl, ha⟩ := hs.of_reads hrd
  rw [hsr] at ha
  have hm := Finset.mem_range.mpr hl
  have hc := Finset.card_erase_of_mem hm
  rw [Finset.card_range] at hc
  rcases h.accept hl hfr ha with ⟨hsn, -, -⟩ | ⟨-, ⟨hlc, -, -⟩ | ⟨-, rfl, hn⟩⟩
  · exact absurd hsn (Finset.notMem_erase _ _)
  · omega
  grind [Finset.insert_erase, filterMap_slots, flatten_pieces]

/-! ## From the sender to the receiver -/

/-- Every datagram of the message comes in, `last` as the last of them. Some may
come in twice before it. -/
structure ArrivalOrder (blake2b : List UInt8 → Vector UInt8 keyLength) (gecko : Gecko) (key : ReassemblyKey)
    (datagrams : List (List UInt8)) (before : List Arrival) (last : Arrival) (after : List Arrival) : Prop where
  lastOwn : last.source = key.source ∧ last.datagram ∈ datagrams
  earlier : ∀ arrival ∈ before, Foreign blake2b gecko key arrival ∨
    arrival.source = key.source ∧ arrival.datagram ∈ datagrams ∧ arrival.datagram ≠ last.datagram
  complete : ∀ datagram ∈ datagrams, datagram ≠ last.datagram →
    ∃ arrival ∈ before, arrival.source = key.source ∧ arrival.datagram = datagram
  later : ∀ arrival ∈ after, Foreign blake2b gecko key arrival

variable {dgs : List (List UInt8)} {before after : List Arrival} {lastArrival : Arrival}

theorem Datagrams.exists_index (h : Datagrams blake2b gecko key.messageId pkt tot dgs)
    (hs : arrival.source = key.source) (hm : arrival.datagram ∈ dgs) :
    ∃ idx < tot.toNat, dgs[idx]? = some arrival.datagram ∧
      Delivers blake2b gecko key pkt tot arrival idx := by
  obtain ⟨idx, hi⟩ := List.mem_iff_getElem?.mp hm
  have hlt := (List.getElem?_eq_some_iff.mp hi).1
  rw [h.length] at hlt
  exact ⟨idx, hlt, hi, hs, h.frame idx _ hi⟩

/-- Every arrival order of the datagrams of a message gives its packet, with the
last of them. -/
theorem Datagrams.receiveAll (hdt : Datagrams blake2b gecko key.messageId pkt tot dgs) (hr : Bookkept r)
    (hn : key ∉ r.entries) (hrm : Room key.source r.entries)
    (ho : ArrivalOrder blake2b gecko key dgs before lastArrival after) (hsp : Spares blake2b gecko key before r) :
    ∃ results results' r', gecko.receiveAll blake2b (before ++ lastArrival :: after) r =
        some (results ++ .ok (some pkt) :: results', r') ∧
      List.Forall₂ (fun arrival res => arrival.source = key.source → arrival.datagram ∈ dgs →
        res = .ok none) before results ∧ key ∉ r'.entries := by
  obtain ⟨last, hls, hgt, hd⟩ := hdt.exists_index ho.lastOwn.1 ho.lastOwn.2
  have hb : ∀ arrival ∈ before, Foreign blake2b gecko key arrival ∨
      ∃ idx ∈ (Finset.range tot.toNat).erase last, Delivers blake2b gecko key pkt tot arrival idx := by
    intro arrival ha
    refine (ho.earlier arrival ha).imp_right ?_
    rintro ⟨hs, hm, hne⟩
    obtain ⟨idx, hlt, hg, hdl⟩ := hdt.exists_index hs hm
    grind
  obtain ⟨results, r₁, seen, hrc, hr₁, hc, -, hsn, hrs⟩ :=
    Collecting.receiveAll hr (.waiting hn hrm) (Finset.empty_subset _) hls hb hsp
  -- All chunks but the last have come in.
  have hal : seen = (Finset.range tot.toNat).erase last := by
    refine hsn.antisymm fun idx hi => ?_
    obtain ⟨hne, hlt⟩ := Finset.mem_erase.mp hi
    rw [Finset.mem_range, ← hdt.length] at hlt
    have hg := getElem?_eq_getElem hlt
    have hda : dgs[idx] ≠ lastArrival.datagram := fun heq =>
      hne (Delivers.unique ⟨ho.lastOwn.1, hdt.frame idx _ (heq ▸ hg)⟩ hd)
    obtain ⟨arrival, ha, hs, heq⟩ := ho.complete _ (getElem_mem hlt) hda
    obtain ⟨i, rfl⟩ := mem_iff_get.mp ha
    obtain ⟨hln, hget'⟩ := forall₂_iff_get.mp hrs
    exact (hget' i i.2 (hln ▸ i.2) idx ⟨hs, hdt.frame idx _ (heq ▸ hg)⟩).1
  subst hal
  obtain ⟨r₂, hl, hr₂, hnew₂⟩ := Collecting.completed hr₁ hc hls hd
  obtain ⟨results', r', hrt, hnew'⟩ := receiveAll_foreign hr₂ hnew₂ ho.later
  refine ⟨results, results', r', receiveAll_append hrc ?_, hrs.imp ?_, hnew'⟩
  · rw [receiveAll_cons hl, hrt]
    rfl
  intro arrival res hi hs hm
  obtain ⟨idx, -, -, hdl⟩ := hdt.exists_index hs hm
  exact (hi idx hdl).2

/-- A packet without the long header comes out of its one datagram. Any other
one comes out with the last of its datagrams, whatever their order, from every
state of the reassembler that its calls can reach and that has room for one
more message; the other datagrams of it give nothing, and nothing of it is left. -/
theorem gecko_delivers (password : List UInt8) (options options' : GeckoOptions) (sender receiver : Gecko)
    (hsender : Gecko.new password options = .ok sender) (hreceiver : Gecko.new password options' = .ok receiver)
    (random : RandomSource) (blake2b : List UInt8 → Vector UInt8 keyLength) (first : UInt8) (rest : List UInt8)
    (counter : UInt32) :
    ((∀ calls n, (random.fill calls n).isSome = true) →
      ∃ datagrams counter', sender.encodePacket random blake2b (first :: rest) counter = (.ok datagrams, counter')) ∧
    ∀ datagrams counter', sender.encodePacket random blake2b (first :: rest) counter = (.ok datagrams, counter') →
      (first &&& fragmentFlag = 0 → ∃ datagram, datagrams = [datagram] ∧ ∀ arrival r, arrival.datagram = datagram →
        receiver.receivePacket blake2b arrival r = some (.ok (some (first :: rest)), r)) ∧
      (first &&& fragmentFlag ≠ 0 → ∀ operations r source before last after,
        (∀ operation ∈ operations, Decoded operation) → Reassembler.empty.run operations = some r →
        ⟨source, messageIdAt counter⟩ ∉ r.entries → r.count source < maxReassembliesPerSource →
        r.entries.entries.length < maxReassemblies →
        ArrivalOrder blake2b receiver ⟨source, messageIdAt counter⟩ datagrams before last after →
        Spares blake2b receiver ⟨source, messageIdAt counter⟩ before r →
        ∃ results results' r', receiver.receiveAll blake2b (before ++ last :: after) r =
            some (results ++ .ok (some (first :: rest)) :: results', r') ∧
          List.Forall₂ (fun arrival result => arrival.source = source → arrival.datagram ∈ datagrams →
            result = .ok none) before results ∧
          ⟨source, messageIdAt counter⟩ ∉ r'.entries) := by
  refine ⟨fun hrn => encodePacket_total hrn _ _, fun datagrams counter' he => ⟨?_, ?_⟩⟩
  · intro hf
    obtain ⟨-, datagram, rfl, hc⟩ := encodePacket_short hf he
    refine ⟨datagram, rfl, ?_⟩
    rintro arrival r rfl
    exact (hc.congr (salamander_eq hsender hreceiver)).receivePacket r
  · intro hf operations r source before last after hdc hru hn hsr hsz ho hs
    obtain ⟨-, tot, -, -, hd⟩ := encodePacket_long hf he
    have hrc : Datagrams blake2b receiver (ReassemblyKey.mk source (messageIdAt counter)).messageId
        (first :: rest) tot datagrams := hd.congr (salamander_eq hsender hreceiver)
    obtain ⟨r₁, hrun₁, hr⟩ := bookkept_empty.run hdc
    cases hru.symm.trans hrun₁
    have hrm : Room source r.entries := ⟨(hr.count source).symm.trans_lt hsr, hsz⟩
    exact hrc.receiveAll hr hn hrm ho hs

section Example

def tightArrival (datagram : List UInt8) : Arrival := ⟨"peer", datagram, 0, inOrder⟩

theorem gecko_delivers_reversed : ∃ results results' r', tightGecko.receiveAll zeroKey
        [tightArrival (zeroSalt ++ [0x80, 1, 0x12, 0, 0, 7]), tightArrival (zeroSalt ++ [0x80, 1, 0x02, 0, 0, 0x80])]
        .empty = some (results ++ .ok (some [0x80, 7]) :: results', r') ∧ results.length = 1 := by
  have he : tightGecko.encodePacket zeroRandom zeroKey [0x80, 7] 0 = (.ok tightDatagrams, 1) := by decide
  have hr : ReadsFrame zeroKey tightGecko (zeroSalt ++ [0x80, 1, 0x12, 0, 0, 7]) ⟨1, 1, 2, [], [7]⟩ :=
    ⟨0x80, [1, 0x12, 0, 0, 7], by decide, by decide, by decide⟩
  have ho : ArrivalOrder zeroKey tightGecko ⟨"peer", 1⟩ tightDatagrams
      [tightArrival (zeroSalt ++ [0x80, 1, 0x12, 0, 0, 7])] (tightArrival (zeroSalt ++ [0x80, 1, 0x02, 0, 0, 0x80]))
      [] := {
    lastOwn := ⟨rfl, by decide⟩
    earlier := by
      intro arrival ha
      cases mem_singleton.mp ha
      exact .inr ⟨rfl, by decide, by decide⟩
    complete := by
      intro dg hd hne
      rcases mem_pair.mp hd with rfl | rfl
      · exact absurd rfl hne
      · exact ⟨_, mem_cons_self, rfl, rfl⟩
    later := by
      intro arrival ha
      cases ha }
  have hs : Spares zeroKey tightGecko ⟨"peer", 1⟩ [tightArrival (zeroSalt ++ [0x80, 1, 0x12, 0, 0, 7])]
      .empty := by
    have how : ¬ Foreign zeroKey tightGecko ⟨"peer", 1⟩
        (tightArrival (zeroSalt ++ [0x80, 1, 0x12, 0, 0, 7])) := fun hf => hf _ hr rfl
    exact ⟨fun hf => absurd hf how, fun _ _ _ => ⟨fun hf => absurd hf how, trivial⟩⟩
  obtain ⟨results, results', r', hrc, hrs, -⟩ :=
    ((gecko_delivers [1, 2, 3, 4] tightOptions tightOptions tightGecko tightGecko rfl rfl zeroRandom zeroKey 0x80
      [7] 0).2 tightDatagrams 1 he).2 (by decide)
      [] .empty "peer" _ _ [] (fun op hop => by cases hop) rfl
      (AList.notMem_empty _) (by decide) (by decide) ho hs
  exact ⟨results, results', r', hrc, hrs.length_eq.symm⟩

end Example

end Hysteria.Proof
