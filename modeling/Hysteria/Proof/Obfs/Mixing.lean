import Mathlib.Data.Nat.ModEq
import Hysteria.Framework.Transition
import Hysteria.Proof.Obfs.Delivery

/-!
# Packets mix only where a message ID comes back

The invariant traces every chunk in the table of the receiver to the call of
`encode_packet` that it comes from (`Traced`). A message ID has eight bits, so
the calls behind one entry have numbers that are congruent modulo 256
(`modEq_of_messageIdAt`), and with fewer than 257 of them they are one call
(`callNumber_inj`).
-/

namespace Hysteria.Proof

open Framework Impl Spec
open List hiding Vector

variable {blake2b : List UInt8 → Vector UInt8 keyLength} {sender receiver gecko : Gecko}
  {call call' : RandomSource × List UInt8} {calls : List (RandomSource × List UInt8)} {counter : UInt32}
  {src : Str} {r r' : Reassembler} {k k' : Nat}

/-! ## The numbers of the calls -/

section Numbers

variable (blake2b : List UInt8 → Vector UInt8 keyLength) (gecko : Gecko)

/-- The packet has the long header. -/
def longHeader (packet : List UInt8) : Bool := packet.head?.any fun first => first &&& fragmentFlag != 0

/-- The call takes a message ID. -/
def takesId (call : RandomSource × List UInt8) : Bool := (gecko.encodePacket call.1 blake2b call.2 0).2 != 0

/-- How many calls before it have taken a message ID. -/
def callNumber (calls : List (RandomSource × List UInt8)) (k : Nat) : Nat :=
  (calls.take k).countP (takesId blake2b gecko)

end Numbers

theorem encodePacket_counter (call : RandomSource × List UInt8) (counter : UInt32) :
    (gecko.encodePacket call.1 blake2b call.2 counter).2 =
      counter + UInt32.ofNat (takesId blake2b gecko call).toNat := by
  obtain ⟨rnd, pkt⟩ := call
  rcases pkt with _ | ⟨first, rest⟩
  · exact (UInt32.add_zero counter).symm
  by_cases hf : first &&& fragmentFlag = 0
  · unfold takesId Gecko.encodePacket
    simp_all
  · -- Whether the number of chunks is drawn does not depend on the counter.
    rcases encodePacket_eq_of_long hf rnd blake2b gecko rest counter with
      ⟨error, hd, heq⟩ | ⟨⟨drawn, hd⟩, total, -, -, calls, heq⟩
    all_goals
      rcases encodePacket_eq_of_long hf rnd blake2b gecko rest 0 with
        ⟨error', hdraw', heq'⟩ | ⟨⟨drawn', hdraw'⟩, total', -, -, calls', heq'⟩
    · simp_all [takesId]
    · cases hd.symm.trans hdraw'
    · cases hd.symm.trans hdraw'
    · rw [takesId, heq, heq']
      rfl

theorem takesId_of_counter (h : (gecko.encodePacket call.1 blake2b call.2 counter).2 = counter + 1) :
    takesId blake2b gecko call = true := by
  rw [encodePacket_counter] at h
  cases ht : takesId blake2b gecko call with
  | true => rfl
  | false =>
    simp_all

/-- Only a packet with the long header takes a message ID. -/
theorem longHeader_of_takesId (h : takesId blake2b gecko call = true) : longHeader call.2 = true := by
  obtain ⟨rnd, pkt⟩ := call
  rcases pkt with _ | ⟨first, rest⟩
  · cases h
  by_cases hf : first &&& fragmentFlag = 0
  · unfold takesId Gecko.encodePacket at h
    simp only [if_pos hf] at h
    cases h
  · exact bne_iff_ne.mpr hf

theorem callNumber_cons (call : RandomSource × List UInt8) (calls : List (RandomSource × List UInt8)) (k : Nat) :
    callNumber blake2b gecko (call :: calls) (k + 1) =
      (takesId blake2b gecko call).toNat + callNumber blake2b gecko calls k := by
  rw [callNumber, take_succ_cons, countP_cons, Nat.add_comm, callNumber]
  cases takesId blake2b gecko call <;> rfl

theorem getElem?_encodeAll (calls : List (RandomSource × List UInt8)) (counter : UInt32) (k : Nat) :
    (gecko.encodeAll blake2b calls counter)[k]? = calls[k]?.map fun call =>
      (gecko.encodePacket call.1 blake2b call.2 (counter + UInt32.ofNat (callNumber blake2b gecko calls k))).1 := by
  induction calls generalizing counter k with
  | nil => rfl
  | cons call calls ih =>
    rcases k with _ | k
    · exact congrArg (fun next => some (gecko.encodePacket call.1 blake2b call.2 next).1) (UInt32.add_zero counter).symm
    · show (gecko.encodeAll blake2b calls (gecko.encodePacket call.1 blake2b call.2 counter).2)[k]? = _
      rw [ih, encodePacket_counter, getElem?_cons_succ, callNumber_cons, UInt32.ofNat_add, UInt32.add_assoc]

theorem callNumber_lt {n : Nat} (hc : calls[k]? = some call) (ht : takesId blake2b gecko call = true)
    (hlt : k < n) : callNumber blake2b gecko calls k < callNumber blake2b gecko calls n := by
  have hn : callNumber blake2b gecko calls (k + 1) = callNumber blake2b gecko calls k + 1 := by
    rw [callNumber, take_add_one, hc, countP_append, callNumber]
    exact congrArg _ (countP_cons_of_pos ht)
  have hle : callNumber blake2b gecko calls (k + 1) ≤ callNumber blake2b gecko calls n :=
    (take_sublist_take_left hlt).countP_le
  omega

theorem callNumber_inj (hc : calls[k]? = some call) (hcall' : calls[k']? = some call')
    (ht : takesId blake2b gecko call = true) (htakes' : takesId blake2b gecko call' = true)
    (h : callNumber blake2b gecko calls k = callNumber blake2b gecko calls k') : k = k' := by
  rcases Nat.lt_trichotomy k k' with hlt | heq | hgt
  · have := callNumber_lt hc ht hlt
    omega
  · exact heq
  · have := callNumber_lt hcall' htakes' hgt
    omega

theorem callNumber_lt_longHeader (hc : calls[k]? = some call) (ht : takesId blake2b gecko call = true) :
    callNumber blake2b gecko calls k < calls.countP fun call => longHeader call.2 := by
  have hl := (List.getElem?_eq_some_iff.mp hc).1
  have hlt := callNumber_lt hc ht hl
  rw [callNumber, callNumber, List.take_length] at hlt
  exact Nat.lt_of_lt_of_le hlt (List.countP_mono_left fun call _ => longHeader_of_takesId)

/-- The IDs of two messages are the same if their numbers are, up to 256. -/
theorem modEq_of_messageIdAt {n n' : Nat}
    (h : messageIdAt (counter + UInt32.ofNat n) = messageIdAt (counter + UInt32.ofNat n')) : n ≡ n' [MOD 256] := by
  have hn := congrArg UInt8.toNat h
  simp only [messageIdAt, UInt8.toNat_ofNat', UInt32.toNat_add, UInt32.toNat_ofNat', UInt32.reduceToNat] at hn
  rw [Nat.ModEq]
  omega

/-! ## Where a chunk comes from -/

section Definitions

variable (blake2b : List UInt8 → Vector UInt8 keyLength) (sender receiver : Gecko)
  (calls : List (RandomSource × List UInt8)) (counter : UInt32)

/-- The datagram comes from one of the calls. -/
def SentDatagram (datagram : List UInt8) : Prop :=
  ∃ datagrams, .ok datagrams ∈ sender.encodeAll blake2b calls counter ∧ datagram ∈ datagrams

/-- The datagrams of the `k`-th call, as the receiver reads them. -/
structure SentBy (k : Nat) (call : RandomSource × List UInt8) (total : UInt8) (datagrams : List (List UInt8)) :
    Prop where
  call_eq : calls[k]? = some call
  sent : (sender.encodeAll blake2b calls counter)[k]? = some (.ok datagrams)
  takes : takesId blake2b sender call = true
  atLeast : 2 ≤ total.toNat
  datagrams_eq : Datagrams blake2b receiver
    (messageIdAt (counter + UInt32.ofNat (callNumber blake2b sender calls k))) call.2 total datagrams

/-- The chunk with this index of a call that has taken the message ID. -/
def ChunkSent (messageId total : UInt8) (index : Nat) (chunk : List UInt8) : Prop :=
  ∃ k call datagrams, SentBy blake2b sender receiver calls counter k call total datagrams ∧
    messageId = messageIdAt (counter + UInt32.ofNat (callNumber blake2b sender calls k)) ∧
    chunk = piece total.toNat call.2 index

/-- All that the receiver has of the source has been sent. -/
def Traced (source : Str) (m : Reassemblies) : Prop :=
  ∀ key entry, m.lookup key = some entry → key.source = source → ∀ index chunk,
    entry.chunks[index]? = some (some chunk) →
    ChunkSent blake2b sender receiver calls counter key.messageId entry.total index chunk

/-- The receiver: what comes from the source has been sent, what comes from
others is arbitrary. -/
inductive ReceiverStep (source : Str) : Reassembler → Reassembler → Prop
  | receive {arrival : Arrival} {result : Except GeckoError (Option (List UInt8))} {r r' : Reassembler}
    (hsent : arrival.source = source → SentDatagram blake2b sender calls counter arrival.datagram)
    (hreceive : receiver.receivePacket blake2b arrival r = some (result, r')) : ReceiverStep source r r'
  | expire {now : Nat} {r r' : Reassembler} (hexpire : r.expire now = some r') : ReceiverStep source r r'

end Definitions

variable {dg : List UInt8} {fr : GeckoFrame} {m m' : Reassemblies} {ent : ReassemblyEntry}

/-- The chunks of an entry that a frame has been added to. -/
theorem Traced.fill (h : Traced blake2b sender receiver calls counter src m)
    (hfr : ChunkSent blake2b sender receiver calls counter fr.messageId fr.totalChunks
      fr.chunkIndex.toNat fr.payload) {now : Nat} (hr : Receives m src fr now ent)
    {idx : Nat} {chunk : List UInt8} (hch : (Spec.fill ent fr).chunks[idx]? = some (some chunk)) :
    ChunkSent blake2b sender receiver calls counter fr.messageId ent.total idx chunk := by
  have ht : ent.total = fr.totalChunks := by
    rcases hr with ⟨-, ht⟩ | ⟨-, rfl⟩
    · exact ht
    · rfl
  rw [Spec.fill, getElem?_set] at hch
  split at hch
  · grind
  rcases hr with ⟨he, -⟩ | ⟨-, rfl⟩
  · exact h _ ent he rfl idx chunk hch
  · cases eq_of_mem_replicate (mem_of_getElem? hch)

section SamePassword

variable (hsalamander : sender.salamander = receiver.salamander)

include hsalamander

/-- A datagram that has been sent carries a packet, or it is of a call with a message ID. -/
theorem SentDatagram.cases (h : SentDatagram blake2b sender calls counter dg) :
    (∃ call ∈ calls, Carries blake2b receiver dg call.2) ∨
      ∃ k call tot dgs, SentBy blake2b sender receiver calls counter k call tot dgs ∧
        dg ∈ dgs := by
  obtain ⟨dgs, hd, hm⟩ := h
  obtain ⟨k, hs⟩ := mem_iff_getElem?.mp hd
  have hr := hs
  rw [getElem?_encodeAll, Option.map_eq_some_iff] at hr
  obtain ⟨⟨rnd, pkt⟩, hcl, he⟩ := hr
  have he : sender.encodePacket rnd blake2b pkt
      (counter + UInt32.ofNat (callNumber blake2b sender calls k)) = (.ok dgs, _) := Prod.ext he rfl
  rcases pkt with _ | ⟨first, rest⟩
  · cases he
    cases hm
  by_cases hf : first &&& fragmentFlag = 0
  · obtain ⟨-, dg', rfl, hcr⟩ := encodePacket_short hf he
    cases mem_singleton.mp hm
    exact .inl ⟨_, mem_of_getElem? hcl, hcr.congr hsalamander⟩
  obtain ⟨hc, tot, hge, -, hd⟩ := encodePacket_long hf he
  exact .inr ⟨k, _, tot, dgs, ⟨hcl, hs, takesId_of_counter hc, hge, hd.congr hsalamander⟩, hm⟩

/-- A frame that has been sent has a chunk of one of the calls. -/
theorem SentDatagram.chunkSent (h : SentDatagram blake2b sender calls counter dg)
    (hr : ReadsFrame blake2b receiver dg fr) :
    ChunkSent blake2b sender receiver calls counter fr.messageId fr.totalChunks fr.chunkIndex.toNat
      fr.payload := by
  rcases h.cases hsalamander with ⟨call, -, hc⟩ | ⟨k, call, tot, dgs, hby, hm⟩
  · exact absurd hc hr.not_carries
  obtain ⟨idx, hi⟩ := mem_iff_getElem?.mp hm
  obtain ⟨fr', hfr, hread'⟩ := hby.datagrams_eq.frame idx dg hi
  cases hr.unique hread'
  rw [hfr.messageId_eq, hfr.index_eq, hfr.total_eq, hfr.payload_eq]
  exact ⟨k, call, dgs, hby, rfl, rfl⟩

theorem Traced.receive {arr : Arrival} {res : Except GeckoError (Option (List UInt8))}
    (h : Traced blake2b sender receiver calls counter src m)
    (hsn : arr.source = src → SentDatagram blake2b sender calls counter arr.datagram)
    (hs : ReceiveStep blake2b receiver arr m res m') : Traced blake2b sender receiver calls counter src m' := by
  cases hs with
  | malformed _ => exact h
  | whole _ => exact h
  | chunk hr hs =>
    intro key ent he hsr idx chunk hch
    rcases acceptStep_lookup hs he with hl | ⟨rfl, ent', hrc, -, rfl⟩
    · exact h key ent hl hsr idx chunk hch
    have hsr : arr.source = src := hsr
    subst hsr
    exact h.fill ((hsn rfl).chunkSent hsalamander hr) hrc hch

theorem traced_run (hrn : Relation.ReflTransGen (ReceiverStep blake2b sender receiver calls counter src) .empty r) :
    Bookkept r ∧ Traced blake2b sender receiver calls counter src r.entries := by
  refine invariant_run (I := fun r => Bookkept r ∧ Traced blake2b sender receiver calls counter src r.entries) ?_ ?_
    hrn
  · rintro r r' ⟨hr, ht⟩ hs
    cases hs with
    | receive hsn hrc =>
      obtain ⟨res, r₁, hrecv', hs, hr₁⟩ := hr.receivePacket blake2b receiver _
      cases hrc.symm.trans hrecv'
      exact ⟨hr₁, ht.receive hsalamander hsn hs⟩
    | expire hex =>
      obtain ⟨r₁, hexp', hl, hr₁⟩ := hr.expire _
      cases hex.symm.trans hexp'
      exact ⟨hr₁, fun key ent he => ht key ent (hl key ent he)⟩
  · refine ⟨bookkept_empty, fun key ent he => ?_⟩
    cases he

/-! ## What the receiver returns -/

/-- A packet that comes out was put in as it is, or it is made of chunks that
have one message ID. -/
theorem Traced.packet {arr : Arrival} {pkt : List UInt8} (hm : TableKept m)
    (h : Traced blake2b sender receiver calls counter arr.source m)
    (hsn : SentDatagram blake2b sender calls counter arr.datagram)
    (hs : ReceiveStep blake2b receiver arr m (.ok (some pkt)) m') :
    (∃ call ∈ calls, longHeader call.2 = false ∧ pkt = call.2) ∨
      ∃ (mid tot : UInt8) (cs : List (List UInt8)), pkt = cs.flatten ∧
        cs.length = tot.toNat ∧ 0 < tot.toNat ∧ ∀ idx chunk, cs[idx]? = some chunk →
          ChunkSent blake2b sender receiver calls counter mid tot idx chunk := by
  cases hs with
  | whole hc =>
    obtain ⟨first, rest, rfl, hf, hrs⟩ := id hc
    rcases hsn.cases hsalamander with ⟨call, hcl, first', rest', heq, -, hrest'⟩ |
      ⟨k, call, tot, datagrams, hby, hmm⟩
    · cases hrs.symm.trans hrest'
      refine .inl ⟨call, hcl, ?_, heq.symm⟩
      rw [heq, longHeader, head?_cons, Option.any_some, hf]
      rfl
    obtain ⟨idx, hi⟩ := mem_iff_getElem?.mp hmm
    obtain ⟨fr, -, hr⟩ := hby.datagrams_eq.frame idx _ hi
    exact absurd hc hr.not_carries
  | chunk hr hs =>
    rename_i fr
    obtain ⟨ent, cs, hrc, -, hcs, hl, rfl⟩ := acceptStep_packet hs hm hr.validFrame
    have hfr := hsn.chunkSent hsalamander hr
    have ht : ent.total.toNat = cs.length := by
      rcases hrc with ⟨-, ht⟩ | ⟨-, rfl⟩
      · rw [ht, hl]
      · exact hl.symm
    have hge := hr.validFrame.atLeast
    refine .inr ⟨fr.messageId, ent.total, cs, rfl, ht.symm, by omega, fun idx chunk hch => ?_⟩
    refine h.fill hfr hrc ?_
    rw [hcs, getElem?_map, hch]
    rfl

end SamePassword

/-- With fewer than 257 numbers the chunks of one message ID are of one packet. -/
theorem mem_of_chunkSent {mid tot : UInt8} {cs : List (List UInt8)}
    (hl : cs.length = tot.toNat) (hp : 0 < tot.toNat) (h : ∀ idx chunk, cs[idx]? = some chunk →
      ChunkSent blake2b sender receiver calls counter mid tot idx chunk)
    (hf : (calls.countP fun call => longHeader call.2) < 257) : ∃ call ∈ calls, cs.flatten = call.2 := by
  obtain ⟨k, call, dgs, hby, hmd, -⟩ := h 0 _ (getElem?_eq_getElem (hl ▸ hp))
  have hn := callNumber_lt_longHeader hby.call_eq hby.takes
  refine ⟨call, mem_of_getElem? hby.call_eq, ?_⟩
  have hcs : cs = (range tot.toNat).map (piece tot.toNat call.2) := by
    refine ext_getElem (by rw [length_map, length_range, hl]) fun idx hi _ => ?_
    obtain ⟨k', call', dgs', hby', hmid', hch⟩ := h idx _ (getElem?_eq_getElem hi)
    have hnum' := callNumber_lt_longHeader hby'.call_eq hby'.takes
    have hm := modEq_of_messageIdAt (hmd.symm.trans hmid')
    rw [Nat.ModEq, Nat.mod_eq_of_lt (by omega), Nat.mod_eq_of_lt (by omega)] at hm
    cases callNumber_inj hby.call_eq hby'.call_eq hby.takes hby'.takes hm
    cases hby.call_eq.symm.trans hby'.call_eq
    rw [hch, getElem_map, getElem_range]
  rw [hcs, flatten_pieces hp]

/-- Every packet that the receiver returns for the source was put in as one
datagram, or it is made of chunks by index, each out of the datagrams of a call,
all of these with as many datagrams as there are chunks and with numbers that
are congruent modulo 256. With fewer than 257 long-header packets it is one that
was put in. -/
theorem gecko_mixing (password : List UInt8) (options options' : GeckoOptions) (sender receiver : Gecko)
    (hsender : Gecko.new password options = .ok sender) (hreceiver : Gecko.new password options' = .ok receiver)
    (blake2b : List UInt8 → Vector UInt8 keyLength) (calls : List (RandomSource × List UInt8)) (counter : UInt32)
    (source : Str) (r r' : Reassembler)
    (hrun : Relation.ReflTransGen (ReceiverStep blake2b sender receiver calls counter source) .empty r)
    (arrival : Arrival) (packet : List UInt8) (hsource : arrival.source = source)
    (hsent : SentDatagram blake2b sender calls counter arrival.datagram)
    (hreceive : receiver.receivePacket blake2b arrival r = some (.ok (some packet), r')) :
    ((∃ call ∈ calls, longHeader call.2 = false ∧ packet = call.2) ∨
      ∃ (chunks : List (List UInt8)) (origin : Nat → Nat), packet = chunks.flatten ∧
        (∀ index chunk, chunks[index]? = some chunk → ∃ datagrams datagram frame,
          (sender.encodeAll blake2b calls counter)[origin index]? = some (.ok datagrams) ∧
          datagrams.length = chunks.length ∧ datagrams[index]? = some datagram ∧
          ReadsFrame blake2b receiver datagram frame ∧ frame.chunkIndex.toNat = index ∧ frame.payload = chunk) ∧
        ∀ i < chunks.length, ∀ j < chunks.length,
          callNumber blake2b sender calls (origin i) ≡ callNumber blake2b sender calls (origin j) [MOD 256]) ∧
    ((calls.countP fun call => longHeader call.2) < 257 → ∃ call ∈ calls, packet = call.2) := by
  have hsalamander := salamander_eq hsender hreceiver
  subst hsource
  obtain ⟨hr, ht⟩ := traced_run hsalamander hrun
  obtain ⟨res, r₁, hreceive', hs, -⟩ := hr.receivePacket blake2b receiver arrival
  cases hreceive.symm.trans hreceive'
  rcases ht.packet hsalamander hr.toTableKept hsent hs with
    ⟨call, hc, hln, rfl⟩ | ⟨messageId, total, chunks, rfl, hl, hp, hcs⟩
  · grind
  refine ⟨.inr ?_, mem_of_chunkSent hl hp hcs⟩
  have ho : ∀ index < chunks.length, ∃ k, ∃ call datagrams,
      SentBy blake2b sender receiver calls counter k call total datagrams ∧
        messageId = messageIdAt (counter + UInt32.ofNat (callNumber blake2b sender calls k)) ∧
        chunks[index]? = some (piece total.toNat call.2 index) := by
    intro index hid
    have hg := List.getElem?_eq_getElem hid
    obtain ⟨k, call, datagrams, hby, hm, hch⟩ := hcs index _ hg
    grind
  choose! origin ho using ho
  refine ⟨chunks, origin, rfl, fun index chunk hch => ?_, fun i hi j hj => ?_⟩
  · have hid := (List.getElem?_eq_some_iff.mp hch).1
    obtain ⟨call, datagrams, hby, -, hg⟩ := ho index hid
    have hd := List.getElem?_eq_getElem (l := datagrams) (i := index)
      (by rw [hby.datagrams_eq.length, ← hl]; exact hid)
    obtain ⟨frame, hfr, hrd⟩ := hby.datagrams_eq.frame index _ hd
    refine ⟨datagrams, _, frame, hby.sent, hby.datagrams_eq.length.trans hl.symm, hd, hrd, hfr.index_eq, ?_⟩
    grind [hfr.payload_eq]
  grind [modEq_of_messageIdAt]

theorem gecko_mixing_two : ∃ r r',
    tightGecko.receivePacket zeroKey (tightArrival (zeroSalt ++ [0x80, 1, 0x12, 0, 0, 7])) .empty =
      some (.ok none, r) ∧
    tightGecko.receivePacket zeroKey (tightArrival (zeroSalt ++ [0x80, 1, 0x02, 0, 0, 0x80])) r =
      some (.ok (some [0x80, 7]), r') ∧
    ∃ call ∈ [(zeroRandom, ([0x80, 7] : List UInt8))], [0x80, 7] = call.2 := by
  have he : tightGecko.encodeAll zeroKey [(zeroRandom, [0x80, 7])] 0 = [.ok tightDatagrams] := by decide
  have hs (dg : List UInt8) (hm : dg ∈ tightDatagrams) :
      SentDatagram zeroKey tightGecko [(zeroRandom, [0x80, 7])] 0 dg :=
    ⟨tightDatagrams, he ▸ mem_singleton_self _, hm⟩
  have hst (r : Reassembler) (hr : tightGecko.receivePacket zeroKey
      (tightArrival (zeroSalt ++ [0x80, 1, 0x12, 0, 0, 7])) .empty = some (.ok none, r)) :
      ReceiverStep zeroKey tightGecko tightGecko [(zeroRandom, [0x80, 7])] 0 "peer" .empty r :=
    .receive (fun _ => hs (zeroSalt ++ [0x80, 1, 0x12, 0, 0, 7]) (by decide)) hr
  refine ⟨_, _, rfl, rfl, ?_⟩
  exact (gecko_mixing [1, 2, 3, 4] tightOptions tightOptions tightGecko tightGecko rfl rfl zeroKey
    [(zeroRandom, [0x80, 7])] 0 "peer" _ _ (.single (hst _ rfl))
    (tightArrival (zeroSalt ++ [0x80, 1, 0x02, 0, 0, 0x80])) _ rfl
    (hs (zeroSalt ++ [0x80, 1, 0x02, 0, 0, 0x80]) (by decide)) rfl).2 (by decide)

end Hysteria.Proof
