import Hysteria.Proof.Obfs.Bookkeeping

/-!
# What comes in with a datagram

A datagram carries a whole packet (`Carries`), or one frame (`ReadsFrame`), or it is
malformed. `ReceiveStep` is what it does to the table of messages, and
`Bookkept.receivePacket` that `receive_packet` does so, in every state that the
reassembler can be in.
-/

namespace Hysteria.Proof

open Framework Impl Spec
open List hiding Vector

variable {blake2b : List UInt8 → Vector UInt8 keyLength} {gecko : Gecko} {dg : List UInt8} {fr : GeckoFrame}
  {arr : Arrival} {r r' : Reassembler}
variable {pw pkt : List UInt8} {opts : GeckoOptions} {snd rcv : Gecko}
  {res : Except GeckoError (Option (List UInt8))} {key : ReassemblyKey} {other : ReassemblyEntry}

section Definitions

variable (blake2b : List UInt8 → Vector UInt8 keyLength) (gecko : Gecko)

/-- `receive_packet` takes the datagram for a packet without the long header. -/
def Carries (datagram packet : List UInt8) : Prop :=
  ∃ first rest, packet = first :: rest ∧ first &&& fragmentFlag = 0 ∧
    gecko.salamander.deobfuscate blake2b datagram = .ok (first :: rest)

/-- `receive_packet` takes the datagram for the frame. -/
def ReadsFrame (datagram : List UInt8) (frame : GeckoFrame) : Prop :=
  ∃ first rest, gecko.salamander.deobfuscate blake2b datagram = .ok (first :: rest) ∧
    first &&& fragmentFlag ≠ 0 ∧ GeckoFrame.decode (first :: rest) = .ok frame

/-- What a datagram gives, and the table after it. -/
inductive ReceiveStep (arrival : Arrival) (m : Reassemblies) :
    Except GeckoError (Option (List UInt8)) → Reassemblies → Prop
  | malformed {error : GeckoError} (hmalformed : ∀ frame, ¬ ReadsFrame blake2b gecko arrival.datagram frame) :
    ReceiveStep arrival m (.error error) m
  | whole {packet : List UInt8} (hcarries : Carries blake2b gecko arrival.datagram packet) :
    ReceiveStep arrival m (.ok (some packet)) m
  | chunk {frame : GeckoFrame} {result : Option (List UInt8)} {m' : Reassemblies}
    (hreads : ReadsFrame blake2b gecko arrival.datagram frame)
    (hstep : AcceptStep m arrival.source frame arrival.now result m') : ReceiveStep arrival m (.ok result) m'

end Definitions

theorem ReadsFrame.validFrame (h : ReadsFrame blake2b gecko dg fr) : ValidFrame fr := by
  obtain ⟨first, rest, -, -, hd⟩ := h
  exact GeckoFrame.validFrame_of_decode hd

theorem ReadsFrame.unique {fr' : GeckoFrame} (h : ReadsFrame blake2b gecko dg fr)
    (h' : ReadsFrame blake2b gecko dg fr') : fr = fr' := by
  obtain ⟨first, rest, hr, -, hd⟩ := h
  obtain ⟨first', rest', hrest', -, hdec'⟩ := h'
  grind

theorem salamander_new (h : Gecko.new pw opts = .ok gecko) : gecko.salamander.password = pw := by
  unfold Gecko.new at h
  split at h
  · cases h
  extract_lets minPacketSize maxPacketSize at h
  split at h
  · cases h
  rcases hn : Salamander.new pw with err | salamander
  · rw [hn] at h
    cases h
  rw [hn] at h
  cases h
  unfold Salamander.new at hn
  split at hn <;> cases hn
  rfl

theorem salamander_eq {opts' : GeckoOptions} (hsn : Gecko.new pw opts = .ok snd)
    (hrc : Gecko.new pw opts' = .ok rcv) : snd.salamander = rcv.salamander := by
  have hpw := (salamander_new hsn).trans (salamander_new hrc).symm
  cases hs : snd.salamander
  simp_all

theorem Carries.congr (h : Carries blake2b snd dg pkt)
    (heq : snd.salamander = rcv.salamander) : Carries blake2b rcv dg pkt := by
  rwa [Carries, ← heq]

theorem ReadsFrame.congr (h : ReadsFrame blake2b snd dg fr)
    (heq : snd.salamander = rcv.salamander) : ReadsFrame blake2b rcv dg fr := by
  rwa [ReadsFrame, ← heq]

theorem ReadsFrame.not_carries (h : ReadsFrame blake2b gecko dg fr) : ¬ Carries blake2b gecko dg pkt := by
  rintro ⟨first', rest', -, hfst', hrest'⟩
  obtain ⟨first, rest, hr, hf, -⟩ := h
  cases hr.symm.trans hrest'
  exact hf hfst'

/-- A datagram with a frame does what the frame does. -/
theorem ReceiveStep.of_reads {m m' : Reassemblies}
    (h : ReceiveStep blake2b gecko arr m res m') (hr : ReadsFrame blake2b gecko arr.datagram fr) :
    ∃ pkt, res = .ok pkt ∧ AcceptStep m arr.source fr arr.now pkt m' := by
  cases h with
  | malformed hm => exact absurd hr (hm fr)
  | whole hc => exact absurd hc hr.not_carries
  | chunk hread' hs => exact ⟨_, rfl, hr.unique hread' ▸ hs⟩

theorem Carries.receivePacket (h : Carries blake2b gecko arr.datagram pkt)
    (r : Reassembler) : gecko.receivePacket blake2b arr r = some (.ok (some pkt), r) := by
  obtain ⟨first, rest, rfl, hf, hd⟩ := h
  unfold Gecko.receivePacket
  rw [hd]
  simp only [if_pos hf]

theorem deobfuscate_ne_nil {s : Salamander} {clear : List UInt8}
    (h : s.deobfuscate blake2b dg = .ok clear) : clear ≠ [] := by
  unfold Salamander.deobfuscate at h
  split at h <;> cases h
  rename_i hl
  rw [← length_pos_iff, Salamander.applyKey, length_mapIdx, length_drop]
  omega

/-- `receive_packet` never panics, and does to the table what `ReceiveStep` says. -/
theorem Bookkept.receivePacket (h : Bookkept r) (blake2b : List UInt8 → Vector UInt8 keyLength) (gecko : Gecko)
    (arr : Arrival) :
    ∃ res r', gecko.receivePacket blake2b arr r = some (res, r') ∧
      ReceiveStep blake2b gecko arr r.entries res r'.entries ∧ Bookkept r' := by
  unfold Gecko.receivePacket
  rcases hd : gecko.salamander.deobfuscate blake2b arr.datagram with err | clear
  · refine ⟨_, r, rfl, .malformed ?_, h⟩
    rintro fr ⟨first, rest, hr, -⟩
    cases hd.symm.trans hr
  rcases clear with _ | ⟨first, rest⟩
  · exact absurd rfl (deobfuscate_ne_nil hd)
  simp only
  by_cases hf : first &&& fragmentFlag = 0
  · rw [if_pos hf]
    exact ⟨_, r, rfl, .whole ⟨first, rest, rfl, hf, hd⟩, h⟩
  rw [if_neg hf]
  rcases hdc : GeckoFrame.decode (first :: rest) with err | fr
  · refine ⟨_, r, rfl, .malformed ?_, h⟩
    rintro fr ⟨first', rest', hr, -, hdec'⟩
    grind
  obtain ⟨res, r', ha, hs, hk⟩ := h.accept (GeckoFrame.validFrame_of_decode hdc) arr.order arr.source arr.now
  simp only [ha]
  exact ⟨_, r', rfl, .chunk ⟨first, rest, hd, hf, hdc⟩ hs, hk⟩

/-! ## What the entries are made of -/

section Entries

variable {m m' base : Reassemblies} {src : Str} {ent : ReassemblyEntry} {now : Nat}

/-- A frame goes into the entry of its message or into a fresh one. -/
def Receives (m : Reassemblies) (source : Str) (frame : GeckoFrame) (now : Nat) (entry : ReassemblyEntry) : Prop :=
  m.lookup (keyOf source frame) = some entry ∧ entry.total = frame.totalChunks ∨
    keyOf source frame ∉ m ∧ entry = freshEntry frame.totalChunks now

theorem opens_receives (h : Opens m src fr now base ent) : Receives m src fr now ent := by
  cases h with
  | pending he ht => exact .inl ⟨he, ht⟩
  | fresh hn _ _ => exact .inr ⟨hn, rfl⟩
  | evicting hn _ _ _ _ => exact .inr ⟨hn, rfl⟩

theorem opens_lookup (h : Opens m src fr now base ent)
    (hl : base.lookup key = some other) : m.lookup key = some other := by
  cases h with
  | pending _ _ => exact hl
  | fresh _ _ _ => exact hl
  | evicting _ _ _ _ _ => exact lookup_of_erase hl

/-- The entries after a frame are those before it, but for the one that has got the chunk. -/
theorem acceptStep_lookup {res : Option (List UInt8)}
    (h : AcceptStep m src fr now res m') (hl : m'.lookup key = some other) :
    m.lookup key = some other ∨ key = keyOf src fr ∧ ∃ ent, Receives m src fr now ent ∧
        ent.chunks[fr.chunkIndex.toNat]? = some none ∧ other = fill ent fr := by
  cases h with
  | mismatched _ _ => exact .inl hl
  | refused _ _ => exact .inl hl
  | repeated _ _ _ => exact .inl hl
  | stored hops hs _ =>
    by_cases hk : key = keyOf src fr
    · grind [AList.lookup_insert, opens_receives, Option.some.inj]
    grind [AList.lookup_insert_ne, opens_lookup]
  | completed hops _ _ => exact .inl (opens_lookup hops (lookup_of_erase hl))

/-- The packet that a frame completes: one chunk from each slot. -/
theorem acceptStep_packet (h : AcceptStep m src fr now (some pkt) m') (hm : TableKept m) (hfr : ValidFrame fr) :
    ∃ ent cs, Receives m src fr now ent ∧ ent.chunks[fr.chunkIndex.toNat]? = some none ∧
      (fill ent fr).chunks = map some cs ∧ cs.length = fr.totalChunks.toNat ∧
      pkt = cs.flatten := by
  cases h with
  | completed hops hsl hls =>
    rename_i ent
    obtain ⟨hs, ht⟩ := opens_slotted hops hm hfr
    have hf := slotted_fill hs hsl
    have hl : (fill ent fr).chunks.length = fr.totalChunks.toNat := by
      rw [hf.length, ← ht]
      rfl
    have hr : (fill ent fr).received = ent.received + 1 := rfl
    have hle : filled (fill ent fr).chunks ≤ (fill ent fr).chunks.length := countP_le_length
    have ha : filled (fill ent fr).chunks = (fill ent fr).chunks.length := by
      rw [← hf.received] at hle ⊢
      omega
    obtain ⟨cs, hcs⟩ := exists_eq_map_some ha
    refine ⟨ent, cs, opens_receives hops, hsl, hcs, ?_, ?_⟩
    · rw [hcs, length_map] at hl
      exact hl
    simp_all [Spec.packet, filterMap_map]

end Entries

theorem receiveAll_cons {arrs : List Arrival} (h : gecko.receivePacket blake2b arr r = some (res, r')) :
    gecko.receiveAll blake2b (arr :: arrs) r =
      (gecko.receiveAll blake2b arrs r').map fun (results, r) => (res :: results, r) := by
  simp only [Gecko.receiveAll, h, Option.bind_eq_bind, Option.bind_some]
  cases gecko.receiveAll blake2b arrs r' <;> rfl

end Hysteria.Proof
