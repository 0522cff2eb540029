import Hysteria.Proof.Transport.DatagramSender

/-!
# Reassembly across a packet ID cycle

`emittedOn_sent_or_mixed`: whatever the network does to the datagrams of a
connection, a session emits what was sent on it, unless two of its sends are a
whole cycle of packet IDs apart.
-/

namespace Hysteria.Proof

open Framework Relation Impl List

variable {ctr : UInt32} {s : Sender}

variable {fs : List UdpMessage} {sid : UInt32} {m : UdpMessage}
variable {a b i j : Nat} {f g out : UdpMessage} {call c c' : SendCall} {gs parts : List UdpMessage}
  {arrs : List (List UInt8)} {packetId : UInt16}

theorem SenderInv.cycle (h : SenderInv ctr s) {id : UInt16} (ha : s.issued[a]? = some id)
    (hb : s.issued[b]? = some id) : a = b ∨ a + 65535 ≤ b ∨ b + 65535 ≤ a := by
  have ha := h.issued a id ha
  have hb := h.issued b id hb
  omega

/-- `f` is one of the fragments `fs` that the `i`-th call sent under its
allocation `a`. -/
structure FragmentOf (s : Sender) (f : UdpMessage) (i : Nat) (call : SendCall) (a : Nat)
    (fs : List UdpMessage) : Prop where
  sentBy : s.calls[i]? = some call
  allocation : call.allocation = some a
  issued : s.issued[a]? = some f.packetId
  split : ∃ maxSize, call.maxDatagramSize = some maxSize ∧
    fragmentUdpMessage { call.message with packetId := f.packetId } maxSize = .ok fs
  fragments : Fragments { call.message with packetId := f.packetId } fs
  mem : f ∈ fs

theorem FragmentOf.fields (h : FragmentOf s f i call a fs) :
    f.sessionId = call.message.sessionId ∧ f.address = call.message.address ∧
      f.fragmentCount.toNat = fs.length := by
  obtain ⟨k, hk, he⟩ := getElem_of_mem h.mem
  have hc := h.fragments.fragmentCount_getElem hk
  have hh := h.fragments.header k hk
  grind

/-- The data of a fragment is a part of the data that was sent. -/
theorem FragmentOf.data (h : FragmentOf s f i call a fs) : f.data ≠ [] ∧ f.data <:+: call.message.data := by
  refine ⟨h.fragments.data_ne f h.mem, ?_⟩
  have hd : call.message.data = fs.flatMap (·.data) := h.fragments.data.symm
  obtain ⟨l, r, rfl⟩ := append_of_mem h.mem
  grind

/-- The allocation determines the call and its fragments. -/
theorem FragmentOf.unique (h : SenderInv ctr s) (hf : FragmentOf s f i c a fs) (hg : FragmentOf s g j c' a gs) :
    gs = fs := by
  obtain rfl := h.distinct i j c c' a hf.sentBy hg.sentBy hf.allocation hg.allocation
  obtain rfl : c = c' := Option.some.inj (hf.sentBy.symm.trans hg.sentBy)
  have hid : f.packetId = g.packetId := Option.some.inj (hf.issued.symm.trans hg.issued)
  obtain ⟨n, hn, hfs⟩ := hf.split
  grind [hg.split]

theorem part_of_receivedOn (h : SenderInv ctr s) (ha : ∀ bs ∈ arrs, bs ∈ s.wire) (hm : m ∈ receivedOn sid arrs) :
    m.sessionId = sid ∧ ∃ (i : Nat) (call : SendCall), s.calls[i]? = some call ∧ Part s.issued call m := by
  rw [receivedOn, mem_filter, mem_filterMap] at hm
  obtain ⟨⟨bs, hb, hdc⟩, hs⟩ := hm
  refine ⟨by simpa using hs, ?_⟩
  obtain ⟨i, call, f, hc, he, hp⟩ := h.wire bs (ha bs hb)
  rcases hd : UdpMessage.decode bs with e | m'
  · simp [hd, Except.toOption] at hdc
  grind [UdpMessage.eq_of_decode_encode, Except.toOption]

/-- A received message is a whole message that was sent, or a fragment. -/
theorem whole_or_fragmentOf (h : SenderInv ctr s) (hc : s.calls[i]? = some call) (hp : Part s.issued call m) :
    m = call.message ∧ m.fragmentCount = 1 ∨
      2 ≤ m.fragmentCount.toNat ∧ ∃ a fs, FragmentOf s m i call a fs := by
  cases hp with
  | whole =>
    obtain ⟨sid, addr, data, hm⟩ := (h.calls i call hc).message
    exact .inl ⟨rfl, by rw [hm]; rfl⟩
  | @fragment a maxSize packetId fs f ha hi hmx hfs h2 hf =>
    have hfr := fragments_of_two_le hfs h2
    obtain ⟨k, hk, rfl⟩ := getElem_of_mem hf
    have hid : fs[k].packetId = packetId := hfr.packetId_getElem hk
    have hof : FragmentOf s fs[k] i call a fs := by
      refine ⟨hc, ha, hid ▸ hi, ⟨maxSize, hmx, ?_⟩, ?_, hf⟩
      · rwa [hid]
      · rwa [hid]
    exact .inr ⟨by rw [hof.fields.2.2]; exact h2, a, fs, hof⟩

/-- Parts of one allocation are the fragments of that call. -/
theorem parts_eq (ho : Assembled packetId parts out) (hfs : Fragments m fs) (hl : parts.length = fs.length)
    (hs : ∀ f ∈ parts, f ∈ fs) : parts = fs := by
  apply ext_getElem hl
  intro i hi hi'
  obtain ⟨k, hk, he⟩ := getElem_of_mem (hs _ (getElem_mem hi))
  have hid := ho.id i hi
  rw [← he, hfs.fragmentId_getElem hk] at hid
  subst hid
  exact he.symm

/-- `out` is made of data of two sends on the session that are a whole cycle
of packet IDs apart. -/
def Mixed (s : Sender) (sessionId : UInt32) (out : UdpMessage) : Prop :=
  ∃ c₁ ∈ s.calls, ∃ c₂ ∈ s.calls, c₁.message.sessionId = sessionId ∧ c₂.message.sessionId = sessionId ∧
    (∃ a₁ a₂, c₁.allocation = some a₁ ∧ c₂.allocation = some a₂ ∧ a₁ + 65535 ≤ a₂) ∧
    ∃ parts : List (List UInt8), out.data = parts.flatten ∧
      (∃ p ∈ parts, p ≠ [] ∧ p <:+: c₁.message.data) ∧ ∃ p ∈ parts, p ≠ [] ∧ p <:+: c₂.message.data

theorem mixed_of_fragmentOf (ho : Assembled packetId parts out) (hf : f ∈ parts) (hg : g ∈ parts)
    (hsf : f.sessionId = sid) (hsg : g.sessionId = sid) (hof : FragmentOf s f i c a fs)
    (hog : FragmentOf s g j c' b gs) (hab : a + 65535 ≤ b) : Mixed s sid out := by
  refine ⟨c, mem_of_getElem? hof.sentBy, c', mem_of_getElem? hog.sentBy, ?_, ?_,
    ⟨a, b, hof.allocation, hog.allocation, hab⟩, parts.map (·.data), ?_, ⟨f.data, ?_, hof.data⟩,
    ⟨g.data, ?_, hog.data⟩⟩
  · rw [← hof.fields.1, hsf]
  · rw [← hog.fields.1, hsg]
  · rw [ho.data, flatMap_def]
  · exact mem_map_of_mem hf
  · exact mem_map_of_mem hg

/-- What a session emits, in a reachable state. -/
theorem SenderInv.emits (h : SenderInv ctr s) (har : ∀ bs ∈ arrs, bs ∈ s.wire) (ho : out ∈ emittedOn sid arrs) :
    (∃ call ∈ s.calls, call.message.sessionId = sid ∧ out.address = call.message.address ∧
      out.data = call.message.data) ∨ Mixed s sid out := by
  rcases feedAll_emits (fun m hm => part_of_receivedOn h har hm) ho with
    ⟨⟨hs, i, call, hc, hp⟩, h1⟩ | ⟨packetId, parts, hps, hot⟩
  · rcases whole_or_fragmentOf h hc hp with ⟨rfl, -⟩ | ⟨h2, -⟩
    · grind
    grind [UInt8.le_iff_toNat_le]
  have h2 := hot.two_le
  have hof : ∀ f ∈ parts, ∃ i call a fs, FragmentOf s f i call a fs := by
    intro f hf
    obtain ⟨-, i, call, hc, hp⟩ := hps f hf
    rcases whole_or_fragmentOf h hc hp with ⟨-, h1⟩ | ⟨-, a, fs, hof⟩
    · have := hot.count f hf
      rw [h1, show (1 : UInt8).toNat = 1 from rfl] at this
      omega
    · exact ⟨i, call, a, fs, hof⟩
  obtain ⟨f, hf, had⟩ := hot.address
  obtain ⟨i, call, a, fs, hc⟩ := hof f hf
  by_cases ha : ∀ g ∈ parts, ∀ j c b gs, FragmentOf s g j c b gs → b = a
  · have hsb : ∀ g ∈ parts, g ∈ fs := by
      intro g hg
      obtain ⟨j, c, b, gs, hog⟩ := hof g hg
      obtain rfl := ha g hg j c b gs hog
      exact hc.unique h hog ▸ hog.mem
    have hl : parts.length = fs.length := (hot.count f hf).symm.trans hc.fields.2.2
    have hd := hc.fragments.data
    rw [← parts_eq hot hc.fragments hl hsb, ← hot.data] at hd
    grind [hc.sentBy, hc.fields]
  · push Not at ha
    obtain ⟨g, hg, j, c, b, gs, hog, hne⟩ := ha
    have hid : g.packetId = f.packetId := (hot.packetId_eq g hg).trans (hot.packetId_eq f hf).symm
    rcases h.cycle hc.issued (hid ▸ hog.issued) with rfl | hab | hba
    · exact absurd rfl hne
    · grind [mixed_of_fragmentOf]
    grind [mixed_of_fragmentOf]

/-- In every run of concurrent calls of `send`, from any counter value, and for
every sequence of datagrams that a network makes of those sent: a session emits
only what was sent on it, or a mix of two sends a whole cycle of packet IDs
apart. `next_packet_id` returns after one or two rounds, never with zero, and
fewer than 65535 calls never repeat an ID. -/
theorem emittedOn_sent_or_mixed {counter : UInt32} {s : Sender} (run : ReflTransGen SendStep (.init counter) s)
    {arrivals : List (List UInt8)} (harr : ∀ bytes ∈ arrivals, bytes ∈ s.wire) (sessionId : UInt32) :
    (∀ out ∈ emittedOn sessionId arrivals,
      (∃ call ∈ s.calls, call.message.sessionId = sessionId ∧ out.address = call.message.address ∧
        out.data = call.message.data) ∨
      Mixed s sessionId out) ∧
    (∀ id ∈ s.issued, id ≠ 0) ∧
    (∀ i j id id', i < j → j < i + 65535 → s.issued[i]? = some id → s.issued[j]? = some id' → id ≠ id') ∧
    (∀ c : UInt32, (nextPacketId c).2 = c + 1 ∨ (nextPacketId c).2 = c + 1 + 1) ∧
    (∀ (c : UInt32) (n : Nat), packetIdAt c n ≠ 0) ∧
    ∀ (c : UInt32) (i j : Nat), i < j → j < i + 65535 → packetIdAt c i ≠ packetIdAt c j := by
  have h := invariant_run (fun _ _ h hs => h.step hs) (senderInv_init counter) run
  refine ⟨fun out ho => h.emits harr ho, ?_, ?_, fun c => (nextPacketId_spec c).2.2, ?_, ?_⟩
  · intro id hid h0
    obtain ⟨i, hi⟩ := getElem?_of_mem hid
    have := h.issued i id hi
    simp_all
  · rintro i j id _ hij hji hi hj rfl
    rcases h.cycle hi hj with rfl | hc | hc <;> omega
  · intro c n h0
    have := toNat_packetIdAt c n
    simp_all
  grind [toNat_packetIdAt]

/-- A connection with datagrams of fourteen bytes. -/
def smallConnection : Connection where
  maxDatagramSize := some 14
  sendDatagramWait _ := .ok ()

/-- The counter wraps to zero, which is no packet ID. -/
theorem nextPacketId_wrap : (nextPacketId 65535).1 = 1 := by
  apply UInt16.toNat_inj.mp
  rw [(nextPacketId_spec 65535).1]
  decide

theorem emittedOn_sent_or_mixed_wrap : ∃ s, ReflTransGen SendStep (.init 65535) s ∧ s.wire.length = 3 ∧
    ∀ out ∈ emittedOn 7 s.wire.reverse,
      (∃ call ∈ s.calls, call.message.sessionId = 7 ∧ out.address = call.message.address ∧
        out.data = call.message.data) ∨ Mixed s 7 out := by
  obtain ⟨s, hr⟩ := send_run smallConnection (.init 65535) 7 "a:1" [1, 2, 3, 4, 5]
  refine ⟨s, hr.run, ?_, (emittedOn_sent_or_mixed hr.run (fun _ h => mem_reverse.mp h) 7).1⟩
  rw [hr.wire, send_eq_afterId (by decide) (show smallConnection.maxDatagramSize = some 14 from rfl) (by decide),
    Sender.init, nextPacketId_wrap]
  rfl

end Hysteria.Proof
