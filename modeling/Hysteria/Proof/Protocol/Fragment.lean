import Mathlib.Data.List.Nodup
import Mathlib.Data.Nat.Find
import Hysteria.Framework.Slots
import Hysteria.Impl.Protocol.Fragment
import Hysteria.Proof.Protocol.UdpMessage

/-!
# Fragmentation loses nothing

`fragmentUdpMessage_cases`: what the splitter returns. If it cuts the message
(`Fragments`), the pieces carry the message's header, are numbered in order,
none is empty, and together they are the data.

`Holding`: the reassembler after some fragments of one message: the slots of
those it has seen are filled, and `received` counts them. `feed_fragment` is
one step from there; `feedAll_fragments` is the run over any sequence of
fragments.
-/

namespace Hysteria.Proof

open Framework Impl List

variable {d : Defragger} {seen arrs : List UdpMessage} {maxSize i : Nat} {f : UdpMessage}

/-- `fs` are the fragments of `m`, at least two. -/
structure Fragments (m : UdpMessage) (fs : List UdpMessage) : Prop where
  two_le : 2 ≤ fs.length
  le_255 : fs.length ≤ 255
  header : ∀ i (h : i < fs.length), fs[i] =
    { m with fragmentId := UInt8.ofNat i, fragmentCount := UInt8.ofNat fs.length, data := fs[i].data }
  data_ne : ∀ f ∈ fs, f.data ≠ []
  data : fs.flatMap (·.data) = m.data

/-! ## The splitter -/

theorem u8TryFrom_eq_some {n : Nat} {b : UInt8} : u8TryFrom n = some b ↔ n < 2 ^ 8 ∧ b = UInt8.ofNat n := by
  unfold u8TryFrom
  grind

/-- The pieces of a message that is cut into chunks of `p` bytes. -/
def pieces (m : UdpMessage) (p : Nat) : List UdpMessage :=
  (chunks p m.data).zipIdx.map fun (data, index) =>
    { m with fragmentId := UInt8.ofNat index, fragmentCount := UInt8.ofNat (divCeil m.data.length p), data }

/-- A message that does not fit is cut, if the header leaves room and 255
fragments are enough. -/
theorem fragmentUdpMessage_pieces {m : UdpMessage} (hf : maxSize < m.encodedSize) (hp : m.headerSize < maxSize)
    (hlt : divCeil m.data.length (maxSize - m.headerSize) < 2 ^ 8) :
    fragmentUdpMessage m maxSize = .ok (pieces m (maxSize - m.headerSize)) := by
  unfold fragmentUdpMessage
  rw [if_neg (by omega)]
  simp only
  rw [if_neg (by omega), u8TryFrom_eq_some.mpr ⟨hlt, rfl⟩]
  refine mapM_ok ?_
  rintro ⟨c, i⟩ hx
  have hi := snd_lt_of_mem_zipIdx hx
  rw [length_chunks] at hi
  rw [u8TryFrom_eq_some.mpr ⟨by omega, rfl⟩]

theorem fragmentUdpMessage_cases {m : UdpMessage} {fs : List UdpMessage} (h : fragmentUdpMessage m maxSize = .ok fs) :
    m.encodedSize ≤ maxSize ∧ fs = [m] ∨ maxSize < m.encodedSize ∧ maxSize ≤ m.headerSize ∧ fs = [] ∨
      ∃ p, 0 < p ∧ p < m.data.length ∧ maxSize = m.headerSize + p ∧ divCeil m.data.length p < 2 ^ 8 ∧
        fs = pieces m p := by
  by_cases hf : m.encodedSize ≤ maxSize
  · grind [fragmentUdpMessage]
  by_cases hp : maxSize ≤ m.headerSize
  · grind [fragmentUdpMessage]
  by_cases hlt : divCeil m.data.length (maxSize - m.headerSize) < 2 ^ 8
  · grind [fragmentUdpMessage_pieces, Except.ok.inj, UdpMessage.encodedSize]
  grind [fragmentUdpMessage, u8TryFrom]

theorem length_pieces (m : UdpMessage) (p : Nat) : (pieces m p).length = divCeil m.data.length p := by
  simp [pieces]

theorem getElem_pieces {m : UdpMessage} {p : Nat} (h : i < (pieces m p).length) :
    (pieces m p)[i] = { m with
      fragmentId := UInt8.ofNat i
      fragmentCount := UInt8.ofNat (pieces m p).length
      data := (pieces m p)[i].data } := by
  simp [pieces]

theorem pieces_data (m : UdpMessage) (p : Nat) : (pieces m p).map (·.data) = chunks p m.data := by
  rw [pieces, map_map]
  exact (map_congr_left fun _ _ => rfl).trans (zipIdx_map_fst 0 _)

theorem pieces_fragments {m : UdpMessage} {p : Nat} (hp : 0 < p) (hlt : p < m.data.length)
    (h8 : divCeil m.data.length p < 2 ^ 8) : Fragments m (pieces m p) where
  two_le := by
    rw [length_pieces]
    exact (lt_divCeil hp).mpr (by omega)
  le_255 := by rw [length_pieces]; omega
  header _ h := getElem_pieces h
  data_ne f hf := by
    have hc : f.data ∈ chunks p m.data := by
      grind [pieces_data]
    exact (mem_chunks hp hc).1
  data := by rw [flatMap_def, pieces_data, flatten_chunks hp]

theorem encodedSize_piece {m : UdpMessage} {p : Nat} (hp : 0 < p) (hf : f ∈ pieces m p) :
    f.address = m.address ∧ f.encodedSize ≤ m.headerSize + p := by
  have hc : f.data ∈ chunks p m.data := by
    rw [← pieces_data]
    exact mem_map_of_mem hf
  obtain ⟨i, hi, rfl⟩ := getElem_of_mem hf
  have ha : (pieces m p)[i].address = m.address := by rw [getElem_pieces hi]
  refine ⟨ha, ?_⟩
  have := (mem_chunks hp hc).2
  simp only [UdpMessage.encodedSize, UdpMessage.headerSize, UdpMessage.addressLen, ha]
  omega

/-! ## The reassembler -/

section Reassembler

variable {m : UdpMessage} {fs : List UdpMessage}

theorem Fragments.fragmentId_getElem (h : Fragments m fs) (hi : i < fs.length) : fs[i].fragmentId.toNat = i := by
  have := h.le_255
  rw [h.header i hi, UInt8.toNat_ofNat']
  omega

theorem Fragments.fragmentCount_getElem (h : Fragments m fs) (hi : i < fs.length) :
    fs[i].fragmentCount.toNat = fs.length := by
  have := h.le_255
  rw [h.header i hi, UInt8.toNat_ofNat']
  omega

theorem Fragments.packetId_getElem (h : Fragments m fs) (hi : i < fs.length) : fs[i].packetId = m.packetId := by
  rw [h.header i hi]

theorem Fragments.nodup (h : Fragments m fs) : fs.Nodup := by
  rw [nodup_iff_pairwise_ne, pairwise_iff_getElem]
  intro i j hi hj hij e
  have := congrArg (fun f : UdpMessage => f.fragmentId.toNat) e
  simp only [h.fragmentId_getElem] at this
  omega

/-- The slots of the fragments seen so far. -/
def slotsOf (fs seen : List UdpMessage) : List (Option UdpMessage) :=
  fs.map fun f => if f ∈ seen then some f else none

/-- The reassembler holds the fragments `seen` of `m`. -/
structure Holding (m : UdpMessage) (fs seen : List UdpMessage) (d : Defragger) : Prop where
  packetId : d.packetId = m.packetId
  fragments : d.fragments = slotsOf fs seen
  received : d.received = filled (slotsOf fs seen)

theorem slotsOf_set (h : fs.Nodup) (hi : i < fs.length) (seen : List UdpMessage) :
    (slotsOf fs seen).set i (some fs[i]) = slotsOf fs (fs[i] :: seen) := by
  apply ext_getElem
  · simp [slotsOf]
  intro j h₁ h₂
  have hj : j < fs.length := by simpa [slotsOf] using h₂
  rw [getElem_set]
  simp only [slotsOf, getElem_map, mem_cons]
  by_cases e : i = j
  · subst e
    simp
  rw [if_neg e]
  have hne : fs[j] ≠ fs[i] := fun he => e (h.getElem_inj_iff.mp he).symm
  simp [hne]

theorem slotsOf_nil (fs : List UdpMessage) : slotsOf fs [] = replicate fs.length none := by
  simp [slotsOf, map_const']

theorem slotsOf_seen (h : f ∈ seen) : slotsOf fs (f :: seen) = slotsOf fs seen := by
  refine map_congr_left fun g _ => ?_
  grind

theorem filled_slotsOf : filled (slotsOf fs seen) = (slotsOf fs seen).length ↔ ∀ f ∈ fs, f ∈ seen := by
  rw [filled_eq_length]
  simp only [slotsOf, mem_map, forall_exists_index, and_imp, forall_apply_eq_imp_iff₂]
  simp

theorem slotsOf_all (h : ∀ f ∈ fs, f ∈ seen) : slotsOf fs seen = fs.map some := by
  refine map_congr_left fun f hf => ?_
  rw [if_pos (h f hf)]

/-- The message a reassembler returns that has every fragment. -/
theorem Fragments.complete (h : Fragments m fs) (hid : m.fragmentId = 0) (hc : m.fragmentCount = 1)
    (hi : i < fs.length) :
    ({ fs[i] with fragmentId := 0, fragmentCount := 1, data := fs.flatMap (·.data) } : UdpMessage) = m := by
  rw [h.header i hi, h.data, ← hid, ← hc]

/-- The reassembler never rejects a fragment: it starts over, or it fills a
slot, or it has the fragment already. -/
theorem Fragments.feed_eq (h : Fragments m fs) (d : Defragger) (hi : i < fs.length) : d.feed fs[i] =
      if m.packetId ≠ d.packetId ∨ d.fragments.length ≠ fs.length then
        (none, { packetId := m.packetId
                 fragments := (replicate fs.length none).set i (some fs[i])
                 received := 1 })
      else if d.fragments[i]? = some none then
        let d' : Defragger :=
          { d with fragments := d.fragments.set i (some fs[i]), received := d.received + 1 }
        if d'.received = d'.fragments.length then
          (some { fs[i] with
            fragmentId := 0
            fragmentCount := 1
            data := (d'.fragments.filterMap id).flatMap (·.data) }, d')
        else (none, d')
      else (none, d) := by
  have h2 := h.two_le
  have h1 : ¬ fs[i].fragmentCount ≤ 1 := by
    rw [UInt8.le_iff_toNat_le, h.fragmentCount_getElem, show (1 : UInt8).toNat = 1 from rfl]
    omega
  have hlt : ¬ fs[i].fragmentId ≥ fs[i].fragmentCount := by
    rw [ge_iff_le, UInt8.le_iff_toNat_le, h.fragmentId_getElem, h.fragmentCount_getElem]
    omega
  unfold Defragger.feed
  rw [if_neg h1, if_neg hlt, h.fragmentId_getElem, h.fragmentCount_getElem]
  simp only [h.packetId_getElem hi]

/-- The first fragment: the reassembler drops what it had. -/
theorem feed_reset (h : Fragments m fs) (hd : d.packetId ≠ m.packetId ∨ d.fragments.length ≠ fs.length) (hf : f ∈ fs) :
    (d.feed f).1 = none ∧ Holding m fs [f] (d.feed f).2 := by
  obtain ⟨i, hi, rfl⟩ := getElem_of_mem hf
  have hs : (slotsOf fs [])[i]? = some none := by simp [slotsOf_nil, hi]
  rw [h.feed_eq d hi, if_pos (hd.imp_left Ne.symm)]
  refine ⟨rfl, rfl, ?_, ?_⟩
  · rw [← slotsOf_nil, slotsOf_set h.nodup hi]
  · rw [← slotsOf_set h.nodup hi, filled_set hs, slotsOf_nil, filled_replicate_none]

/-- One more fragment: the message, if it is the last one missing. -/
theorem feed_fragment (h : Fragments m fs) (hid : m.fragmentId = 0) (hc : m.fragmentCount = 1)
    (hd : Holding m fs seen d) (hf : f ∈ fs) :
    (d.feed f).1 = (if (∀ g ∈ fs, g ∈ f :: seen) ∧ ¬ ∀ g ∈ fs, g ∈ seen then some m else none) ∧
      Holding m fs (f :: seen) (d.feed f).2 := by
  obtain ⟨i, hi, rfl⟩ := getElem_of_mem hf
  have hl : (slotsOf fs seen).length = fs.length := by simp [slotsOf]
  have hsl : (slotsOf fs seen)[i]? = some (if fs[i] ∈ seen then some fs[i] else none) := by
    simp [slotsOf, hi]
  rw [h.feed_eq d hi, if_neg (by simp [hd.packetId, hd.fragments, hl])]
  by_cases hs : fs[i] ∈ seen
  · rw [if_neg (by rw [hd.fragments, hsl, if_pos hs]; simp), if_neg]
    · exact ⟨rfl, hd.packetId, by rw [slotsOf_seen hs, hd.fragments], by rw [slotsOf_seen hs, hd.received]⟩
    grind
  have hfr : (slotsOf fs seen)[i]? = some none := by rw [hsl, if_neg hs]
  have hst : d.fragments.set i (some fs[i]) = slotsOf fs (fs[i] :: seen) := by
    rw [hd.fragments, slotsOf_set h.nodup hi]
  have hr : d.received + 1 = filled (slotsOf fs (fs[i] :: seen)) := by
    rw [hd.received, ← slotsOf_set h.nodup hi, filled_set hfr]
  have hnt : ¬ ∀ g ∈ fs, g ∈ seen := fun ha => hs (ha _ hf)
  rw [if_pos (by rw [hd.fragments, hfr])]
  simp only [hst, hr]
  by_cases ha : ∀ g ∈ fs, g ∈ fs[i] :: seen
  · have hal : (slotsOf fs (fs[i] :: seen)).filterMap id = fs := by
      rw [slotsOf_all ha, filterMap_map]
      simp
    rw [if_pos (filled_slotsOf.mpr ha), if_pos ⟨ha, hnt⟩, hal]
    exact ⟨congrArg some (h.complete hid hc hi), hd.packetId, rfl, rfl⟩
  · rw [if_neg (fun e => ha (filled_slotsOf.mp e)), if_neg fun e => ha e.1]
    exact ⟨rfl, hd.packetId, rfl, rfl⟩

/-- A run over fragments of `m`: the message comes out where the last missing
fragment comes in, and only there. -/
theorem feedAll_fragments (h : Fragments m fs) (hid : m.fragmentId = 0) (hc : m.fragmentCount = 1) :
    ∀ (arrs : List UdpMessage) {d : Defragger} {seen : List UdpMessage}, Holding m fs seen d →
      (∀ f ∈ arrs, f ∈ fs) → ∀ j < arrs.length, (d.feedAll arrs)[j]? =
        some (if (∀ g ∈ fs, g ∈ seen ∨ g ∈ arrs.take (j + 1)) ∧ ¬ ∀ g ∈ fs, g ∈ seen ∨ g ∈ arrs.take j
          then some m else none)
  | [], _, _, _, _, j, hj => by simp at hj
  | f :: rest, d, seen, hd, hs, j, hj => by
    obtain ⟨he, hd'⟩ := feed_fragment h hid hc hd (hs f mem_cons_self)
    rw [Defragger.feedAll]
    rcases j with _ | j
    · grind
    rw [getElem?_cons_succ, feedAll_fragments h hid hc rest hd'
      (fun g hg => hs g (mem_cons_of_mem _ hg)) j (by simpa using hj)]
    simp [or_assoc, or_left_comm]

/-- `arrivals` brought every fragment. -/
def Covers (fs arrivals : List UdpMessage) : Prop := ∀ f ∈ fs, f ∈ arrivals

instance (fs arrivals : List UdpMessage) : Decidable (Covers fs arrivals) :=
  inferInstanceAs (Decidable (∀ f ∈ fs, f ∈ arrivals))

/-- The same from a reassembler that holds nothing of `m`. -/
theorem feedAll_reset (h : Fragments m fs) (hid : m.fragmentId = 0) (hc : m.fragmentCount = 1)
    (hd : d.packetId ≠ m.packetId ∨ d.fragments.length ≠ fs.length) (hs : ∀ f ∈ arrs, f ∈ fs) {j : Nat}
    (hj : j < arrs.length) :
    (d.feedAll arrs)[j]? =
      some (if Covers fs (arrs.take (j + 1)) ∧ ¬ Covers fs (arrs.take j) then some m else none) := by
  rcases arrs with _ | ⟨f, rest⟩
  · simp at hj
  obtain ⟨he, hd'⟩ := feed_reset h hd (hs f mem_cons_self)
  rw [Defragger.feedAll]
  rcases j with _ | j
  · have h2 := h.two_le
    rw [getElem?_cons_zero, he, if_neg]
    rintro ⟨ha, -⟩
    have h0 : fs[0] = f := by simpa using ha fs[0] (getElem_mem _)
    have h1 : fs[1] = f := by simpa using ha fs[1] (getElem_mem _)
    exact absurd (h.nodup.getElem_inj_iff.mp (h0.trans h1.symm)) (by decide)
  · rw [getElem?_cons_succ, feedAll_fragments h hid hc rest hd'
      (fun g hg => hs g (mem_cons_of_mem _ hg)) j (by simpa using hj)]
    simp [Covers]

theorem Covers.mono {j k : Nat} (hjk : j ≤ k) (h : Covers fs (arrs.take j)) : Covers fs (arrs.take k) :=
  fun f hf => (take_subset_take_left arrs hjk) (h f hf)

/-- There is one position where the last missing fragment comes in. -/
theorem Covers.exists_first (hne : fs ≠ []) (h : Covers fs arrs) : ∃ k < arrs.length, ∀ j < arrs.length,
      Covers fs (arrs.take (j + 1)) ∧ ¬ Covers fs (arrs.take j) ↔ j = k := by
  have hex : ∃ n, Covers fs (arrs.take n) := ⟨arrs.length, by rwa [take_length]⟩
  obtain ⟨f, hf⟩ := exists_mem_of_ne_nil fs hne
  have hp : Nat.find hex ≠ 0 := fun e => by
    have := Nat.find_spec hex
    rw [e] at this
    simpa using this f hf
  have hle : Nat.find hex ≤ arrs.length := Nat.find_min' hex (by rwa [take_length])
  refine ⟨Nat.find hex - 1, by omega, fun j _ => ⟨fun ⟨hc, hn⟩ => ?_, ?_⟩⟩
  · have h1 := Nat.find_min' hex hc
    have h2 : j < Nat.find hex := Nat.lt_of_not_le fun hle => hn ((Nat.find_spec hex).mono hle)
    omega
  rintro rfl
  refine ⟨?_, Nat.find_min hex (by omega)⟩
  grind

end Reassembler

/-! ## Losslessness -/

/-- A fragment list is the whole message, or its fragments. -/
theorem fragments_of_two_le {m : UdpMessage} {fs : List UdpMessage} (h : fragmentUdpMessage m maxSize = .ok fs)
    (h2 : 2 ≤ fs.length) : Fragments m fs := by
  rcases fragmentUdpMessage_cases h with ⟨-, rfl⟩ | ⟨-, -, rfl⟩ | ⟨p, hp, hlt, -, h8, rfl⟩
  · simp at h2
  · simp at h2
  · exact pieces_fragments hp hlt h8

/-- Every fragment has the address of the message, and fits. -/
theorem encodedSize_fragment {m : UdpMessage} {fs : List UdpMessage} (h : fragmentUdpMessage m maxSize = .ok fs)
    (hf : f ∈ fs) : f.address = m.address ∧ f.encodedSize ≤ maxSize := by
  rcases fragmentUdpMessage_cases h with ⟨hle, rfl⟩ | ⟨-, -, rfl⟩ | ⟨p, hp, -, rfl, -, rfl⟩
  · grind
  · simp at hf
  · exact encodedSize_piece hp hf

theorem data_ne_fragment {m : UdpMessage} {fs : List UdpMessage} (h : fragmentUdpMessage m maxSize = .ok fs)
    (hd : m.data ≠ []) (hf : f ∈ fs) : f.data ≠ [] := by
  rcases fragmentUdpMessage_cases h with ⟨-, rfl⟩ | ⟨-, -, rfl⟩ | ⟨p, hp, hlt, -, h8, rfl⟩
  · grind
  · simp at hf
  · exact (pieces_fragments hp hlt h8).data_ne f hf

/-- Fragmentation is lossless: every fragment fits and survives the wire, and
whatever the order and the repetitions in which a reassembler gets them, it
returns the message once, where the last missing fragment comes in. -/
theorem fragmentUdpMessage_lossless {m : UdpMessage} {maxSize : Nat} {fs : List UdpMessage} (hid : m.fragmentId = 0)
    (hcount : m.fragmentCount = 1) (haddr : m.address ≠ []) (hlen : m.addressLen ≤ 2048) (hdata : m.data ≠ [])
    (h : fragmentUdpMessage m maxSize = .ok fs) (hne : fs ≠ []) :
    (∀ f ∈ fs, ∃ bytes, f.encode = .ok bytes ∧ bytes.length ≤ maxSize ∧ UdpMessage.decode bytes = .ok f) ∧
      (2 ≤ fs.length → ∀ d : Defragger, (d.packetId ≠ m.packetId ∨ d.fragments.length ≠ fs.length) →
        ∀ arrivals : List UdpMessage, (∀ f ∈ arrivals, f ∈ fs) → (∀ f ∈ fs, f ∈ arrivals) → ∃ k < arrivals.length,
            (∀ f ∈ fs, f ∈ arrivals.take (k + 1)) ∧ ¬ (∀ f ∈ fs, f ∈ arrivals.take k) ∧
            ∀ j < arrivals.length,
              (d.feedAll arrivals)[j]? = some (if j = k then some m else none)) := by
  refine ⟨fun f hf => ?_, fun h2 d hd arrivals hsb hcv => ?_⟩
  · obtain ⟨ha, hs⟩ := encodedSize_fragment h hf
    have hlen' : f.addressLen ≤ maxMessageLength := by
      rw [UdpMessage.addressLen, ha]
      exact hlen
    grind [UdpMessage.encode_ok, UdpMessage.decode_encode, data_ne_fragment]
  · have hfr := fragments_of_two_le h h2
    obtain ⟨k, hk, hi⟩ := Covers.exists_first hne hcv
    obtain ⟨hc, hn⟩ := (hi k hk).mpr rfl
    refine ⟨k, hk, hc, hn, fun j hj => ?_⟩
    rw [feedAll_reset hfr hid hcount hd hsb hj]
    simp only [hi j hj]

/-- Five bytes to `a:1`. -/
def sample : UdpMessage :=
  { sessionId := 7, packetId := 3, fragmentId := 0, fragmentCount := 1
    address := "a:1", data := [1, 2, 3, 4, 5] }

/-- Its fragment with the given number. -/
def sampleFragment (fragmentId : UInt8) (data : List UInt8) : UdpMessage :=
  { sample with fragmentId, fragmentCount := 3, data }

theorem fragmentUdpMessage_sample : fragmentUdpMessage sample 14 =
    .ok [sampleFragment 0 [1, 2], sampleFragment 1 [3, 4], sampleFragment 2 [5]] := rfl

theorem fragmentUdpMessage_lossless_sample : ∃ k < 5, ∀ j < 5,
    (Defragger.feedAll {} [sampleFragment 2 [5], sampleFragment 0 [1, 2], sampleFragment 2 [5],
      sampleFragment 1 [3, 4], sampleFragment 0 [1, 2]])[j]? = some (if j = k then some sample else none) := by
  obtain ⟨k, hk, -, -, ho⟩ := (fragmentUdpMessage_lossless rfl rfl (by decide) (by decide) (by decide)
    fragmentUdpMessage_sample (by decide)).2 (by decide) {} (by decide)
    [sampleFragment 2 [5], sampleFragment 0 [1, 2], sampleFragment 2 [5], sampleFragment 1 [3, 4],
      sampleFragment 0 [1, 2]] (by decide) (by decide)
  exact ⟨k, hk, ho⟩

end Hysteria.Proof
