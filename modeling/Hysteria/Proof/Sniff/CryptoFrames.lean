import Hysteria.Proof.Sniff.Quic
import Hysteria.Spec.CryptoFrames

/-!
# The handshake is put together exactly

`framesLoop` reads the frames of the specification (`framesLoop_eq`) and nothing else
(`payload_of_framesLoop`). Its map is the listing of what was last written
(`listing_store`), and `joinFrames` takes the listings that tile a string
(`joinFrames_iff`).
-/

namespace Hysteria.Proof

open Framework Impl Impl.Sniff Spec List

variable {bs rest : List UInt8}

variable {qfs : List QuicFrame}
variable {val n : Nat} {writes : List (Nat × List UInt8)} {res : List (UInt64 × List UInt8)}

/-! ## Variable-length integers -/

theorem readQuicVarint_append (h : VarintBytes val bs) (rest : List UInt8) :
    readQuicVarint (bs ++ rest) = some (UInt64.ofNat val, bs.length) := by
  obtain ⟨k, hk, hv, rfl⟩ := h
  rw [readQuicVarint_eq, decodeVarint_beBytes hk hv]
  simp [Except.toOption]

theorem value_lt (h : VarintBytes val bs) : val < 2 ^ 62 := by
  obtain ⟨k, hk, hv, -⟩ := h
  obtain rfl | rfl | rfl | rfl : k = 0 ∨ k = 1 ∨ k = 2 ∨ k = 3 := by omega
  all_goals
    omega

theorem varintBytes_of_read {val : UInt64} (h : readQuicVarint bs = some (val, n)) :
    ∃ taken rest, bs = taken ++ rest ∧ taken.length = n ∧ VarintBytes val.toNat taken := by
  obtain ⟨rest, hd, rfl⟩ := decodeVarint_of_read h
  obtain ⟨taken, ht, rfl⟩ := (reads_decodeVarint bs val rest).mp hd
  exact ⟨taken, rest, rfl, by simp, beBytes_of_varintText ht⟩

theorem length_pos_of_varintBytes (h : VarintBytes val bs) : 0 < bs.length := by
  obtain ⟨k, -, -, rfl⟩ := h
  simp

/-! ## The map of the frames -/

variable {frs : List (UInt64 × List UInt8)} {off : UInt64} {data : List UInt8}

theorem mem_insertFrame (hs : frs.Pairwise (·.1 < ·.1)) {fr : UInt64 × List UInt8} :
    fr ∈ insertFrame off data frs ↔ fr = (off, data) ∨ fr ∈ frs ∧ fr.1 ≠ off := by
  induction frs with
  | nil => simp [insertFrame]
  | cons head frs ih =>
    obtain ⟨other, next⟩ := head
    obtain ⟨hh, hf⟩ := pairwise_cons.mp hs
    have hne : ∀ later ∈ frs, off ≤ other → later.1 ≠ off := by
      grind
    rw [insertFrame]
    split
    · rename_i hlt
      rw [mem_cons]
      refine or_congr_right ⟨fun hm => ⟨hm, ?_⟩, And.left⟩
      grind
    split
    · rename_i heq
      rw [mem_cons, mem_cons]
      refine or_congr_right ⟨fun hm => ⟨.inr hm, hne fr hm (UInt64.le_of_eq heq)⟩, ?_⟩
      grind
    · rename_i hge hn
      rw [mem_cons, mem_cons, ih hf]
      constructor
      · rintro (rfl | rfl | ⟨hm, hk⟩)
        · exact .inr ⟨.inl rfl, Ne.symm hn⟩
        · exact .inl rfl
        · exact .inr ⟨.inr hm, hk⟩
      grind

theorem pairwise_insertFrame (hs : frs.Pairwise (·.1 < ·.1)) : (insertFrame off data frs).Pairwise (·.1 < ·.1) := by
  induction frs with
  | nil => exact pairwise_singleton _ _
  | cons head frs ih =>
    obtain ⟨hh, hf⟩ := pairwise_cons.mp hs
    rw [insertFrame]
    split
    · grind
    split
    · rename_i heq
      rw [heq]
      exact .cons hh hf
    refine .cons (fun fr hfr => ?_) (ih hf)
    grind [mem_insertFrame]

/-- The offsets as numbers. -/
def natFrames (frames : List (UInt64 × List UInt8)) : List (Nat × List UInt8) :=
  frames.map fun frame => (frame.1.toNat, frame.2)

theorem mem_natFrames {k : Nat} {data : List UInt8} :
    (k, data) ∈ natFrames frs ↔ ∃ off, off.toNat = k ∧ (off, data) ∈ frs := by
  rw [natFrames, mem_map]
  constructor
  · grind
  grind

theorem pairwise_natFrames : (natFrames frs).Pairwise (·.1 < ·.1) ↔ frs.Pairwise (·.1 < ·.1) := by
  rw [natFrames, pairwise_map]
  exact Iff.rfl

theorem listing_insertFrame (off : UInt64) (data : List UInt8) (h : Listing (natFrames frs) (lastWritten writes)) :
    Listing (natFrames (insertFrame off data frs)) (lastWritten (writes ++ [(off.toNat, data)])) := by
  have hs := pairwise_natFrames.mp h.sorted
  refine ⟨pairwise_natFrames.mpr (pairwise_insertFrame hs), fun k stored => ?_⟩
  have hm := h.mem_iff k stored
  rw [mem_natFrames] at hm
  simp only [mem_natFrames, mem_insertFrame hs, lastWritten_concat]
  split
  · rename_i hk
    constructor
    · rintro ⟨other, ho, heq | ⟨-, hne⟩⟩
      · rw [(Prod.mk.inj heq).2]
      · exact absurd (UInt64.toNat_inj.mp (ho.trans hk.symm)) hne
    grind
  · rename_i hk
    constructor
    · grind
    grind

/-! ## The loop over the frames -/

/-- The map after a frame. -/
def store (frames : List (UInt64 × List UInt8)) : QuicFrame → List (UInt64 × List UInt8)
  | .padding | .ping => frames
  | .crypto offset data => insertFrame (UInt64.ofNat offset) data frames

/-- The frame is one that the loop takes. -/
def Fits : QuicFrame → Prop
  | .padding | .ping => True
  | .crypto _ data => data.length ≤ maxCrypto

theorem advance_append (first rest : List UInt8) : advance (first ++ rest) first.length = .ok rest := by
  have hsl : slice (first ++ rest) first.length (first ++ rest).length = some rest := by
    rw [length_append]
    exact (slice_append first rest 0 rest.length).trans (slice_zero_eq_some_iff.mpr ⟨[], by simp, rfl⟩)
  rw [advance, hsl]
  rfl

variable {fr : QuicFrame} {rounds : Nat}

theorem ne_nil_of_frameBytes (h : FrameBytes fr bs) : bs ≠ [] := by
  cases h with
  | padding hk | ping hk => exact ne_nil_of_length_pos (length_pos_of_varintBytes hk)
  | crypto hk _ _ =>
    have hp := length_pos_of_varintBytes hk
    exact ne_nil_of_length_pos (by rw [length_append]; omega)

theorem framesLoop_frame (h : FrameBytes fr bs) (rest : List UInt8) (hf : Fits fr) :
    framesLoop (rounds + 1) (bs ++ rest) frs = framesLoop rounds rest (store frs fr) := by
  have hne : bs ++ rest ≠ [] := append_ne_nil_of_left_ne_nil (ne_nil_of_frameBytes h) rest
  rw [framesLoop, if_neg hne]
  cases h with
  | padding hk | ping hk =>
    rw [readQuicVarint_append hk]
    simp only [orNone, bind, Except.bind, advance_append]
    rfl
  | @crypto off data kind offsetBytes lengthBytes hk ho hl =>
    have hlt : data.length < UInt64.size := Nat.lt_of_lt_of_le (value_lt hl) (by decide)
    have hsl : slice (data ++ rest) 0 data.length = some data := slice_zero_eq_some_iff.mpr ⟨rest, rfl, rfl⟩
    have hb : ¬ (data.length > 256 * 1024 ∨ data.length > (data ++ rest).length) := by
      rw [length_append]
      have hd : data.length ≤ 256 * 1024 := hf
      omega
    simp only [append_assoc, readQuicVarint_append hk, readQuicVarint_append ho,
      readQuicVarint_append hl, orNone, bind, Except.bind, advance_append, UInt64.toNat_ofNat_of_lt' hlt,
      if_neg hb, hsl, orPanic]
    rfl

/-- Every payload of the specification is read. -/
theorem framesLoop_eq (h : PayloadBytes qfs bs) (hr : bs.length < rounds) (hf : ∀ fr ∈ qfs, Fits fr) :
    framesLoop rounds bs frs = .ok (qfs.foldl store frs) := by
  induction h generalizing rounds frs with
  | nil =>
    rcases rounds with _ | rounds
    · omega
    · rfl
  | @cons fr qfs bs rest hfr _ ih =>
    have hp := length_pos_iff.mpr (ne_nil_of_frameBytes hfr)
    rcases rounds with _ | rounds
    · omega
    grind [framesLoop_frame]

theorem varint_of_orNone {val : UInt64} (h : orNone (readQuicVarint bs) = .ok (val, n)) :
    ∃ taken rest, bs = taken ++ rest ∧ VarintBytes val.toNat taken ∧ advance bs n = .ok rest := by
  rcases hr : readQuicVarint bs with _ | read
  · rw [hr] at h
    cases h
  rw [hr] at h
  cases h
  grind [varintBytes_of_read, advance_append]

theorem frame_of_framesLoop (h : framesLoop (rounds + 1) bs frs = .ok res) : bs = [] ∧ res = frs ∨
      ∃ fr taken rest, bs = taken ++ rest ∧ FrameBytes fr taken ∧ Fits fr ∧
        framesLoop rounds rest (store frs fr) = .ok res := by
  rw [framesLoop] at h
  split at h
  · grind
  right
  obtain ⟨⟨kind, kindLength⟩, hr, h⟩ := bind_eq_ok h
  obtain ⟨kindBytes, afterKind, rfl, hk, ha⟩ := varint_of_orNone hr
  simp only [ha, bind, Except.bind] at h
  split at h
  · rename_i hs
    rcases hs with rfl | rfl
    · exact ⟨.padding, kindBytes, afterKind, rfl, .padding hk, trivial, h⟩
    · exact ⟨.ping, kindBytes, afterKind, rfl, .ping hk, trivial, h⟩
  split at h
  · cases h
  rename_i hsx
  rw [not_not] at hsx
  subst hsx
  split at h
  · cases h
  rename_i off hr
  obtain ⟨offsetBytes, afterOffset, rfl, ho, ha⟩ := varint_of_orNone hr
  simp only [ha] at h
  split at h
  · cases h
  rename_i len hr
  obtain ⟨lengthBytes, afterLength, rfl, hl, ha⟩ := varint_of_orNone hr
  simp only [ha] at h
  split at h
  · cases h
  have hle : len.1.toNat ≤ afterLength.length := by omega
  obtain ⟨data, rest, rfl, hd⟩ : ∃ data rest, afterLength = data ++ rest ∧ data.length = len.1.toNat :=
    ⟨_, _, (take_append_drop len.1.toNat afterLength).symm, length_take_of_le hle⟩
  have hsl : slice (data ++ rest) 0 data.length = some data := slice_zero_eq_some_iff.mpr ⟨rest, rfl, rfl⟩
  rw [← hd] at hl h
  simp only [hsl, orPanic, advance_append] at h
  refine ⟨.crypto off.1.toNat data, _, rest, ?_, .crypto hk ho hl, ?_, ?_⟩
  · simp only [append_assoc]
  · show data.length ≤ 256 * 1024
    omega
  · rw [store, UInt64.ofNat_toNat]
    exact h

theorem payload_of_framesLoop (h : framesLoop rounds bs frs = .ok res) :
    ∃ qfs, PayloadBytes qfs bs ∧ (∀ fr ∈ qfs, Fits fr) ∧
      res = qfs.foldl store frs := by
  induction rounds generalizing bs frs with
  | zero => cases h
  | succ rounds ih =>
    rcases frame_of_framesLoop h with ⟨rfl, rfl⟩ | ⟨fr, taken, rest, rfl, hfr, hf, h⟩
    · exact ⟨[], .nil, nofun, rfl⟩
    · obtain ⟨qfs, hp, hr, rfl⟩ := ih h
      exact ⟨fr :: qfs, .cons hfr hp, forall_mem_cons.mpr ⟨hf, hr⟩, rfl⟩

/-- The map after the frames lists what they wrote last. -/
theorem listing_store (h : PayloadBytes qfs bs) (hf : Listing (natFrames frs) (lastWritten writes)) :
    Listing (natFrames (qfs.foldl store frs)) (lastWritten (writes ++ writesOf qfs)) := by
  induction h generalizing frs writes with
  | nil =>
    rw [writesOf, filterMap_nil, append_nil]
    exact hf
  | cons hfr _ ih =>
    cases hfr with
    | padding _ | ping _ => exact ih hf
    | @crypto off data _ _ _ _ ho _ =>
      have hn := listing_insertFrame (UInt64.ofNat off) data hf
      rw [UInt64.toNat_ofNat_of_lt' (Nat.lt_of_lt_of_le (value_lt ho) (by decide))] at hn
      have hl := ih hn
      rw [append_assoc] at hl
      exact hl

theorem fits_iff : (∀ fr ∈ qfs, Fits fr) ↔ ∀ write ∈ writesOf qfs, write.2.length ≤ maxCrypto := by
  constructor
  · intro h write hw
    obtain ⟨fr, hfr, hw⟩ := mem_filterMap.mp hw
    cases fr with
    | padding | ping => cases hw
    | crypto off data =>
      cases hw
      exact h _ hfr
  · intro h fr hfr
    cases fr with
    | padding | ping => trivial
    | crypto off data => exact h (off, data) (mem_filterMap.mpr ⟨_, hfr, rfl⟩)

/-! ## Joining -/

theorem joinFrames_iff {res s : List UInt8} (hrs : res.length ≤ maxCrypto) : joinFrames frs res = .ok s ↔
      s ≠ [] ∧ s.length ≤ maxCrypto ∧ ∃ rest, s = res ++ rest ∧ Tiles res.length (natFrames frs) rest := by
  induction frs generalizing res with
  | nil =>
    rw [joinFrames]
    constructor
    · intro h
      split at h <;> [cases h; skip]
      rename_i hne
      cases h
      exact ⟨hne, hrs, [], (append_nil _).symm, rfl⟩
    · rintro ⟨hne, -, rest, rfl, hr⟩
      rw [show rest = [] from hr, append_nil] at hne ⊢
      rw [if_neg hne]
  | cons fr frs ih =>
    obtain ⟨off, data⟩ := fr
    have ht : ∀ rest, Tiles res.length (natFrames ((off, data) :: frs)) rest ↔
        off.toNat = res.length ∧ ∃ more, rest = data ++ more ∧
          Tiles (res.length + data.length) (natFrames frs) more := fun _ => Iff.rfl
    simp only [joinFrames, ht]
    constructor
    · intro h
      split at h <;> [cases h; skip]
      have hb : (res ++ data).length ≤ maxCrypto := by
        rw [length_append]
        show res.length + data.length ≤ 256 * 1024
        omega
      grind
    · rintro ⟨hne, hl, _, rfl, ho, rest, rfl, ht⟩
      have hb : res.length + data.length ≤ maxCrypto := by
        grind
      rw [if_neg fun h => h.elim (fun hne => hne ho) fun hlr => absurd hb (Nat.not_le.mpr hlr)]
      grind

/-! ## The handshake -/

variable {s : List UInt8}

theorem extractCryptoFrames_iff (pay : List UInt8) :
    extractCryptoFrames pay = .ok s ↔ ∃ qfs, PayloadBytes qfs pay ∧ Reassembles qfs s := by
  have hn : Listing (natFrames []) (lastWritten ([] : List (Nat × List UInt8))) := ⟨.nil, fun _ _ => ⟨nofun, nofun⟩⟩
  have he : ([] : List UInt8).length ≤ maxCrypto := Nat.zero_le _
  constructor
  · intro h
    obtain ⟨frs, hl, hj⟩ := bind_eq_ok h
    obtain ⟨qfs, hp, hf, rfl⟩ := payload_of_framesLoop hl
    obtain ⟨hne, hln, rest, rfl, ht⟩ := (joinFrames_iff he).mp hj
    exact ⟨qfs, hp, hne, hln, fits_iff.mp hf, _, listing_store hp hn, ht⟩
  · rintro ⟨qfs, hp, hne, hln, hd, pieces, hls, ht⟩
    have hl : framesLoop (pay.length + 1) pay [] = .ok (qfs.foldl store []) :=
      framesLoop_eq hp (by omega) (fits_iff.mpr hd)
    rw [extractCryptoFrames, hl]
    rw [hls.unique (listing_store hp hn)] at ht
    exact (joinFrames_iff he).mpr ⟨hne, hln, s, rfl, ht⟩

theorem extractCryptoFrames_absent {pay : List UInt8} (h : ∀ s, extractCryptoFrames pay ≠ .ok s) :
    extractCryptoFrames pay = .error .absent := by
  cases he : extractCryptoFrames pay with
  | ok s => exact absurd he (h s)
  | error stop => rw [(extractCryptoFrames_returns pay).of_error stop he]

theorem reassembles_of_carries {cs : List (List UInt8)} (hcs : ∀ chunk ∈ cs, chunk ≠ [])
    (hp : cs.flatten ≠ []) (hl : cs.flatten.length ≤ maxCrypto) (h : CarriesChunks qfs cs) :
    Reassembles qfs cs.flatten where
  nonempty := hp
  length_le := hl
  data_le write hwrite := by
    have hch := sublist_flatten_of_mem (mem_of_mem_cuts (h.only write hwrite))
    exact Nat.le_trans hch.length_le hl
  tiles := ⟨cuts 0 cs, listing_of_writes (pairwise_cuts 0 hcs) fun write => ⟨h.only write, h.all write⟩,
    tiles_cuts 0 cs⟩

/-- A handshake that is cut into chunks is put together again from frames that carry them, and
nothing is taken for a handshake but what the frames wrote last, piece by piece. -/
theorem extractCryptoFrames_exact :
    (∀ (chunks : List (List UInt8)) quicFrames payload, (∀ chunk ∈ chunks, chunk ≠ []) →
      1 ≤ chunks.flatten.length → chunks.flatten.length ≤ maxCrypto → CarriesChunks quicFrames chunks →
      PayloadBytes quicFrames payload → extractCryptoFrames payload = .ok chunks.flatten) ∧
    (∀ payload s, extractCryptoFrames payload = .ok s ↔
      ∃ quicFrames, PayloadBytes quicFrames payload ∧ Reassembles quicFrames s) ∧
    (∀ payload, (¬ ∃ quicFrames s, PayloadBytes quicFrames payload ∧ Reassembles quicFrames s) →
      extractCryptoFrames payload = .error .absent) := by
  refine ⟨?_, fun payload s => extractCryptoFrames_iff payload, ?_⟩
  · intro chunks quicFrames payload hcs hp hl hc hpy
    grind [extractCryptoFrames_iff, reassembles_of_carries]
  grind [extractCryptoFrames_absent, extractCryptoFrames_iff]

/-- The second chunk, twice, and the first one after padding. -/
def exampleFrames : List QuicFrame := [.crypto 2 [3], .padding, .crypto 0 [1, 2], .ping, .crypto 2 [3]]

def exampleWire : List UInt8 := [6, 2, 1, 3] ++ ([0x40, 0] ++ ([6, 0, 2, 1, 2] ++ ([1] ++ ([6, 0x40, 2, 1, 3] ++ []))))

theorem payloadBytes_example : PayloadBytes exampleFrames exampleWire := by
  have hk : VarintBytes 6 [6] := ⟨0, by decide, by decide, rfl⟩
  have ho : VarintBytes 1 [1] := ⟨0, by decide, by decide, rfl⟩
  have ht : VarintBytes 2 [2] ∧ VarintBytes 2 [0x40, 2] :=
    ⟨⟨0, by decide, by decide, rfl⟩, ⟨1, by decide, by decide, rfl⟩⟩
  have hz : VarintBytes 0 [0] ∧ VarintBytes 0 [0x40, 0] :=
    ⟨⟨0, by decide, by decide, rfl⟩, ⟨1, by decide, by decide, rfl⟩⟩
  have hs : FrameBytes (.crypto 2 [3]) [6, 2, 1, 3] := @FrameBytes.crypto 2 [3] [6] [2] [1] hk ht.1 ho
  have hf := @FrameBytes.crypto 0 [1, 2] [6] [0] [2] hk hz.1 ht.1
  have hr := @FrameBytes.crypto 2 [3] [6] [0x40, 2] [1] hk ht.2 ho
  exact .cons hs (.cons (.padding hz.2) (.cons hf (.cons (.ping ho) (.cons hr .nil))))

theorem extractCryptoFrames_exact_example : extractCryptoFrames exampleWire = .ok [1, 2, 3] ∧
      (∃ quicFrames, PayloadBytes quicFrames exampleWire ∧ Reassembles quicFrames [1, 2, 3]) ∧
      extractCryptoFrames [2] = .error .absent := by
  have hw : writesOf exampleFrames = [(2, [3]), (0, [1, 2]), (2, [3])] := rfl
  have hc : cuts 0 [[(1 : UInt8), 2], [3]] = [(0, [1, 2]), (2, [3])] := rfl
  have hcr : CarriesChunks exampleFrames [[1, 2], [3]] := ⟨by rw [hw, hc]; simp, by rw [hw, hc]; simp⟩
  have he := extractCryptoFrames_exact.1 [[1, 2], [3]] exampleFrames exampleWire (by simp) (by decide) (by decide)
    hcr payloadBytes_example
  refine ⟨he, (extractCryptoFrames_exact.2.1 exampleWire [1, 2, 3]).mp he, extractCryptoFrames_exact.2.2 [2] ?_⟩
  rintro ⟨quicFrames, s, hp, hs⟩
  have ho : extractCryptoFrames [2] = .ok s := (extractCryptoFrames_iff [2]).mpr ⟨quicFrames, hp, hs⟩
  cases ho

end Hysteria.Proof
