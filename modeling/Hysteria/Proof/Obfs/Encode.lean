import Hysteria.Framework.Fallible
import Hysteria.Proof.Obfs.Receive

/-!
# What goes out for a packet

A packet without the long header is one datagram that carries it
(`encodePacket_short`), any other one is cut into pieces, with one frame for
each of them (`encodePacket_long`). Both need nothing but random bytes
(`encodePacket_failsOnly`). `encodePacket_shape` has what an observer sees of it.
-/

namespace Hysteria.Proof

open Framework Impl Spec
open List hiding Vector

variable {random : RandomSource} {blake2b : List UInt8 → Vector UInt8 keyLength} {gecko : Gecko}
  {packet datagram : List UInt8} {datagrams : List (List UInt8)} {counter counter' : UInt32} {frame : GeckoFrame}

variable {messageId total first : UInt8}
variable {calls calls' chunkLen n index : Nat} {rest : List UInt8}

/-! ## Draws -/

theorem toNat_randomBelow {bound value : UInt32} (hb : 0 < bound.toNat)
    (h : randomBelow random bound calls = .ok (value, calls')) : value.toNat < bound.toNat := by
  unfold randomBelow at h
  split at h
  · cases pure_ok h
    exact hb
  obtain ⟨bytes, calls₁, -, h⟩ := bind_ok h
  cases pure_ok h
  exact Nat.mod_lt _ hb

theorem obfuscate_ok {cleartext : List UInt8}
    (h : gecko.obfuscate random blake2b cleartext calls = .ok (datagram, calls')) :
    ∃ salt, datagram = gecko.salamander.obfuscate blake2b cleartext salt := by
  obtain ⟨salt, calls₁, -, h⟩ := bind_ok h
  exact ⟨salt, pure_ok h⟩

/-- The lengths that a datagram with a chunk of this length can have. -/
def WireLength (options : GeckoOptions) (chunk length : Nat) : Prop :=
  if chunk + 13 ≤ options.maxPacketSize then
    max options.minPacketSize (chunk + 13) ≤ length ∧ length ≤ options.maxPacketSize
  else length = chunk + 13

theorem wireLength_randomPaddingLen (h : gecko.randomPaddingLen random chunkLen calls = .ok (n, calls')) :
    WireLength gecko.options chunkLen (chunkLen + 13 + n) := by
  have ho := gecko.ordered
  have hb : saltLength + headerLength + chunkLen = chunkLen + 13 := Nat.add_comm 13 chunkLen
  unfold Gecko.randomPaddingLen at h
  rw [hb] at h
  unfold WireLength
  split at h
  · rename_i hl
    cases pure_ok h
    rw [if_neg (by omega)]
  cases hc : u32TryFrom (gecko.options.maxPacketSize - max gecko.options.minPacketSize (chunkLen + 13) + 1) with
  | none =>
    rw [hc] at h
    cases h
  | some choices =>
  rw [hc] at h
  obtain ⟨more, calls₁, hm, h⟩ := bind_ok h
  cases pure_ok h
  unfold u32TryFrom at hc
  split at hc <;> cases hc
  rename_i hlt
  have hmd := toNat_randomBelow (by rw [UInt32.toNat_ofNat', Nat.mod_eq_of_lt hlt]; omega) hm
  grind [UInt32.toNat_ofNat']

/-- The padding of a frame has a length of two bytes. -/
theorem randomPaddingLen_lt (h : gecko.randomPaddingLen random chunkLen calls = .ok (n, calls')) : n < 2 ^ 16 := by
  have hf : gecko.options.maxPacketSize ≤ 2048 := gecko.fits
  have hl := wireLength_randomPaddingLen h
  unfold WireLength at hl
  split at hl <;> omega

/-! ## The frames of a packet -/

/-- A frame for one piece of a packet. -/
structure FrameOf (packet : List UInt8) (messageId total : UInt8) (index : Nat) (frame : GeckoFrame) : Prop where
  messageId_eq : frame.messageId = messageId
  index_eq : frame.chunkIndex.toNat = index
  total_eq : frame.totalChunks = total
  payload_eq : frame.payload = piece total.toNat packet index

theorem length_frame {bytes : List UInt8} (h : frame.encode = .ok bytes) :
    bytes.length = headerLength + frame.padding.length + frame.payload.length := by
  obtain ⟨_, -, h⟩ := bind_eq_ok h
  split at h <;> cases h
  simp only [length_append, length_beBytes, length_cons, length_nil, headerLength]

theorem encodeChunk_ok (ht : 2 ≤ total.toNat) (htot' : total.toNat ≤ 8) (hi : index < total.toNat)
    (h : gecko.encodeChunk random blake2b packet messageId total index calls = .ok (datagram, calls')) :
    ∃ frame, FrameOf packet messageId total index frame ∧ ReadsFrame blake2b gecko datagram frame ∧
      WireLength gecko.options frame.payload.length datagram.length := by
  have hn : (UInt8.ofNat index).toNat = index := by
    rw [UInt8.toNat_ofNat']
    omega
  obtain ⟨paddingLen, calls₁, hln, h⟩ := bind_ok h
  obtain ⟨padding, calls₂, -, h⟩ := bind_ok h
  have hp : padding.toList.length < 2 ^ 16 := by
    rw [Vector.length_toList]
    exact randomPaddingLen_lt hln
  obtain ⟨cleartext, calls₃, hen, h⟩ := bind_ok h
  obtain ⟨salt, rfl⟩ := obfuscate_ok h
  set frame : GeckoFrame := ⟨messageId, UInt8.ofNat index, total, padding.toList, _⟩ with hfr
  have hv : ValidFrame frame := ⟨ht, htot', hn.symm ▸ hi⟩
  obtain ⟨rest, he, hd⟩ := GeckoFrame.decode_encode hv hp
  have hc : cleartext = fragmentFlag :: rest := by
    rw [he] at hen
    cases hen
    rfl
  subst hc
  have hl : (gecko.salamander.obfuscate blake2b (fragmentFlag :: rest) salt).length =
      frame.payload.length + 13 + paddingLen := by
    rw [length_obfuscate, length_frame he, hfr, Vector.length_toList]
    simp only [saltLength, headerLength]
    omega
  refine ⟨frame, ⟨rfl, hn, rfl, rfl⟩, ⟨fragmentFlag, rest, deobfuscate_obfuscate (cons_ne_nil _ _) salt,
    by decide, hd⟩, ?_⟩
  rw [hl]
  exact wireLength_randomPaddingLen hln

/-! ## Packets -/

/-- The datagrams of a message, by the index of the chunk. -/
structure Datagrams (blake2b : List UInt8 → Vector UInt8 keyLength) (gecko : Gecko) (messageId : UInt8)
    (packet : List UInt8) (total : UInt8) (datagrams : List (List UInt8)) : Prop where
  length : datagrams.length = total.toNat
  frame : ∀ index datagram, datagrams[index]? = some datagram →
    ∃ frame, FrameOf packet messageId total index frame ∧ ReadsFrame blake2b gecko datagram frame

theorem datagrams_of_forall₂
    (h : List.Forall₂ (fun index datagram => ∃ frame, FrameOf packet messageId total index frame ∧
      ReadsFrame blake2b gecko datagram frame) (List.range total.toNat) datagrams) :
    Datagrams blake2b gecko messageId packet total datagrams := by
  obtain ⟨hl, hg⟩ := List.forall₂_iff_get.mp h
  refine ⟨by rw [← hl, List.length_range], fun index datagram hd => ?_⟩
  obtain ⟨hi, rfl⟩ := List.getElem?_eq_some_iff.mp hd
  have hfr := hg index (hl ▸ hi) hi
  rwa [List.get_eq_getElem, List.getElem_range] at hfr

theorem Datagrams.congr {sender receiver : Gecko} (h : Datagrams blake2b sender messageId packet total datagrams)
    (heq : sender.salamander = receiver.salamander) : Datagrams blake2b receiver messageId packet total datagrams where
  length := h.length
  frame index datagram hdat := by
    obtain ⟨frame, hfr, hr⟩ := h.frame index datagram hdat
    exact ⟨frame, hfr, hr.congr heq⟩

/-- A packet without the long header is one datagram. -/
theorem encodePacket_short (hf : first &&& fragmentFlag = 0)
    (h : gecko.encodePacket random blake2b (first :: rest) counter = (.ok datagrams, counter')) :
    counter' = counter ∧ ∃ datagram, datagrams = [datagram] ∧ Carries blake2b gecko datagram (first :: rest) := by
  unfold Gecko.encodePacket at h
  simp only [if_pos hf, Prod.mk.injEq] at h
  obtain ⟨hr, rfl⟩ := h
  rcases ho : gecko.obfuscate random blake2b (first :: rest) 0 with error | r
  · rw [ho] at hr
    cases hr
  rw [ho] at hr
  cases hr
  obtain ⟨salt, hs⟩ := obfuscate_ok ho
  exact ⟨rfl, r.1, rfl, first, rest, rfl, hf, hs ▸ deobfuscate_obfuscate (cons_ne_nil _ _) salt⟩

/-- The message ID that the next packet gets. -/
def messageIdAt (counter : UInt32) : UInt8 := UInt8.ofNat (counter + 1).toNat

/-- A packet with the long header, once it has drawn its number of chunks. -/
theorem encodePacket_eq_of_long (hf : first &&& fragmentFlag ≠ 0) (random : RandomSource)
    (blake2b : List UInt8 → Vector UInt8 keyLength) (gecko : Gecko) (rest : List UInt8) (counter : UInt32) :
    (∃ error, randomBelow random 7 0 = .error error ∧
      gecko.encodePacket random blake2b (first :: rest) counter = (.error error, counter)) ∨
      (∃ drawn, randomBelow random 7 0 = .ok drawn) ∧ ∃ total : UInt8, 2 ≤ total.toNat ∧ total.toNat ≤ 8 ∧ ∃ calls,
        gecko.encodePacket random blake2b (first :: rest) counter = (((range total.toNat).mapM
            (gecko.encodeChunk random blake2b (first :: rest) (messageIdAt counter) total) calls).map (·.1),
            counter + 1) := by
  unfold Gecko.encodePacket
  simp only [if_neg hf]
  rw [show (maxFragmentCount - minFragmentCount + 1).toUInt32 = 7 from rfl]
  rcases ho : randomBelow random 7 0 with error | r
  · exact .inl ⟨error, rfl, rfl⟩
  have hlt : r.1.toNat < 7 := toNat_randomBelow (by decide) ho
  have ht : (minFragmentCount + UInt8.ofNat r.1.toNat).toNat = 2 + r.1.toNat := by
    rw [UInt8.toNat_add, UInt8.toNat_ofNat', show minFragmentCount.toNat = 2 from rfl]
    omega
  refine .inr ⟨⟨r, rfl⟩, minFragmentCount + UInt8.ofNat r.1.toNat, by omega, by omega, r.2, ?_⟩
  simp only [u8TryFrom, if_pos (show r.1.toNat < 2 ^ 8 by omega)]
  rfl

/-- A packet with the long header is cut into pieces, with a datagram for each. -/
theorem encodePacket_forall₂ (hf : first &&& fragmentFlag ≠ 0)
    (h : gecko.encodePacket random blake2b (first :: rest) counter = (.ok datagrams, counter')) :
    counter' = counter + 1 ∧ ∃ total : UInt8, 2 ≤ total.toNat ∧ total.toNat ≤ 8 ∧
      List.Forall₂ (fun index datagram => ∃ frame, FrameOf (first :: rest) (messageIdAt counter) total index frame ∧
        ReadsFrame blake2b gecko datagram frame ∧ WireLength gecko.options frame.payload.length datagram.length)
        (range total.toNat) datagrams := by
  rcases encodePacket_eq_of_long hf random blake2b gecko rest counter with
    ⟨error, -, heq⟩ | ⟨-, total, hge, hle, calls, heq⟩
  · cases heq.symm.trans h
  have hr := heq.symm.trans h
  simp only [Prod.mk.injEq] at hr
  obtain ⟨hd, rfl⟩ := hr
  refine ⟨rfl, total, hge, hle, ?_⟩
  cases hm : (range total.toNat).mapM
    (gecko.encodeChunk random blake2b (first :: rest) (messageIdAt counter) total) calls with
  | error error =>
    rw [hm] at hd
    cases hd
  | ok r =>
    rw [hm] at hd
    cases hd
    have ha := (forall₂_and_left _ _).mpr ⟨fun i hi => mem_range.mp hi, mapM_forall₂ hm⟩
    refine ha.imp ?_
    grind [encodeChunk_ok]

theorem encodePacket_long (hf : first &&& fragmentFlag ≠ 0)
    (h : gecko.encodePacket random blake2b (first :: rest) counter = (.ok datagrams, counter')) :
    counter' = counter + 1 ∧ ∃ total : UInt8, 2 ≤ total.toNat ∧ total.toNat ≤ 8 ∧
      Datagrams blake2b gecko (messageIdAt counter) (first :: rest) total datagrams := by
  obtain ⟨hc, total, hge, hle, ha⟩ := encodePacket_forall₂ hf h
  refine ⟨hc, total, hge, hle, datagrams_of_forall₂ (ha.imp ?_)⟩
  grind

/-! ## Only the random source fails -/

/-- The error of a random source that has failed. -/
def SourceError (random : RandomSource) (error : GeckoError) : Prop :=
  error = .randomSource ∧ ∃ calls n, random.fill calls n = none

theorem fillRandom_failsOnly (n : Nat) : FailsOnly (SourceError random) (fillRandom random n) := by
  intro calls error h
  unfold fillRandom at h
  split at h <;> cases h
  exact ⟨rfl, calls, n, ‹_›⟩

theorem randomBelow_failsOnly (bound : UInt32) : FailsOnly (SourceError random) (randomBelow random bound) := by
  unfold randomBelow
  split
  · exact .pure 0
  · exact (fillRandom_failsOnly 4).bind fun bytes _ _ _ => .pure _

theorem randomPaddingLen_failsOnly (chunkLen : Nat) :
    FailsOnly (SourceError random) (gecko.randomPaddingLen random chunkLen) := by
  have hf : gecko.options.maxPacketSize ≤ 2048 := gecko.fits
  unfold Gecko.randomPaddingLen
  simp only
  split
  · exact .pure 0
  · rw [u32TryFrom, if_pos (by omega)]
    exact (randomBelow_failsOnly _).bind fun more _ _ _ => .pure _

theorem obfuscate_failsOnly (blake2b : List UInt8 → Vector UInt8 keyLength) (gecko : Gecko) (cleartext : List UInt8) :
    FailsOnly (SourceError random) (gecko.obfuscate random blake2b cleartext) :=
  (fillRandom_failsOnly saltLength).bind fun _ _ _ _ => .pure _

theorem encodeChunk_failsOnly (ht : 2 ≤ total.toNat) (htot' : total.toNat ≤ 8) (hi : index < total.toNat) :
    FailsOnly (SourceError random) (gecko.encodeChunk random blake2b packet messageId total index) := by
  have hn : (UInt8.ofNat index).toNat = index := by
    rw [UInt8.toNat_ofNat']
    omega
  refine (randomPaddingLen_failsOnly _).bind fun paddingLen _ _ hl => ?_
  refine (fillRandom_failsOnly paddingLen).bind fun padding _ _ _ => ?_
  refine FailsOnly.bind ?_ fun cleartext _ _ _ => obfuscate_failsOnly blake2b gecko cleartext
  intro calls error her
  have hp : padding.toList.length < 2 ^ 16 := by
    rw [Vector.length_toList]
    exact randomPaddingLen_lt hl
  have he (payload : List UInt8) : ∃ cleartext,
      (GeckoFrame.mk messageId (UInt8.ofNat index) total padding.toList payload).encode = .ok cleartext := by
    have hv : ValidFrame ⟨messageId, UInt8.ofNat index, total, padding.toList, payload⟩ := ⟨ht, htot', hn.symm ▸ hi⟩
    grind [GeckoFrame.decode_encode]
  obtain ⟨cleartext, hc⟩ := he _
  rw [hc] at her
  cases her

/-- `encode_packet` fails only with the random source. -/
theorem encodePacket_failsOnly {error : GeckoError}
    (h : (gecko.encodePacket random blake2b packet counter).1 = .error error) : SourceError random error := by
  cases packet with
  | nil => cases h
  | cons first rest =>
  by_cases hf : first &&& fragmentFlag = 0
  · unfold Gecko.encodePacket at h
    simp only [if_pos hf] at h
    cases ho : gecko.obfuscate random blake2b (first :: rest) 0 with
    | ok r =>
      rw [ho] at h
      cases h
    | error e =>
      rw [ho] at h
      cases h
      exact obfuscate_failsOnly blake2b gecko _ 0 error ho
  · rcases encodePacket_eq_of_long hf random blake2b gecko rest counter with
      ⟨e, hd, heq⟩ | ⟨-, total, hge, hle, calls, heq⟩
    · rw [heq] at h
      cases h
      exact randomBelow_failsOnly 7 0 error hd
    rw [heq] at h
    have hcs : FailsOnly (SourceError random) ((range total.toNat).mapM
        (gecko.encodeChunk random blake2b (first :: rest) (messageIdAt counter) total)) :=
      .mapM fun index hi => encodeChunk_failsOnly hge hle (mem_range.mp hi)
    cases hm : (range total.toNat).mapM
      (gecko.encodeChunk random blake2b (first :: rest) (messageIdAt counter) total) calls with
    | ok r =>
      rw [hm] at h
      cases h
    | error e =>
      rw [hm] at h
      cases h
      exact hcs calls error hm

/-- The sizes that the codec works with. -/
def withDefaults (options : GeckoOptions) : GeckoOptions :=
  ⟨if options.minPacketSize = 0 then 512 else options.minPacketSize,
    if options.maxPacketSize = 0 then 1200 else options.maxPacketSize⟩

theorem new_options {password : List UInt8} {options : GeckoOptions} (h : Gecko.new password options = .ok gecko) :
    gecko.options = withDefaults options := by
  unfold Gecko.new at h
  split at h
  · cases h
  extract_lets minPacketSize maxPacketSize at h
  split at h
  · cases h
  split at h <;> cases h
  rfl

/-- A packet with the long header: an error of the random source, or two to eight datagrams of
one message, each with its index, its piece of the packet and a length in the range. -/
theorem encodePacket_shape {password : List UInt8} {options : GeckoOptions}
    (hnew : Gecko.new password options = .ok gecko) (hfirst : first &&& fragmentFlag ≠ 0) (random : RandomSource)
    (blake2b : List UInt8 → Vector UInt8 keyLength) (rest : List UInt8) (counter : UInt32) :
    match (gecko.encodePacket random blake2b (first :: rest) counter).1 with
    | .error error => error = .randomSource ∧ ∃ calls n, random.fill calls n = none
    | .ok datagrams => 2 ≤ datagrams.length ∧ datagrams.length ≤ 8 ∧ ∃ messageId total : UInt8,
      total.toNat = datagrams.length ∧ ∀ index datagram, datagrams[index]? = some datagram →
        ∃ frame, FrameOf (first :: rest) messageId total index frame ∧ ReadsFrame blake2b gecko datagram frame ∧
          WireLength (withDefaults options) frame.payload.length datagram.length := by
  rcases hr : (gecko.encodePacket random blake2b (first :: rest) counter).1 with error | datagrams
  · exact encodePacket_failsOnly hr
  obtain ⟨-, total, hge, hle, ha⟩ := encodePacket_forall₂ hfirst (Prod.ext hr rfl)
  obtain ⟨hl, hg⟩ := List.forall₂_iff_get.mp ha
  rw [List.length_range] at hl
  refine ⟨hl ▸ hge, hl ▸ hle, messageIdAt counter, total, hl, fun index datagram h => ?_⟩
  obtain ⟨hi, rfl⟩ := List.getElem?_eq_some_iff.mp h
  have hfr := hg index (by rw [List.length_range, hl]; exact hi) hi
  rw [List.get_eq_getElem, List.getElem_range, new_options hnew] at hfr
  exact hfr

/-- Two chunks of one byte fit a datagram of 14 bytes without padding. -/
def tightOptions : GeckoOptions := ⟨14, 14⟩

def tightGecko : Gecko where
  salamander := ⟨[1, 2, 3, 4], by decide⟩
  options := tightOptions
  ordered := by decide
  fits := by decide

def zeroRandom : RandomSource := ⟨fun _ n => some (Vector.replicate n 0)⟩

def zeroKey : List UInt8 → Vector UInt8 keyLength := fun _ => Vector.replicate keyLength 0

def zeroSalt : List UInt8 := List.replicate saltLength 0

/-- The chunks of `[0x80, 7]`. -/
def tightDatagrams : List (List UInt8) :=
  [zeroSalt ++ [0x80, 1, 0x02, 0, 0, 0x80], zeroSalt ++ [0x80, 1, 0x12, 0, 0, 7]]

theorem encodePacket_shape_tight : ∃ messageId total : UInt8, total.toNat = 2 ∧
    ∀ index datagram, tightDatagrams[index]? = some datagram → ∃ frame,
      FrameOf [0x80, 7] messageId total index frame ∧ ReadsFrame zeroKey tightGecko datagram frame ∧
        WireLength tightOptions frame.payload.length datagram.length := by
  have hs := encodePacket_shape (show Gecko.new [1, 2, 3, 4] tightOptions = .ok tightGecko from rfl)
    (show 0x80 &&& fragmentFlag ≠ 0 by decide) zeroRandom zeroKey [7] 0
  rw [show (tightGecko.encodePacket zeroRandom zeroKey [0x80, 7] 0).1 = .ok tightDatagrams by decide] at hs
  exact hs.2.2

theorem encodePacket_total (hr : ∀ calls n, (random.fill calls n).isSome = true) (packet : List UInt8)
    (counter : UInt32) :
    ∃ datagrams counter', gecko.encodePacket random blake2b packet counter = (.ok datagrams, counter') := by
  cases hrs : (gecko.encodePacket random blake2b packet counter).1 with
  | ok datagrams => exact ⟨datagrams, _, Prod.ext hrs rfl⟩
  | error error =>
    obtain ⟨-, calls, n, hn⟩ := encodePacket_failsOnly hrs
    grind

end Hysteria.Proof
