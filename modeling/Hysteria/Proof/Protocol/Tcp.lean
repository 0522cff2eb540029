import Hysteria.Impl.Protocol.Tcp
import Hysteria.Proof.Protocol.UdpMessage

/-!
# The TCP frames

Both decoders are made of fields with a length in front (`field`), so each is
read off `Decodes` for a varint and for a field. `wire_codec` is the round trip
of all three formats and what becomes of a frame that is cut short;
`accepted_iff` says which frames the decoders take from the encoders.
-/

namespace Hysteria.Proof

open Framework Impl

variable {req : TcpRequest} {resp : TcpResponse} {pad bs : List UInt8}

/-! ## Varints and fields -/

/-- The decoder takes what the encoder emits, and nothing less. -/
theorem decodes_varint {val : UInt64} (h : val ≤ maxVarint) :
    ∃ bs, encodeVarint val = .ok bs ∧ Decodes .unexpectedEnd Decode.varint bs val := by
  obtain ⟨bs, he, -, hd⟩ := encodeVarint_ok h
  refine ⟨bs, he, hd, fun front back heq hb => ?_⟩
  rcases front with _ | ⟨first, front⟩
  · rfl
  have hwh := hd []
  unfold Decode.varint decodeVarint at *
  -- The first byte gives the length of the whole.
  split at hwh
  · cases hwh
  grind

theorem decodes_take (bs : List UInt8) : Decodes .unexpectedEnd (Decode.take bs.length) bs bs where
  whole rest := UdpMessage.take_append rfl rest
  cut front back heq hback := by
    have hp := List.length_pos_iff.mpr hback
    rw [heq, List.length_append, Decode.take, take, takeBytes, if_pos (by omega)]

/-- Bytes after a varint with their number. -/
def field (bad : UInt64 → Prop) [DecidablePred bad] (error : UInt64 → ProtocolError) : Decode (List UInt8) := do
  let len ← .varint
  if bad len then throw (error len) else .take len.toNat

theorem toNat_ofNat_of_le {n : Nat} (h : n ≤ 4096) : (UInt64.ofNat n).toNat = n := by
  rw [UInt64.toNat_ofNat']
  omega

theorem decodes_field {bad : UInt64 → Prop} [DecidablePred bad] (err : UInt64 → ProtocolError) {bs : List UInt8}
    (hl : bs.length ≤ 4096) (hb : ¬ bad (UInt64.ofNat bs.length)) :
    ∃ len, encodeVarint (UInt64.ofNat bs.length) = .ok len ∧
      Decodes .unexpectedEnd (field bad err) (len ++ bs) bs := by
  have hn := toNat_ofNat_of_le hl
  have hle : UInt64.ofNat bs.length ≤ maxVarint := by
    grind [UInt64.le_iff_toNat_le, toNat_maxVarint]
  obtain ⟨len, he, hln⟩ := decodes_varint hle
  refine ⟨len, he, hln.bind (.check hb ?_)⟩
  rw [hn]
  exact decodes_take bs

/-! ## Requests and responses -/

/-- What the length of an address must not be. -/
def badAddress (len : UInt64) : Prop := len = 0 ∨ len > UInt64.ofNat maxAddressLength

def badMessage (len : UInt64) : Prop := len > UInt64.ofNat maxMessageLength

def badPadding (len : UInt64) : Prop := len > UInt64.ofNat maxPaddingLength

instance : DecidablePred badAddress := fun len => inferInstanceAs (Decidable (len = 0 ∨ _))

instance : DecidablePred badMessage := fun len => inferInstanceAs (Decidable (len > _))

instance : DecidablePred badPadding := fun len => inferInstanceAs (Decidable (len > _))

theorem decodeBody_eq : TcpRequest.decodeBody = (do
    let addressBytes ← field badAddress .invalidAddressLength
    let _ ← field badPadding .invalidPaddingLength
    return { address := fromUtf8Lossy addressBytes }) := by
  unfold field
  simp only [bind_assoc, check_bind]
  rfl

def statusByte : Decode UInt8 := do
  let status ← .take 1
  return status.headD 0

/-- The status of a response, and its text as it stands in the frame. -/
def responseText : Decode (UInt8 × List UInt8) := do
  let status ← statusByte
  let messageBytes ← field badMessage .invalidMessageLength
  let _ ← field badPadding .invalidPaddingLength
  return (status, messageBytes)

theorem decodeResponse_eq_text : TcpResponse.decode = (do
    let text ← responseText
    return { ok := text.1 == 0, message := fromUtf8Lossy text.2 }) := by
  unfold responseText statusByte field
  simp only [bind_assoc, check_bind, pure_bind]
  rfl

theorem checkWriteLengths_ok {addr pad msg : Nat} : checkWriteLengths addr pad msg = .ok () ↔
      addr ≤ maxAddressLength ∧ pad ≤ maxPaddingLength ∧ msg ≤ maxMessageLength := by
  unfold checkWriteLengths
  split
  · grind
  split
  · grind
  grind

theorem not_badPadding (h : pad.length ≤ maxPaddingLength) : ¬ badPadding (UInt64.ofNat pad.length) := by
  rw [badPadding, gt_iff_lt, UInt64.lt_iff_toNat_lt, toNat_ofNat_of_le h]
  exact Nat.not_lt.mpr h

theorem not_badMessage (h : bs.length ≤ maxMessageLength) : ¬ badMessage (UInt64.ofNat bs.length) := by
  rw [badMessage, gt_iff_lt, UInt64.lt_iff_toNat_lt, toNat_ofNat_of_le (Nat.le_trans h (by decide))]
  exact Nat.not_lt.mpr h

theorem not_badAddress (hne : bs ≠ []) (h : bs.length ≤ maxAddressLength) : ¬ badAddress (UInt64.ofNat bs.length) := by
  have hn := toNat_ofNat_of_le (Nat.le_trans h (by decide))
  have hp := List.length_pos_iff.mpr hne
  rw [badAddress, gt_iff_lt, UInt64.lt_iff_toNat_lt, ← UInt64.toNat_inj, hn]
  rintro (hz | hl)
  · exact Nat.ne_of_gt hp hz
  · exact Nat.not_lt.mpr h hl

theorem encodeRequest_ok (h : req.encode pad = .ok bs) :
    (utf8 req.address).length ≤ maxAddressLength ∧ pad.length ≤ maxPaddingLength := by
  rcases hc : checkWriteLengths (utf8 req.address).length pad.length 0 with err | u
  · rw [TcpRequest.encode, hc] at h
    cases h
  · exact (checkWriteLengths_ok.mp hc).imp_right And.left

/-- A request with an address is decoded to itself. -/
theorem decodes_request (hne : req.address ≠ []) (had : (utf8 req.address).length ≤ maxAddressLength)
    (hp : pad.length ≤ maxPaddingLength) :
    ∃ bs, req.encode pad = .ok bs ∧ Decodes .unexpectedEnd TcpRequest.decode bs req := by
  have hne' : utf8 req.address ≠ [] := mt utf8_eq_nil.mp hne
  obtain ⟨addressLen, he, ha⟩ :=
    decodes_field .invalidAddressLength (Nat.le_trans had (by decide)) (not_badAddress hne' had)
  obtain ⟨plen, hen, hpd⟩ := decodes_field .invalidPaddingLength hp (not_badPadding hp)
  obtain ⟨frameType, hec, ht⟩ := decodes_varint (show frameTypeTcpRequest ≤ maxVarint by decide)
  refine ⟨frameType ++ (addressLen ++ (utf8 req.address ++ (plen ++ pad))), ?_, ?_⟩
  · rw [TcpRequest.encode, checkWriteLengths_ok.mpr ⟨had, hp, by decide⟩, hec, he, hen]
    rfl
  have hb : Decodes .unexpectedEnd TcpRequest.decodeBody
      ((addressLen ++ utf8 req.address) ++ ((plen ++ pad) ++ []))
      { address := fromUtf8Lossy (utf8 req.address) } := by
    rw [decodeBody_eq]
    exact ha.bind (hpd.bind (.pure _ _))
  rw [fromUtf8Lossy_utf8, List.append_nil, List.append_assoc] at hb
  exact ht.bind (.check (not_not.mpr rfl) hb)

theorem encodeResponse_ok (h : resp.encode pad = .ok bs) :
    (utf8 resp.message).length ≤ maxMessageLength ∧ pad.length ≤ maxPaddingLength := by
  rcases hc : checkWriteLengths 0 pad.length (utf8 resp.message).length with err | u
  · rw [TcpResponse.encode, hc] at h
    cases h
  · obtain ⟨-, hp, hm⟩ := checkWriteLengths_ok.mp hc
    exact ⟨hm, hp⟩

theorem decodes_responseText (hms : (utf8 resp.message).length ≤ maxMessageLength)
    (hp : pad.length ≤ maxPaddingLength) : ∃ bs, resp.encode pad = .ok bs ∧
      Decodes .unexpectedEnd responseText bs (if resp.ok then 0 else 1, utf8 resp.message) := by
  obtain ⟨messageLen, hen, hm⟩ :=
    decodes_field .invalidMessageLength (Nat.le_trans hms (by decide)) (not_badMessage hms)
  obtain ⟨plen, he, hpd⟩ := decodes_field .invalidPaddingLength hp (not_badPadding hp)
  refine ⟨[if resp.ok then 0 else 1] ++ (messageLen ++ (utf8 resp.message ++ (plen ++ pad))), ?_, ?_⟩
  · rw [TcpResponse.encode, checkWriteLengths_ok.mpr ⟨by decide, hp, hms⟩, hen, he]
    rfl
  have hs : Decodes .unexpectedEnd statusByte ([if resp.ok then 0 else 1] ++ []) (if resp.ok then 0 else 1) :=
    (decodes_take [if resp.ok then 0 else 1]).bind (.pure _ _)
  have hb : Decodes .unexpectedEnd responseText _ (if resp.ok then 0 else 1, utf8 resp.message) :=
    hs.bind (hm.bind (hpd.bind (.pure _ _)))
  grind

theorem decodes_response (hms : (utf8 resp.message).length ≤ maxMessageLength) (hp : pad.length ≤ maxPaddingLength) :
    ∃ bs, resp.encode pad = .ok bs ∧ Decodes .unexpectedEnd TcpResponse.decode bs resp := by
  obtain ⟨bs, he, hd⟩ := decodes_responseText hms hp
  refine ⟨bs, he, ?_⟩
  have hb : Decodes .unexpectedEnd TcpResponse.decode (bs ++ [])
      { ok := (if resp.ok then 0 else 1 : UInt8) == 0, message := fromUtf8Lossy (utf8 resp.message) } := by
    rw [decodeResponse_eq_text]
    exact hd.bind (.pure _ _)
  have hok : ((if resp.ok then 0 else 1 : UInt8) == 0) = resp.ok := by cases resp.ok <;> rfl
  simp_all

/-! ## All three formats -/

/-- A frame is decoded to what was encoded and leaves exactly what follows it; a
part of it only is too short. -/
theorem wire_codec :
    (∀ request : TcpRequest, request.address ≠ [] → ∀ padding bytes, request.encode padding = .ok bytes →
      (∀ rest, TcpRequest.decode (bytes ++ rest) = .ok (request, rest)) ∧
        ∀ front, front <+: bytes → front ≠ bytes → TcpRequest.decode front = .error .unexpectedEnd) ∧
    (∀ (response : TcpResponse) padding bytes, response.encode padding = .ok bytes →
      (∀ rest, TcpResponse.decode (bytes ++ rest) = .ok (response, rest)) ∧
        ∀ front, front <+: bytes → front ≠ bytes → TcpResponse.decode front = .error .unexpectedEnd) ∧
    ∀ m : UdpMessage, m.address ≠ [] → m.data ≠ [] → ∀ bytes, m.encode = .ok bytes →
      UdpMessage.decode bytes = .ok m := by
  have hb {front back : List UInt8} (hne : front ≠ front ++ back) : back ≠ [] := by
    grind
  refine ⟨fun request hne padding bytes he => ?_, fun response padding bytes he => ?_, ?_⟩
  · obtain ⟨ha, hp⟩ := encodeRequest_ok he
    obtain ⟨bs', henc', hd⟩ := decodes_request hne ha hp
    cases he.symm.trans henc'
    refine ⟨hd.whole, ?_⟩
    rintro front ⟨back, rfl⟩ hf
    exact hd.cut front back rfl (hb hf)
  · obtain ⟨hm, hp⟩ := encodeResponse_ok he
    obtain ⟨bs', henc', hd⟩ := decodes_response hm hp
    cases he.symm.trans henc'
    refine ⟨hd.whole, ?_⟩
    rintro front ⟨back, rfl⟩ hf
    exact hd.cut front back rfl (hb hf)
  grind [UdpMessage.decode_encode]

theorem wire_codec_request : ∃ bytes, (TcpRequest.mk "a:1".toList).encode [7, 8] = .ok bytes ∧
    TcpRequest.decode (bytes ++ [9]) = .ok (⟨"a:1".toList⟩, [9]) ∧
    TcpRequest.decode [0x44] = .error .unexpectedEnd := by
  have he : (TcpRequest.mk "a:1").encode [7, 8] = .ok [0x44, 0x01, 3, 97, 58, 49, 2, 7, 8] := by decide
  obtain ⟨hwh, hc⟩ := wire_codec.1 ⟨"a:1"⟩ (by decide) [7, 8] _ he
  exact ⟨_, he, hwh [9], hc [0x44] (by decide) (by decide)⟩

/-- A request without an address is encoded, and refused. -/
theorem decode_request_empty (hem : req.address = []) (hp : pad.length ≤ maxPaddingLength) :
    ∃ bs, req.encode pad = .ok bs ∧
      TcpRequest.decode bs = .error (.invalidAddressLength 0) := by
  obtain ⟨frameType, hec, ht⟩ := decodes_varint (show frameTypeTcpRequest ≤ maxVarint by decide)
  obtain ⟨addressLen, he, ha⟩ := decodes_varint (show (0 : UInt64) ≤ maxVarint by decide)
  obtain ⟨plen, hen, -⟩ := decodes_field .invalidPaddingLength hp (not_badPadding hp)
  refine ⟨frameType ++ (addressLen ++ ([] ++ (plen ++ pad))), ?_, ?_⟩
  · have ha : UInt64.ofNat (utf8 req.address).length = 0 := by rw [hem]; rfl
    rw [TcpRequest.encode, checkWriteLengths_ok.mpr ⟨by rw [hem]; decide, hp, by decide⟩, hec, ha, he, hen, hem]
    rfl
  rw [TcpRequest.decode, bind_of_ok (ht.whole _), if_neg (not_not.mpr rfl), decodeBody_eq]
  have hf : field badAddress .invalidAddressLength (addressLen ++ ([] ++ (plen ++ pad))) =
      .error (.invalidAddressLength 0) := by
    rw [field, bind_of_ok (ha.whole _), if_pos (.inl rfl)]
    rfl
  exact bind_of_error hf

/-- The decoder of the peer takes every frame that is encoded, but for requests
without an address and UDP messages without an address or without data. -/
theorem accepted_iff (request : TcpRequest) (response : TcpResponse) (m : UdpMessage) (padding : List UInt8) :
    ((∀ bytes, request.encode padding = .ok bytes → ∃ decoded rest, TcpRequest.decode bytes = .ok (decoded, rest)) ↔
      request.address ≠ [] ∨ maxPaddingLength < padding.length) ∧
    (∀ bytes, response.encode padding = .ok bytes → ∃ decoded rest, TcpResponse.decode bytes = .ok (decoded, rest)) ∧
    ((∀ bytes, m.encode = .ok bytes → ∃ decoded, UdpMessage.decode bytes = .ok decoded) ↔
      maxMessageLength < m.addressLen ∨ m.address ≠ [] ∧ m.data ≠ []) := by
  refine ⟨⟨fun hac => ?_, fun hw bytes he => ?_⟩, fun bytes he => ?_, ⟨fun hac => ?_, fun hw bytes he => ?_⟩⟩
  · by_contra hn
    grind [decode_request_empty, Nat.le_of_not_lt]
  · obtain ⟨had, hp⟩ := encodeRequest_ok he
    have hne := hw.resolve_right (Nat.not_lt.mpr hp)
    obtain ⟨bs', henc', hd⟩ := decodes_request hne had hp
    cases he.symm.trans henc'
    have hwh := hd.whole []
    grind
  · obtain ⟨hm, hp⟩ := encodeResponse_ok he
    obtain ⟨bs', henc', hd⟩ := decodes_response hm hp
    cases he.symm.trans henc'
    have hwh := hd.whole []
    grind
  · by_contra hn
    obtain ⟨hl, hem⟩ := not_or.mp hn
    obtain ⟨bytes, he, -⟩ := UdpMessage.encode_ok (Nat.le_of_not_lt hl)
    grind [UdpMessage.decode_encode_eq]
  · have hln := UdpMessage.addressLen_le_of_encode he
    obtain ⟨had, hdt⟩ := hw.resolve_left (Nat.not_lt.mpr hln)
    exact ⟨m, UdpMessage.decode_encode he had hdt⟩

/-- The empty address. -/
theorem empty_request_refused : ∃ bytes, (TcpRequest.mk []).encode [] = .ok bytes ∧
    ¬ ∃ decoded rest, TcpRequest.decode bytes = .ok (decoded, rest) := by
  refine ⟨[0x44, 0x01, 0, 0], by decide, ?_⟩
  have hd : TcpRequest.decode [0x44, 0x01, 0, 0] = .error (.invalidAddressLength 0) := by rfl
  rw [hd]
  rintro ⟨decoded, rest, ha⟩
  cases ha

end Hysteria.Proof
