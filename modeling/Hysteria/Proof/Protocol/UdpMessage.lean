import Hysteria.Impl.Protocol.UdpMessage
import Hysteria.Proof.Protocol.Varint

/-!
# The UDP message codec

`encode_ok`: a message whose address fits is encoded in `encodedSize` bytes.
`decode_encode`: decoding these bytes gives the message back, unless its
address or its data is empty, which the decoder refuses.
-/

namespace Hysteria.Proof

open Framework Impl

namespace UdpMessage

variable {m : UdpMessage} {bs : List UInt8}

/-- The eight fixed bytes of a message's header. -/
def fixedBytes (m : UdpMessage) : List UInt8 :=
  beBytes 4 m.sessionId.toNat ++ beBytes 2 m.packetId.toNat ++ [m.fragmentId, m.fragmentCount]

theorem length_fixedBytes (m : UdpMessage) : (fixedBytes m).length = 8 := by
  simp [fixedBytes]

theorem addressLen_eq_zero : m.addressLen = 0 ↔ m.address = [] := by
  rw [UdpMessage.addressLen, List.length_eq_zero_iff, utf8_eq_nil]

theorem toNat_addressLen (h : m.addressLen ≤ maxMessageLength) : (UInt64.ofNat m.addressLen).toNat = m.addressLen := by
  rw [UInt64.toNat_ofNat']
  exact Nat.mod_eq_of_lt (Nat.lt_of_le_of_lt h (by decide))

theorem encode_parts (h : m.addressLen ≤ maxMessageLength) :
    ∃ len, m.encode = .ok (fixedBytes m ++ (len ++ (utf8 m.address ++ m.data))) ∧
      len.length = varintLen (UInt64.ofNat m.addressLen) ∧
      ∀ rest, decodeVarint (len ++ rest) = .ok (UInt64.ofNat m.addressLen, rest) := by
  have hle : UInt64.ofNat m.addressLen ≤ maxVarint := by
    rw [UInt64.le_iff_toNat_le, toNat_addressLen h, toNat_maxVarint]
    exact Nat.le_trans h (by decide)
  obtain ⟨len, he, hl, hd⟩ := encodeVarint_ok hle
  refine ⟨len, ?_, hl, hd⟩
  simp only [UdpMessage.encode, he, fixedBytes]
  simp_all

theorem encode_ok (h : m.addressLen ≤ maxMessageLength) : ∃ bs, m.encode = .ok bs ∧ bs.length = m.encodedSize := by
  obtain ⟨len, he, hl, -⟩ := encode_parts h
  refine ⟨_, he, ?_⟩
  simp only [List.length_append, length_fixedBytes, hl, UdpMessage.encodedSize, UdpMessage.headerSize,
    UdpMessage.addressLen]
  omega

theorem addressLen_le_of_encode (h : m.encode = .ok bs) : m.addressLen ≤ maxMessageLength := by
  by_contra hn
  simp [UdpMessage.encode, Nat.lt_of_not_le hn, throw, throwThe, MonadExceptOf.throw, bind, Except.bind] at h

theorem take_append {n : Nat} {a : List UInt8} (h : a.length = n) (rest : List UInt8) :
    take (a ++ rest) n = .ok (a, rest) := by
  rw [take, takeBytes_append h]

theorem decode_encode_eq (h : m.encode = .ok bs) : UdpMessage.decode bs =
      if m.address = [] then .error (.invalidAddressLength 0)
      else if m.data = [] then .error (.invalidMessageLength (UInt64.ofNat m.addressLen))
      else .ok m := by
  have hl := addressLen_le_of_encode h
  obtain ⟨len, he, -, hd⟩ := encode_parts hl
  rw [he] at h
  obtain rfl := Except.ok.inj h
  have hN := toNat_addressLen hl
  have hm : ¬ UInt64.ofNat m.addressLen > UInt64.ofNat maxMessageLength := by
    rw [gt_iff_lt, UInt64.lt_iff_toNat_lt, hN]
    exact Nat.not_lt.mpr hl
  rw [UdpMessage.decode, take_append (length_fixedBytes m)]
  simp only [bind, Except.bind, hd, hm, or_false, hN]
  by_cases ha : m.address = []
  · rw [if_pos ha, if_pos]
    · rw [addressLen_eq_zero.mpr ha]; rfl
    · rw [addressLen_eq_zero.mpr ha]; rfl
  have hz : ¬ UInt64.ofNat m.addressLen = 0 := fun e => by
    have := congrArg UInt64.toNat e
    rw [hN] at this
    exact ha (addressLen_eq_zero.mp this)
  rw [if_neg ha, if_neg hz]
  simp only [pure, Except.pure]
  by_cases hdt : m.data = []
  · rw [if_pos hdt, if_pos (by simp [hdt, UdpMessage.addressLen])]
    simp only [hdt, List.append_nil]
    rfl
  have hp : 0 < m.data.length := List.length_pos_iff.mpr hdt
  rw [if_neg hdt, if_neg (by rw [List.length_append]; simp only [UdpMessage.addressLen]; omega)]
  simp only [take_append (show (utf8 m.address).length = m.addressLen from rfl), fromUtf8Lossy_utf8]
  simp only [fixedBytes, List.append_assoc, List.take_left' (length_beBytes ..), List.drop_left' (length_beBytes ..)]
  rw [beNat_beBytes (n := 4) m.sessionId.toNat_lt, beNat_beBytes (n := 2) m.packetId.toNat_lt,
    UInt32.ofNat_toNat, UInt16.ofNat_toNat]
  rfl

theorem decode_encode (h : m.encode = .ok bs) (ha : m.address ≠ []) (hd : m.data ≠ []) :
    UdpMessage.decode bs = .ok m := by
  rw [decode_encode_eq h, if_neg ha, if_neg hd]

/-- What decodes at all decodes to the message that was encoded. -/
theorem eq_of_decode_encode {m' : UdpMessage} (h : m.encode = .ok bs) (h' : UdpMessage.decode bs = .ok m') :
    m' = m := by
  rw [decode_encode_eq h] at h'
  grind

end UdpMessage

end Hysteria.Proof
