import Hysteria.Proof.Sniff.ClientHello
import Hysteria.Proof.Sniff.PacketNumber
import Hysteria.Proof.Transport.VarintDecoders

/-!
# Hostile QUIC packets

`quic_sni` reads every length from the packet. Its own code never panics: not on
the header (`initialHeader_returns`), not on the frames (`framesLoop_safe`). It does
call two functions that panic, without the checks that they need, so it panics
exactly there (`quicSni_panics`).
-/

namespace Hysteria.Proof

open Framework Impl Impl.Sniff List

variable {crypto : InitialCrypto} {hdr : InitialHeader}
variable {n : Nat} {packet : List UInt8}

/-! ## Variable-length integers -/

theorem readQuicVarint_some {bs : List UInt8} {val : UInt64}
    (h : readQuicVarint bs = some (val, n)) : 0 < n ∧ n ≤ bs.length ∧ n ≤ 8 ∧ val.toNat < 2 ^ 62 := by
  obtain ⟨rest, hd, rfl⟩ := decodeVarint_of_read h
  obtain ⟨k, hk, hl, hv⟩ := decodeVarint_ok hd
  obtain rfl | rfl | rfl | rfl : k = 0 ∨ k = 1 ∨ k = 2 ∨ k = 3 := by omega
  all_goals
    omega

theorem returns_varint (packet : List UInt8) (pos : Nat) :
    Returns (fun read => pos + read.2 ≤ packet.length ∧ read.2 ≤ 8 ∧ read.1.toNat < 2 ^ 62)
      (orNone ((slice packet pos packet.length).bind readQuicVarint)) := by
  rcases hsl : slice packet pos packet.length with _ | rest
  · exact .error rfl
  rcases hr : readQuicVarint rest with _ | read
  · rw [Option.bind_some, hr]
    exact .error rfl
  obtain ⟨val, n⟩ := read
  obtain ⟨-, hn, hn8, hv⟩ := readQuicVarint_some hr
  obtain ⟨hle, -, hl⟩ := length_slice hsl
  rw [Option.bind_some, hr]
  exact .ok ⟨by dsimp only; omega, hn8, hv⟩

/-! ## The header -/

/-- What is known of a header that was read. -/
structure HeaderOf (packet : List UInt8) (header : InitialHeader) : Prop where
  nonempty : 0 < packet.length
  position_le : header.position ≤ header.packetEnd
  packetEnd_le : header.packetEnd ≤ packet.length

theorem initialHeader_returns (packet : List UInt8) : Returns (HeaderOf packet) (initialHeader packet) := by
  unfold initialHeader
  dsimp only
  refine .branch (fun _ => .error rfl) fun hl => ?_
  refine (returns_orPanic (isSome_getElem? (by omega))).bind fun first _ => ?_
  refine .branch (fun _ => .error rfl) fun _ => ?_
  refine (returns_orPanic (isSome_slice (by omega) (by omega))).bind fun ver _ => ?_
  refine .branch (fun _ => .error rfl) fun _ => ?_
  refine .branch (fun _ => .error rfl) fun _ => ?_
  refine (returns_orNone _).bind fun destinationLength _ => ?_
  refine (returns_orNone _).bind fun dst _ => ?_
  refine (returns_orNone _).bind fun sourceLength _ => ?_
  refine (returns_varint packet _).bind fun token ht => ?_
  obtain ⟨tokenLength, tokenBytes⟩ := token
  dsimp only at ht ⊢
  have hs : tokenBytes + tokenLength.toNat < 2 ^ 64 := by omega
  rw [add, if_pos hs]
  refine (returns_varint packet _).bind fun len hlen' => ?_
  obtain ⟨protectedLength, lengthBytes⟩ := len
  dsimp only at hlen' ⊢
  refine .branch (fun _ => .error rfl) fun he => ?_
  exact .ok ⟨by omega, by dsimp only; omega, by dsimp only; omega⟩

/-! ## The payload -/

/-- Packet numbers of at most four bytes are decoded without overflow. -/
theorem decodePacketNumber_returns {truncated len : Nat} (hl : len ≤ 4) (ht : truncated < 256 ^ len) :
    Returns (fun _ => True) (decodePacketNumber 2 truncated len) := by
  obtain ⟨_, -, -, -, -, heq⟩ := decodePacketNumber_cases (show 2 < 2 ^ 62 - 1 by decide) hl (by rwa [Nat.pow_mul])
  rw [heq]
  exact .ok trivial

theorem returns_advance {pay : List UInt8} (h : n ≤ pay.length) :
    Returns (fun rest => rest.length = pay.length - n) (advance pay n) := by
  refine ⟨(returns_orPanic (isSome_slice h (by omega))).of_error, fun rest hr => ?_⟩
  have hsl := (returns_orPanic (isSome_slice h (by omega))).of_ok rest hr
  exact (length_slice hsl).2.2

theorem returns_readQuicVarint (pay : List UInt8) :
    Returns (fun read => 0 < read.2 ∧ read.2 ≤ pay.length) (orNone (readQuicVarint pay)) := by
  rcases h : readQuicVarint pay with _ | read
  · exact .error rfl
  · exact .ok ⟨(readQuicVarint_some h).1, (readQuicVarint_some h).2.1⟩

theorem framesLoop_safe (rounds : Nat) (pay : List UInt8) (frs : List (UInt64 × List UInt8))
    (h : pay.length < rounds) : Returns (fun _ => True) (framesLoop rounds pay frs) := by
  induction rounds generalizing pay frs with
  | zero => cases h
  | succ rounds ih =>
    rw [framesLoop]
    refine .branch (fun _ => .ok trivial) fun _ => ?_
    refine (returns_readQuicVarint pay).bind fun kind hk => ?_
    refine (returns_advance hk.2).bind fun afterKind hat => ?_
    dsimp only
    refine .branch (fun _ => ih _ _ (by omega)) fun _ => ?_
    refine .branch (fun _ => .error rfl) fun _ => ?_
    refine (returns_readQuicVarint _).bind fun off ho => ?_
    refine (returns_advance ho.2).bind fun afterOffset ha => ?_
    refine (returns_readQuicVarint _).bind fun len hl => ?_
    refine (returns_advance hl.2).bind fun afterLength haf => ?_
    refine .branch (fun _ => .error rfl) fun hf => ?_
    refine (returns_orPanic (isSome_slice (by omega) (by omega))).bind fun fr _ => ?_
    refine (returns_advance (by omega)).bind fun rest hr => ?_
    exact ih _ _ (by omega)

theorem joinFrames_returns (frs : List (UInt64 × List UInt8)) (res : List UInt8) :
    Returns (fun _ => True) (joinFrames frs res) := by
  induction frs generalizing res with
  | nil => exact .branch (fun _ => .error rfl) fun _ => .ok trivial
  | cons fr frs ih => exact .branch (fun _ => .error rfl) fun _ => ih _

theorem extractCryptoFrames_returns (pay : List UInt8) : Returns (fun _ => True) (extractCryptoFrames pay) :=
  (framesLoop_safe _ pay [] (by omega)).bind fun _ _ => joinFrames_returns _ _

theorem initialPayload_returns (keys : InitialKeys) (h : HeaderOf packet hdr) (hs : hdr.position + 20 ≤ hdr.packetEnd) :
    Returns (fun _ => True) (initialPayload keys packet hdr) := by
  have he := h.packetEnd_le
  have hl : (keys.headerDecrypt hdr.position (packet.take hdr.packetEnd) ++
      packet.drop hdr.packetEnd).length = packet.length := by
    grind [keys.length_headerDecrypt]
  unfold initialPayload
  rw [if_neg (by omega)]
  generalize keys.headerDecrypt hdr.position (packet.take hdr.packetEnd) ++ packet.drop hdr.packetEnd = plain at hl ⊢
  refine (returns_orPanic (isSome_getElem? (by omega))).bind fun first _ => ?_
  have hf : (first &&& 3).toNat ≤ 3 := by
    exact Nat.and_le_right
  refine (returns_orNone _).bind fun num hnm => ?_
  have hbs : beNat num < 256 ^ ((first &&& 3).toNat + 1) := by
    have hlt := foldl_byte_lt num 0
    have hn := (length_slice hnm).2.2
    rw [Nat.add_sub_cancel_left] at hn
    rwa [hn, Nat.zero_add, Nat.one_mul] at hlt
  refine (decodePacketNumber_returns (by omega) hbs).bind fun packetNumber _ => ?_
  refine (returns_orPanic (isSome_slice (by omega) (by omega))).bind fun front _ => ?_
  exact (returns_orNone _).bind fun pay _ => (returns_orNone _).mono fun _ _ => trivial

/-! ## Panics -/

/-- The packet gives `ConnectionId::new` more bytes than it takes. -/
def LongConnectionId (crypto : InitialCrypto) (packet : List UInt8) : Prop :=
  ∃ header, initialHeader packet = .ok header ∧ crypto.isSome ∧ 20 < header.destination.length

/-- The packet leaves less after the position of the packet number than the header protection samples. -/
def ShortSample (crypto : InitialCrypto) (packet : List UInt8) : Prop :=
  ∃ header initialKeys keys, initialHeader packet = .ok header ∧ crypto = some initialKeys ∧
    header.destination.length ≤ 20 ∧ initialKeys header.version header.destination = some keys ∧
    header.packetEnd < header.position + 20

theorem longConnectionId_iff (h : initialHeader packet = .ok hdr) :
    LongConnectionId crypto packet ↔ crypto.isSome ∧ 20 < hdr.destination.length := by
  constructor
  · rintro ⟨hdr', h', hl⟩
    rw [h] at h'
    cases h'
    exact hl
  · intro hl
    exact ⟨hdr, h, hl⟩

theorem shortSample_iff (h : initialHeader packet = .ok hdr) :
    ShortSample crypto packet ↔ ∃ initialKeys keys, crypto = some initialKeys ∧ hdr.destination.length ≤ 20 ∧
      initialKeys hdr.version hdr.destination = some keys ∧ hdr.packetEnd < hdr.position + 20 := by
  constructor
  · rintro ⟨hdr', initialKeys, keys, h', hsh⟩
    grind
  · rintro ⟨initialKeys, keys, hsh⟩
    exact ⟨hdr, initialKeys, keys, h, hsh⟩

theorem not_longConnectionId (h : ShortSample crypto packet) : ¬ LongConnectionId crypto packet := by
  obtain ⟨hdr, _, _, hh, -, hln, -⟩ := h
  rw [longConnectionId_iff hh]
  rintro ⟨-, hl⟩
  omega

theorem quicSni_of_header (h : initialHeader packet = .ok hdr)
    (initialKeys : UInt32 → List UInt8 → Option InitialKeys) :
    quicSni (some initialKeys) packet = if hdr.destination.length > 20 then .error .connectionId
      else orNone (initialKeys hdr.version hdr.destination) >>= fun keys =>
        initialPayload keys packet hdr >>= fun pay => extractCryptoFrames pay >>= parseClientHelloSni := by
  rw [quicSni, h]
  rfl

theorem quicSni_cases (crypto : InitialCrypto) (packet : List UInt8) :
    (LongConnectionId crypto packet ∧ quicSni crypto packet = .error .connectionId) ∨
      (ShortSample crypto packet ∧ ¬ LongConnectionId crypto packet ∧ quicSni crypto packet = .error .headerSample) ∨
      (¬ LongConnectionId crypto packet ∧ ¬ ShortSample crypto packet ∧
        Returns (fun _ => True) (quicSni crypto packet)) := by
  cases hh : initialHeader packet with
  | error stop =>
    refine .inr (.inr ⟨?_, ?_, ?_⟩)
    · rintro ⟨hdr, h, -⟩
      rw [hh] at h
      cases h
    · rintro ⟨hdr, _, _, h, -⟩
      rw [hh] at h
      cases h
    · rw [quicSni, hh]
      exact .error ((initialHeader_returns packet).of_error stop hh)
  | ok hdr =>
  have hof : HeaderOf packet hdr := (initialHeader_returns packet).of_ok hdr hh
  rw [longConnectionId_iff hh, shortSample_iff hh]
  cases crypto with
  | none =>
    refine .inr (.inr ⟨by simp, by simp, ?_⟩)
    rw [quicSni, hh]
    exact .error rfl
  | some initialKeys =>
  rw [quicSni_of_header hh]
  by_cases hl : hdr.destination.length > 20
  · grind
  rw [if_neg hl]
  cases hk : initialKeys hdr.version hdr.destination with
  | none =>
    refine .inr (.inr ⟨fun h => hl h.2, ?_, .error rfl⟩)
    grind
  | some keys =>
  by_cases hsh : hdr.packetEnd < hdr.position + 20
  · refine .inr (.inl ⟨⟨initialKeys, keys, rfl, by omega, hk, hsh⟩, fun h => hl h.2, ?_⟩)
    simp only [orNone, bind, Except.bind, initialPayload]
    rw [if_pos (by omega)]
    rfl
  refine .inr (.inr ⟨fun h => hl h.2, ?_, ?_⟩)
  · omega
  refine (returns_orNone (some keys)).bind fun keys _ => ?_
  refine (initialPayload_returns keys hof (by omega)).bind fun pay _ => ?_
  exact (extractCryptoFrames_returns pay).bind fun _ _ => parseClientHelloSni_returns _

/-- `Sniffer::udp` passes on the panics of `quic_sni` and nothing else. -/
theorem Sniffer.udp_stops (crypto : InitialCrypto) (data : List UInt8) (addr : Str) :
    (∃ stop, Sniffer.udp crypto data addr = .error stop) ↔
      LongConnectionId crypto data ∨ ShortSample crypto data := by
  unfold Sniffer.udp
  obtain ⟨hl, hs⟩ | ⟨hsh, -, hs⟩ | ⟨hl, hsh, hr⟩ := quicSni_cases crypto data
  · simp_all
  · simp_all
  constructor
  · rintro ⟨stop, hst⟩
    grind [hr.of_error]
  grind

theorem sniffedAddress_stops (crypto : InitialCrypto) (sniffer : Option Sniffer) (first : UdpMessage) :
    (∃ stop, sniffedAddress crypto sniffer first = .error stop) ↔ (∃ s ∈ sniffer, s.check true first.address = true) ∧
        (LongConnectionId crypto first.data ∨ ShortSample crypto first.data) := by
  rcases sniffer with _ | sniffer
  · simp [sniffedAddress]
  by_cases hc : sniffer.check true first.address = true
  · simp [sniffedAddress, hc, Sniffer.udp_stops]
  · simp [sniffedAddress, hc]

/-- `quic_sni` panics exactly on a connection ID that is too long and on a packet that is
too short to sample, and a session's first message ends its task exactly when it is
sniffed and such a packet. Any other packet has a name or none. -/
theorem quicSni_panics (crypto : InitialCrypto) (packet : List UInt8) :
    (quicSni crypto packet = .error .connectionId ↔ LongConnectionId crypto packet) ∧
      (quicSni crypto packet = .error .headerSample ↔ ShortSample crypto packet) ∧
      (LongConnectionId crypto packet ∨ ShortSample crypto packet ∨
        ∃ found : Option Str, quicSni crypto packet = orNone found) ∧
      ∀ (sniffer : Option Sniffer) (first : UdpMessage),
        (∃ stop, sniffedAddress crypto sniffer { first with data := packet } = .error stop) ↔
          (∃ s ∈ sniffer, s.check true first.address = true) ∧
            (LongConnectionId crypto packet ∨ ShortSample crypto packet) := by
  refine ⟨?_, ?_, ?_, fun sniffer first => sniffedAddress_stops crypto sniffer _⟩
  · constructor
    · intro hs
      obtain ⟨hl, -⟩ | ⟨-, -, h⟩ | ⟨-, -, hr⟩ := quicSni_cases crypto packet
      · exact hl
      · rw [hs] at h
        cases h
      · cases hr.of_error _ hs
    grind [quicSni_cases]
  · constructor
    · intro hs
      obtain ⟨-, h⟩ | ⟨hsh, -⟩ | ⟨-, -, hr⟩ := quicSni_cases crypto packet
      · rw [hs] at h
        cases h
      · exact hsh
      · cases hr.of_error _ hs
    · intro hsh
      obtain ⟨hl, -⟩ | ⟨-, -, h⟩ | ⟨-, h, -⟩ := quicSni_cases crypto packet
      · exact absurd hl (not_longConnectionId hsh)
      · exact h
      · exact absurd hsh h
  · obtain ⟨hl, -⟩ | ⟨hsh, -⟩ | ⟨-, -, hr⟩ := quicSni_cases crypto packet
    · exact .inl hl
    · exact .inr (.inl hsh)
    · exact .inr (.inr (exists_orNone_of_returns hr))

/-! ## Two packets -/

/-- Keys that leave the packet as it is. -/
def plainKeys : InitialKeys where
  headerDecrypt _ packet := packet
  length_headerDecrypt _ _ := rfl
  packetDecrypt _ _ payload := some payload

/-- A version 1 Initial packet with no source ID, token or protected part. -/
def emptyInitial (destination : List UInt8) : List UInt8 :=
  [0xc0, 0, 0, 0, 1, UInt8.ofNat destination.length] ++ destination ++ [0, 0, 0]

theorem sniffedAddress_of_check {sniffer : Sniffer} {first : UdpMessage} {stop : SniffStop}
    (hc : sniffer.check true first.address = true) (hsn : quicSni crypto first.data = .error stop)
    (hs : stop ≠ .absent) : sniffedAddress crypto (some sniffer) first = .error stop := by
  rw [sniffedAddress, if_pos hc, Sniffer.udp, hsn]
  simp

/-- 30 bytes with a connection ID of 21 stop the task, and so do 9 bytes without one. -/
theorem quicSni_stops_task : (∀ initialKeys, sniffedAddress (some initialKeys) (some ⟨true, none, none⟩)
        ⟨0, 0, 0, 1, "a.example:443".toList, emptyInitial (replicate 21 0)⟩ = .error .connectionId) ∧
      sniffedAddress (some fun _ _ => some plainKeys) (some ⟨true, none, none⟩)
        ⟨0, 0, 0, 1, "a.example:443".toList, emptyInitial []⟩ = .error .headerSample := by
  have hc : (Sniffer.mk true none none).check true "a.example:443" = true := by decide
  constructor
  · intro initialKeys
    refine sniffedAddress_of_check hc ?_ (by decide)
    have hh : initialHeader (emptyInitial (replicate 21 0)) = .ok ⟨1, replicate 21 0, 30, 30⟩ := by
      decide
    rw [quicSni_of_header hh]
    rfl
  · refine sniffedAddress_of_check hc ?_ (by decide)
    have hh : initialHeader (emptyInitial []) = .ok ⟨1, [], 9, 9⟩ := by decide
    rw [quicSni_of_header hh]
    rfl

end Hysteria.Proof
