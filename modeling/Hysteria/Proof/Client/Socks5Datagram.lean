import Hysteria.Proof.Client.Socks5Address

/-!
# SOCKS5 datagrams are read back as written

An address of either kind that was written for a SOCKS5 peer is read back, and so
is the payload after it; the decoders are never out of bounds
(`decodeAddressChecked_eq`, `decodeAddressBytesChecked_ne_panicked`, `decodeUdpDatagramChecked_eq`).
-/

namespace Hysteria.Proof

open Framework Impl Spec List

variable (txts : RelayTexts)

/-! ## Bounds -/

theorem getOrErrors_ne_panicked {ε α β γ : Type} {x : Option α} {y : α → Option β} {e : ε} {e' : α → ε} {f : β → γ} :
    (do let a ← getOrError x e
        let b ← getOrError (y a) (e' a)
        return f b) ≠ .error .panicked :=
  getOrError_bind_ne_panicked fun _ _ => getOrError_bind_ne_panicked fun _ _ => nofun

theorem decodeAddressChecked_eq (pkt : List UInt8) (off : Nat) :
    decodeAddressChecked pkt off = (decodeAddress pkt off).mapError .error := by
  refine eq_mapError_withoutPanic _ (bind_ne_error (getOrError_bind_ne_panicked fun atyp _ => ?_)
    fun _ _ => getOrErrors_ne_panicked)
  split
  · exact getOrErrors_ne_panicked
  split
  · exact getOrErrors_ne_panicked
  split
  · exact getOrError_bind_ne_panicked fun _ _ => getOrErrors_ne_panicked
  · nofun

theorem decodeAddressBytesChecked_ne_panicked (pkt : List UInt8) (off : Nat) :
    decodeAddressBytesChecked txts pkt off ≠ .error .panicked := by
  refine bind_ne_error (getOrError_bind_ne_panicked fun kind _ => ?_) fun _ _ => getOrErrors_ne_panicked
  dsimp only
  split
  · refine getOrError_bind_ne_panicked fun bs hbs => ?_
    -- The four octets are there.
    have hl := length_of_slice hbs
    match bs, hl with
    | [a, b, c, d], _ => nofun
  split
  · exact getOrErrors_ne_panicked
  split
  · exact getOrError_bind_ne_panicked fun _ _ => getOrErrors_ne_panicked
  · nofun

theorem badUdpHeader_eq (pkt : List UInt8) :
    badUdpHeader pkt = .ok (decide (pkt.length < 4 ∨ pkt.take 3 ≠ [0, 0, 0])) := by
  unfold badUdpHeader
  split
  · rename_i hl
    rw [decide_eq_true (.inl hl)]
    rfl
  rename_i hl
  obtain ⟨a, b, c, rest, rfl⟩ : ∃ a b c rest, pkt = a :: b :: c :: rest := by
    rcases pkt with _ | ⟨a, _ | ⟨b, _ | ⟨c, rest⟩⟩⟩
    · simp at hl
    · simp at hl
    · simp at hl
    · exact ⟨a, b, c, rest, rfl⟩
  have hsl : slice (a :: b :: c :: rest) 0 2 = some [a, b] := slice_zero_eq_some_iff.mpr ⟨c :: rest, rfl, rfl⟩
  simp only [hsl, getOrPanic_some, bind, Except.bind, hl, false_or, getElem?_cons_succ,
    getElem?_cons_zero, take_succ_cons, take_zero]
  by_cases hz : [a, b] = [0, 0]
  · simp_all [pure, Except.pure]
  simp only [ne_eq, hz, not_false_eq_true, if_true]
  rw [decide_eq_true]
  · rfl
  grind

/-- The payload is what comes after the address. -/
theorem decodeUdpDatagramChecked_of_addressIn {s : List UInt8} {host : Str} {port : UInt16} {size : Nat}
    (h : AddressIn s host port size) :
    decodeUdpDatagramChecked txts ([0, 0, 0] ++ s) = .ok (formatHostPort host port, s.drop size) := by
  have ha : decodeAddressBytesChecked txts ([0, 0, 0] ++ s) 3 = .ok (host, port, 3 + size) :=
    withoutPanic_eq_ok_iff.mp (decodeAddressBytes_iff.mpr ⟨_, _, size, h, rfl⟩)
  have hle : 2 ≤ size ∧ size ≤ s.length := by
    obtain ⟨bs, portBytes, rest, rfl, -, hl, -, rfl⟩ := h
    simp only [length_append, hl]
    omega
  have hb : ¬ (([0, 0, 0] ++ s).length < 4 ∨ ([0, 0, 0] ++ s).take 3 ≠ [0, 0, 0]) := by
    simp
    omega
  have hsl : slice ([0, 0, 0] ++ s) (3 + size) ([0, 0, 0] ++ s).length = some (s.drop size) := by
    rw [length_append]
    exact (slice_append [0, 0, 0] s size s.length).trans (slice_length hle.2)
  rw [decodeUdpDatagramChecked, badUdpHeader_eq, decide_eq_false hb, ha]
  simp only [bind, Except.bind, hsl]
  rfl

theorem decodeUdpDatagramChecked_eq (pkt : List UInt8) :
    decodeUdpDatagramChecked txts pkt = (decodeUdpDatagram txts pkt).mapError .error := by
  refine eq_mapError_withoutPanic _ ?_
  by_cases hb : pkt.length < 4 ∨ pkt.take 3 ≠ [0, 0, 0]
  · rw [decodeUdpDatagramChecked, badUdpHeader_eq, decide_eq_true hb]
    nofun
  obtain ⟨s, rfl⟩ : ∃ s, pkt = [0, 0, 0] ++ s := by
    rw [not_or, not_not] at hb
    exact ⟨pkt.drop 3, by rw [← hb.2, take_append_drop]⟩
  rcases hd : decodeAddressBytesChecked txts ([0, 0, 0] ++ s) 3 with err | ⟨host, port, off⟩
  · have hne := decodeAddressBytesChecked_ne_panicked txts ([0, 0, 0] ++ s) 3
    rw [decodeUdpDatagramChecked, badUdpHeader_eq, decide_eq_false hb, hd]
    rw [hd] at hne
    exact fun h => hne (congrArg Except.error (Except.error.inj h))
  · obtain ⟨_, _, size, ha, ⟨⟩⟩ := decodeAddressBytes_iff.mp (withoutPanic_eq_ok_iff.mpr hd)
    rw [decodeUdpDatagramChecked_of_addressIn txts ha]
    nofun

/-! ## Addresses -/

/-- The bytes of an address are those of its host, whatever kind it is. -/
theorem hostBytes_ip (ip : IpAddr) : ∃ bs, HostBytes bs ip.display ∧
    ∀ port scopeId, encodeSocketAddress ⟨ip, port, scopeId⟩ = bs ++ beBytes 2 port.toNat := by
  cases ip with
  | v4 bits =>
    have hbs : HostBytes (1 :: beBytes 4 bits.toNat) _ := .v4 (length_beBytes 4 _)
    rw [beNat_beBytes (by omega), BitVec.ofNat_toNat, BitVec.setWidth_eq] at hbs
    exact ⟨_, hbs, fun _ _ => rfl⟩
  | v6 bits =>
    have hbs : HostBytes (4 :: beBytes 16 bits.toNat) _ := .v6 (length_beBytes 16 _)
    rw [beNat_beBytes (by omega), BitVec.ofNat_toNat, BitVec.setWidth_eq] at hbs
    exact ⟨_, hbs, fun _ _ => rfl⟩

theorem formatHostPort_display {a : SocketAddr} (h : a.scopeId = 0) :
    formatHostPort a.ip.display a.port = a.display := by
  obtain ⟨ip, port, scopeId⟩ := a
  cases h
  cases ip with
  | v4 bits =>
    have hp : (parseIpv6 (displayV4 bits)).isSome = false := by
      rw [Bool.eq_false_iff]
      intro h
      exact not_mem_displayV4 (by decide) (by decide) bits (colon_of_parseIpv6 h)
    simp [formatHostPort, IpAddr.display, SocketAddr.display, hp]
  | v6 bits => simp [formatHostPort, IpAddr.display, SocketAddr.display, parseIpv6_displayV6]

theorem decodeUdpDatagram_encode {a : SocketAddr} (h : a.scopeId = 0) (pay : List UInt8) :
    decodeUdpDatagram txts ([0, 0, 0] ++ encodeSocketAddress a ++ pay) = .ok (a.display, pay) := by
  obtain ⟨bs, hbs, he⟩ := hostBytes_ip a.ip
  have hd := decodeUdpDatagramChecked_of_addressIn txts
    (⟨bs, _, pay, rfl, hbs, length_beBytes 2 _, (ofNat_beNat_port a.port).symm, rfl⟩ : AddressIn _ _ _ _)
  rw [he, append_assoc, append_assoc, decodeUdpDatagram, withoutPanic_eq_ok_iff, hd, formatHostPort_display h,
    ← append_assoc, drop_left' (by simp)]

/-! ## Domains -/

/-- `http::uri::Authority` takes the domain as the host in front of the port. -/
structure AcceptedDomain (lib : Libraries) (domain : Str) (port : UInt16) : Prop where
  length_pos : 1 ≤ (utf8 domain).length
  length_le : (utf8 domain).length ≤ 255
  no_colon : ':' ∉ domain
  authority : lib.authority (domain ++ ':' :: showNat port.toNat) = .ok (domain, some port)

variable {lib : Libraries} {dom : Str} {port : UInt16}

/-- A domain that is an IPv4 address is written as one, any other as a domain. -/
theorem encodeAddress_domain (h : AcceptedDomain lib dom port) : ∃ bs, HostBytes bs dom ∧
      encodeAddress lib (dom ++ ':' :: showNat port.toNat) = .ok (bs ++ beBytes 2 port.toNat) := by
  have hp : parseHostPort lib (dom ++ ':' :: showNat port.toNat) = .ok (dom, port) := by
    rw [parseHostPort, h.authority]
  cases hip : parseIpAddr dom with
  | none =>
    have hlt : (utf8 dom).length < 2 ^ 8 := Nat.lt_succ_of_le h.length_le
    have hl : u8Len (utf8 dom).length = .ok (UInt8.ofNat (utf8 dom).length) := by
      rw [u8Len, u8TryFrom, if_pos hlt]
    have hb := UInt8.toNat_ofNat_of_lt' hlt
    refine ⟨_, .domain hb.symm (fromUtf8_utf8 dom), ?_⟩
    simp only [encodeAddress, hp, Except.mapError, hip, bind, Except.bind, hl, pure, Except.pure]
  | some ip =>
  cases ip with
  | v4 bits =>
    obtain ⟨bs, hbs, he⟩ := hostBytes_ip (.v4 bits)
    refine ⟨bs, ?_, ?_⟩
    · rw [eq_display_of_parseIpAddr hip]
      exact hbs
    rw [← he port 0]
    simp only [encodeAddress, hp, Except.mapError, hip, bind, Except.bind, pure, Except.pure]
    rfl
  | v6 bits => exact absurd (colon_of_parseIpAddr hip) h.no_colon

theorem decodeAddress_domain (h : AcceptedDomain lib dom port) (first rest : List UInt8) :
    ∃ bs, encodeAddress lib (dom ++ ':' :: showNat port.toNat) = .ok bs ∧
      decodeAddress (first ++ (bs ++ rest)) first.length =
        .ok (dom ++ ':' :: showNat port.toNat, first.length + bs.length) := by
  obtain ⟨bs, hbs, he⟩ := encodeAddress_domain h
  refine ⟨_, he, (decodeAddress_iff first).mpr ⟨dom, port, _, ⟨bs, beBytes 2 port.toNat, rest,
    append_assoc _ _ _, hbs, length_beBytes 2 _, (ofNat_beNat_port port).symm, rfl⟩, ?_⟩⟩
  rw [formatAuthority, if_neg fun hc => h.no_colon hc.1, length_append, length_beBytes]

/-! ## The round trips -/

/-- Addresses without a scope and their payloads are read back from the datagrams of the local
proxy, domains and ports from those of the outbound; and no decoder is ever out of bounds. -/
theorem socks5Datagrams_roundTrip (texts : RelayTexts) (lib : Libraries) :
    (∀ (a : SocketAddr) (payload : List UInt8), a.scopeId = 0 → ∃ packet,
      encodeUdpDatagram texts a.display payload = .ok packet ∧
      decodeUdpDatagram texts packet = .ok (a.display, payload)) ∧
    (∀ (domain : Str) (port : UInt16) (first rest : List UInt8), AcceptedDomain lib domain port → ∃ bytes,
      encodeAddress lib (domain ++ ':' :: showNat port.toNat) = .ok bytes ∧
      decodeAddress (first ++ (bytes ++ rest)) first.length =
        .ok (domain ++ ':' :: showNat port.toNat, first.length + bytes.length)) ∧
    (∀ packet, decodeUdpDatagramChecked texts packet = (decodeUdpDatagram texts packet).mapError .error) ∧
    (∀ packet offset, offset ≤ packet.length →
      decodeAddressBytesChecked texts packet offset = (decodeAddressBytes texts packet offset).mapError .error ∧
      decodeAddressChecked packet offset = (decodeAddress packet offset).mapError .error) := by
  refine ⟨?_, fun domain port first rest h => decodeAddress_domain h first rest, decodeUdpDatagramChecked_eq texts,
    fun packet offset _ => ⟨eq_mapError_withoutPanic _ (decodeAddressBytesChecked_ne_panicked texts packet offset),
      decodeAddressChecked_eq packet offset⟩⟩
  intro a payload h
  refine ⟨_, ?_, decodeUdpDatagram_encode texts h payload⟩
  rw [encodeUdpDatagram, parseSocketAddr_display h]

/-- Every address is that of `a.test`, port 80. -/
def oneDomain : Libraries where
  authority _ := .ok ("a.test", some 80)
  domainToUnicode host := host
  regex _ := .error []
  debug text := text

theorem socks5Datagrams_roundTrip_loopback :
    (∃ packet, encodeUdpDatagram quietRelay (SocketAddr.display ⟨.v6 1, 443, 0⟩) [7] = .ok packet ∧
      decodeUdpDatagram quietRelay packet = .ok (SocketAddr.display ⟨.v6 1, 443, 0⟩, [7])) ∧
    (∃ bytes, encodeAddress oneDomain ("a.test".toList ++ ':' :: showNat (80 : UInt16).toNat) = .ok bytes ∧
      decodeAddress ([0, 0, 0] ++ (bytes ++ [7])) 3 =
        .ok ("a.test".toList ++ ':' :: showNat (80 : UInt16).toNat, 3 + bytes.length)) ∧
    decodeAddressChecked [] 0 = (decodeAddress [] 0).mapError .error :=
  have h := socks5Datagrams_roundTrip quietRelay oneDomain
  ⟨h.1 ⟨.v6 1, 443, 0⟩ [7] rfl, h.2.1 "a.test" 80 [0, 0, 0] [7] (⟨by decide, by decide, by decide, rfl⟩) ,
    (h.2.2.2 [] 0 (by omega)).2⟩

end Hysteria.Proof
