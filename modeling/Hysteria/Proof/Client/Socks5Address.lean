import Hysteria.Framework.IpText
import Hysteria.Impl.Client.Socks5
import Hysteria.Proof.Outbound.Socks5

/-!
# The four decoders of a SOCKS5 address

`readAddress` and `readSocksReply` read from a stream, `decodeAddressBytes` and
`decodeAddress` from a datagram. Each takes the addresses of the specification
(`clientStream_eq`, `clientDatagram_eq`, `proxyReply_eq`, `proxyDatagram_eq`); they
differ in the empty domain, which `readAddress` refuses, and in the brackets around
a host with a colon (`formatHostPort_eq_iff`).
-/

namespace Hysteria.Proof

open Framework Impl Spec StreamReader List

variable {s rest : List UInt8} {host : Str}
variable {bs : List UInt8} {host' : Str} {port : UInt16} {n val : Nat} {ε : Type}

/-! ## The bytes of a host -/

theorem hostBytes_ne_nil (h : HostBytes bs host) : bs ≠ [] := by
  cases h <;> nofun

theorem display_ne_nil (ip : IpAddr) : ip.display ≠ [] := by
  cases ip with
  | v4 bits => simp [IpAddr.display, displayV4]
  | v6 bits => exact ne_nil_of_mem (colon_mem_displayV6 bits)

theorem domain_eq_nil {name : List UInt8} (h : fromUtf8 name = some host) : host = [] ↔ name.length = 0 := by
  rw [length_eq_zero_iff]
  constructor
  · rintro rfl
    exact eq_nil_of_fromUtf8 h
  rintro rfl
  cases h
  rfl

/-- A text starts with the bytes of one host at most. -/
theorem hostBytes_unique {bs' rest' : List UInt8} (h : HostBytes bs host)
    (h' : HostBytes bs' host') (heq : bs ++ rest = bs' ++ rest') : bs = bs' ∧ host = host' := by
  have hr := (decodeHostChecked_iff []).mpr ⟨bs, rest, rfl, h, rfl⟩
  rw [heq, (decodeHostChecked_iff []).mpr ⟨bs', rest', rfl, h', rfl⟩] at hr
  grind [append_inj]

theorem addressIn_unique {port' : UInt16} {size size' : Nat} (h : AddressIn s host port size)
    (h' : AddressIn s host' port' size') : host = host' ∧ port = port' ∧ size = size' := by
  obtain ⟨bs, portBytes, rest, rfl, hbs, hl, rfl, rfl⟩ := h
  obtain ⟨bs', portBytes', rest', heq, hbs', hlen', rfl, rfl⟩ := h'
  obtain ⟨rfl, rfl⟩ := hostBytes_unique hbs hbs' heq
  have hp := append_inj (append_cancel_left heq) (hl.trans hlen'.symm)
  exact ⟨rfl, by rw [hp.1], rfl⟩

/-! ## Readers -/

section Readers

variable (texts : StreamTexts)

theorem run_readInt : (readInt texts n).run s = .ok (val, rest) ↔
      ∃ bs, bs.length = n ∧ s = bs ++ rest ∧ val = beNat bs := by
  rw [readInt, run_readExact_ok_iff]
  constructor
  · rintro ⟨bs, mid, hl, rfl, ⟨⟩⟩
    exact ⟨bs, hl, rfl, rfl⟩
  · rintro ⟨bs, hl, rfl, rfl⟩
    exact ⟨bs, rest, hl, rfl, rfl⟩

theorem run_readInt_one : (readInt texts 1).run s = .ok (val, rest) ↔ ∃ b : UInt8, s = b :: rest ∧ val = b.toNat := by
  rw [run_readInt]
  constructor
  · rintro ⟨bs, hl, rfl, rfl⟩
    obtain ⟨b, rfl⟩ := length_eq_one_iff.mp hl
    exact ⟨b, rfl, by simp [beNat]⟩
  · rintro ⟨b, rfl, rfl⟩
    exact ⟨[b], rfl, rfl, by simp [beNat]⟩

theorem run_octets {early : Nat → ε} {f : List UInt8 → Str} :
    (StreamReader.readExact n early .pure >>= fun os => (Pure.pure (f os) : StreamReader ε Str)).run s =
        .ok (host, rest) ↔
      ∃ os, os.length = n ∧ s = os ++ rest ∧ f os = host := by
  rw [run_bind_ok_iff]
  constructor
  · rintro ⟨os, mid, hr, hp⟩
    obtain ⟨hl, rfl⟩ := run_readExact_pure.mp hr
    obtain ⟨rfl, rfl⟩ := run_pure.mp hp
    exact ⟨os, hl, rfl, rfl⟩
  · rintro ⟨os, hl, rfl, rfl⟩
    exact ⟨os, rest, run_readExact_pure.mpr ⟨hl, rfl⟩, rfl⟩

/-- A domain is read by its length and then checked to be UTF-8. -/
theorem run_domain {early : Nat → ε} {invalid : List UInt8 → ε} :
    (StreamReader.readExact n early .pure >>= fun name =>
      match fromUtf8 name with
      | none => .fail (invalid name)
      | some dom => (Pure.pure dom : StreamReader ε Str)).run s = .ok (host, rest) ↔
      ∃ name, name.length = n ∧ s = name ++ rest ∧ fromUtf8 name = some host := by
  rw [run_bind_ok_iff]
  constructor
  · rintro ⟨name, mid, hr, hc⟩
    obtain ⟨hl, rfl⟩ := run_readExact_pure.mp hr
    split at hc <;> cases hc
    exact ⟨name, hl, rfl, ‹_›⟩
  · rintro ⟨name, hl, rfl, hn⟩
    refine ⟨name, rest, run_readExact_pure.mpr ⟨hl, rfl⟩, ?_⟩
    rw [hn]
    rfl

/-- `read_address` takes any host but the empty domain. -/
theorem run_readHost : (readHost texts).run s = .ok (host, rest) ↔
    ∃ bs, s = bs ++ rest ∧ HostBytes bs host ∧ host ≠ [] := by
  rw [readHost, run_bind_ok_iff]
  constructor
  · rintro ⟨_, mid, hk, h⟩
    obtain ⟨kind, rfl, rfl⟩ := (run_readInt_one texts).mp hk
    split at h
    · rename_i ho
      obtain ⟨os, hl, rfl, rfl⟩ := run_octets.mp h
      exact ⟨kind :: os, rfl, hostBytes_cons.mpr (.inl ⟨UInt8.toNat_inj.mp ho, hl, rfl⟩), display_ne_nil _⟩
    split at h
    · rename_i hf
      obtain ⟨os, hl, rfl, rfl⟩ := run_octets.mp h
      exact ⟨kind :: os, rfl, hostBytes_cons.mpr (.inr (.inl ⟨UInt8.toNat_inj.mp hf, hl, rfl⟩)), display_ne_nil _⟩
    split at h
    · rename_i ht
      obtain ⟨_, mid, hr, h⟩ := run_bind_ok h
      obtain ⟨len, rfl, rfl⟩ := (run_readInt_one texts).mp hr
      split at h
      · cases h
      rename_i hp
      obtain ⟨name, hl, rfl, hn⟩ := run_domain.mp h
      refine ⟨kind :: len :: name, rfl,
        hostBytes_cons.mpr (.inr (.inr ⟨UInt8.toNat_inj.mp ht, len, name, rfl, hl, hn⟩)), ?_⟩
      rwa [ne_eq, domain_eq_nil hn, hl]
    · cases h
  · rintro ⟨bs, rfl, hbs, hne⟩
    cases hbs with
    | v4 hl | v6 hl =>
      rename_i os
      exact ⟨_, os ++ rest, (run_readInt_one texts).mpr ⟨_, rfl, rfl⟩, run_octets.mpr ⟨os, hl, rfl, rfl⟩⟩
    | domain hl hn =>
      rename_i len name
      rw [ne_eq, domain_eq_nil hn, hl] at hne
      refine ⟨3, len :: (name ++ rest), (run_readInt_one texts).mpr ⟨3, rfl, rfl⟩, run_bind_ok_iff.mpr
        ⟨len.toNat, name ++ rest, (run_readInt_one texts).mpr ⟨len, rfl, rfl⟩, ?_⟩⟩
      rw [if_neg hne]
      exact run_domain.mpr ⟨name, hl, rfl, hn⟩

theorem run_readReplyHost {atyp : UInt8} : (readReplyHost texts atyp).run s = .ok (host, rest) ↔
    ∃ bs, s = bs ++ rest ∧ HostBytes (atyp :: bs) host := by
  rw [readReplyHost]
  constructor
  · intro h
    split at h
    · rename_i ho
      obtain ⟨os, hl, rfl, rfl⟩ := run_octets.mp h
      exact ⟨os, rfl, hostBytes_cons.mpr (.inl ⟨ho, hl, rfl⟩)⟩
    split at h
    · rename_i hf
      obtain ⟨os, hl, rfl, rfl⟩ := run_octets.mp h
      exact ⟨os, rfl, hostBytes_cons.mpr (.inr (.inl ⟨hf, hl, rfl⟩))⟩
    split at h
    · rename_i ht
      obtain ⟨_, mid, hr, h⟩ := run_bind_ok h
      obtain ⟨ho, rfl⟩ := run_readExact_pure.mp hr
      obtain ⟨len, rfl⟩ := length_eq_one_iff.mp ho
      obtain ⟨name, hl, rfl, hn⟩ := (run_domain (n := len.toNat)).mp h
      exact ⟨len :: name, rfl, hostBytes_cons.mpr (.inr (.inr ⟨ht, len, name, rfl, hl, hn⟩))⟩
    · cases h
  · rintro ⟨bs, rfl, hbs⟩
    cases hbs with
    | v4 hl | v6 hl => exact run_octets.mpr ⟨_, hl, rfl, rfl⟩
    | domain hl hn =>
      rename_i len name
      refine run_bind_ok_iff.mpr ⟨[len], name ++ rest, run_readExact_pure.mpr ⟨rfl, rfl⟩, ?_⟩
      exact run_domain.mpr ⟨name, hl, rfl, hn⟩

end Readers

/-! ## What each decoder makes of an address -/

section Views

variable (texts : StreamTexts) (relayTexts : RelayTexts) (first : List UInt8)

/-- The text that `read_address` returns, and how many bytes it takes from the stream. -/
def clientStream (s : List UInt8) : Option (Str × Nat) :=
  ((readAddress texts).run s).toOption.map fun (address, rest) => (address, s.length - rest.length)

/-- `decode_address_bytes` after the bytes `first`, with the text that `decode_udp_datagram` makes of it. -/
def clientDatagram (s : List UInt8) : Option (Str × Nat) :=
  (decodeAddressBytes relayTexts (first ++ s) first.length).toOption.map fun (host, port, offset) =>
    (formatHostPort host port, offset - first.length)

/-- `read_socks_reply` after the first bytes of a successful reply. -/
def proxyReply (s : List UInt8) : Option (Str × Nat) :=
  ((readSocksReply texts).run (5 :: 0 :: 0 :: s)).toOption.map fun (address, rest) => (address, s.length - rest.length)

/-- `decode_address` after the bytes `first`. -/
def proxyDatagram (s : List UInt8) : Option (Str × Nat) :=
  (decodeAddress (first ++ s) first.length).toOption.map fun (address, offset) => (address, offset - first.length)

variable {texts relayTexts first} {address : Str} {size : Nat}

theorem toOption_map_eq_some {α β : Type} {x : Except ε α} {f : α → β} {b : β} :
    x.toOption.map f = some b ↔ ∃ a, x = .ok a ∧ f a = b := by
  cases x <;> simp [Except.toOption]

theorem clientStream_eq : clientStream texts s = some (address, size) ↔
    ∃ host port, AddressIn s host port size ∧ host ≠ [] ∧ formatHostPort host port = address := by
  rw [clientStream, toOption_map_eq_some]
  constructor
  · rintro ⟨⟨_, rest⟩, hr, ⟨⟩⟩
    obtain ⟨host, mid, hh, h⟩ := run_bind_ok hr
    obtain ⟨port, mid', hp, h⟩ := run_bind_ok h
    obtain ⟨rfl, rfl⟩ := run_pure.mp h
    obtain ⟨bs, rfl, hbs, hne⟩ := (run_readHost texts).mp hh
    obtain ⟨portBytes, hl, rfl, rfl⟩ := (run_readInt texts).mp hp
    refine ⟨host, _, ⟨bs, portBytes, mid', rfl, hbs, hl, rfl, ?_⟩, hne, rfl⟩
    simp only [length_append]
    omega
  · rintro ⟨host, _, ⟨bs, portBytes, rest, rfl, hbs, hl, rfl, rfl⟩, hne, rfl⟩
    refine ⟨(formatHostPort host (UInt16.ofNat (beNat portBytes)), rest), ?_, ?_⟩
    · exact run_bind_ok_iff.mpr ⟨host, portBytes ++ rest, (run_readHost texts).mpr ⟨bs, rfl, hbs, hne⟩,
        run_bind_ok_iff.mpr ⟨beNat portBytes, rest, (run_readInt texts).mpr ⟨portBytes, hl, rfl, rfl⟩, rfl⟩⟩
    grind

theorem proxyReply_eq : proxyReply texts s = some (address, size) ↔
    ∃ host port, AddressIn s host port size ∧ formatAuthority host port = address := by
  rw [proxyReply, toOption_map_eq_some]
  constructor
  · rintro ⟨⟨_, rest⟩, hr, ⟨⟩⟩
    cases s with
    | nil => cases hr
    | cons atyp s =>
    obtain ⟨host, mid, hh, h⟩ := run_bind_ok (r := readReplyHost texts atyp) hr
    obtain ⟨port, mid', hp, h⟩ := run_bind_ok h
    obtain ⟨rfl, rfl⟩ := run_pure.mp h
    obtain ⟨bs, rfl, hbs⟩ := (run_readReplyHost texts).mp hh
    obtain ⟨hl, rfl⟩ := run_readExact_pure.mp hp
    refine ⟨host, _, ⟨atyp :: bs, port, mid', rfl, hbs, hl, rfl, ?_⟩, rfl⟩
    grind
  · rintro ⟨host, _, ⟨bs, port, rest, rfl, hbs, hl, rfl, rfl⟩, rfl⟩
    obtain ⟨atyp, bs, rfl⟩ := exists_cons_of_ne_nil (hostBytes_ne_nil hbs)
    refine ⟨(formatAuthority host (UInt16.ofNat (beNat port)), rest), ?_, ?_⟩
    · show (readReplyHost texts atyp >>= _).run (bs ++ (port ++ rest)) = _
      exact run_bind_ok_iff.mpr ⟨host, port ++ rest, (run_readReplyHost texts).mpr ⟨bs, rfl, hbs⟩,
        run_bind_ok_iff.mpr ⟨port, rest, run_readExact_pure.mpr ⟨hl, rfl⟩, rfl⟩⟩
    grind

theorem toOption_decodeHostBytes (pkt : List UInt8) (off : Nat) :
    (decodeHostBytesChecked relayTexts pkt off).toOption = (decodeHostChecked pkt off).toOption := by
  simp only [decodeHostBytesChecked, decodeHostChecked, toOption_bind, toOption_getOrError, toOption_getOrPanic,
    apply_ite Except.toOption]
  refine congrArg _ (funext fun kind => ?_)
  split
  · refine Option.bind_congr fun bs hbs => ?_
    rw [arrayFrom_of_slice hbs]
    obtain ⟨a, b, c, d, rfl⟩ := length_eq_four.mp (length_of_slice hbs)
    rfl
  · rfl

theorem decodeAddressBytes_iff {pkt : List UInt8} {decoded : Str × UInt16 × Nat} :
    decodeAddressBytes relayTexts (first ++ pkt) first.length = .ok decoded ↔
      ∃ host port size, AddressIn pkt host port size ∧ decoded = (host, port, first.length + size) :=
  withoutPanic_eq_ok_iff.trans (decodePort_iff (f := fun host port off => (host, port, off))
    ((ok_iff_of_toOption (toOption_decodeHostBytes _ _)).trans (decodeHostChecked_iff first)))

theorem clientDatagram_eq : clientDatagram relayTexts first s = some (address, size) ↔
    ∃ host port, AddressIn s host port size ∧ formatHostPort host port = address := by
  rw [clientDatagram, toOption_map_eq_some]
  constructor
  · rintro ⟨_, hr, ⟨⟩⟩
    obtain ⟨host, port, size, ha, rfl⟩ := decodeAddressBytes_iff.mp hr
    grind
  · rintro ⟨host, port, ha, rfl⟩
    exact ⟨_, decodeAddressBytes_iff.mpr ⟨host, port, size, ha, rfl⟩, by simp only [Nat.add_sub_cancel_left]⟩

theorem proxyDatagram_eq : proxyDatagram first s = some (address, size) ↔
    ∃ host port, AddressIn s host port size ∧ formatAuthority host port = address := by
  rw [proxyDatagram, toOption_map_eq_some]
  constructor
  · rintro ⟨_, hr, ⟨⟩⟩
    obtain ⟨host, port, size, ha, rfl⟩ := (decodeAddress_iff first).mp hr
    grind
  · rintro ⟨host, port, ha, rfl⟩
    exact ⟨_, (decodeAddress_iff first).mpr ⟨host, port, size, ha, rfl⟩, by simp only [Nat.add_sub_cancel_left]⟩

end Views

/-! ## Where they agree -/

theorem head_ne_bracket_of_parseIpv6 (h : (parseIpv6 host).isSome = true) : host.head? ≠ some '[' := by
  rcases host with _ | ⟨c, host⟩
  · nofun
  · rintro ⟨⟩
    cases h

theorem formatHostPort_eq_iff (host : Str) (port : UInt16) : formatHostPort host port = formatAuthority host port ↔
    ¬ (':' ∈ host ∧ host.head? ≠ some '[' ∧ parseIpv6 host = none) := by
  cases hp : parseIpv6 host with
  | some bits =>
    have hs : (parseIpv6 host).isSome = true := by rw [hp]; rfl
    rw [formatHostPort, formatAuthority, if_pos hs, if_pos ⟨colon_of_parseIpv6 hs, head_ne_bracket_of_parseIpv6 hs⟩]
    simp
  | none =>
    have hn : ¬ (parseIpv6 host).isSome = true := by rw [hp]; nofun
    rw [formatHostPort, formatAuthority, if_neg hn]
    by_cases hc : ':' ∈ host ∧ host.head? ≠ some '['
    · rw [if_pos hc]
      refine iff_of_false (fun heq => ?_) (fun h => h ⟨hc.1, hc.2, rfl⟩)
      have hl := congrArg length heq
      simp at hl
      omega
    grind

variable (texts : StreamTexts) (relayTexts : RelayTexts) (first : List UInt8)

/-- All four take `s` or none does, and they return the same text and take the same bytes. -/
def DecodersAgree (s : List UInt8) : Prop := clientStream texts s = clientDatagram relayTexts first s ∧
    clientDatagram relayTexts first s = proxyReply texts s ∧ proxyReply texts s = proxyDatagram first s

theorem decodersAgree_iff_of_addressIn {size : Nat} (h : AddressIn s host port size) :
    DecodersAgree texts relayTexts first s ↔ host ≠ [] ∧ formatHostPort host port = formatAuthority host port := by
  have hd : clientDatagram relayTexts first s = some (formatHostPort host port, size) :=
    clientDatagram_eq.mpr ⟨host, port, h, rfl⟩
  have hr : proxyReply texts s = some (formatAuthority host port, size) := proxyReply_eq.mpr ⟨host, port, h, rfl⟩
  have hp : proxyDatagram first s = some (formatAuthority host port, size) :=
    proxyDatagram_eq.mpr ⟨host, port, h, rfl⟩
  rw [DecodersAgree, hd, hr, hp, clientStream_eq]
  constructor
  · rintro ⟨⟨host', port', h', hne, -⟩, hf, -⟩
    obtain ⟨rfl, -, -⟩ := addressIn_unique h h'
    grind
  grind

theorem decodersAgree_of_not_addressIn (h : ¬ ∃ host port size, AddressIn s host port size) :
    DecodersAgree texts relayTexts first s := by
  have hn : ∀ {x : Option (Str × Nat)}, (∀ address size, x = some (address, size) →
      ∃ host port, AddressIn s host port size) → x = none := by
    intro x hx
    rcases x with _ | res
    · rfl
    grind
  have hs : clientStream texts s = none := hn fun address size heq =>
    have ⟨host, port, ha, _⟩ := clientStream_eq.mp heq
    ⟨host, port, ha⟩
  have hd : clientDatagram relayTexts first s = none := hn fun address size heq =>
    have ⟨host, port, ha, _⟩ := clientDatagram_eq.mp heq
    ⟨host, port, ha⟩
  have hr : proxyReply texts s = none := hn fun address size heq =>
    have ⟨host, port, ha, _⟩ := proxyReply_eq.mp heq
    ⟨host, port, ha⟩
  have hp : proxyDatagram first s = none := hn fun address size heq =>
    have ⟨host, port, ha, _⟩ := proxyDatagram_eq.mp heq
    ⟨host, port, ha⟩
  grind [DecodersAgree]

/-- The decoders agree on every byte string but the disputed ones. -/
theorem addressDecoders_agree_iff (s : List UInt8) : DecodersAgree texts relayTexts first s ↔ ¬ Disputed s := by
  by_cases h : ∃ host port size, AddressIn s host port size
  · obtain ⟨host, port, size, ha⟩ := h
    rw [decodersAgree_iff_of_addressIn texts relayTexts first ha, formatHostPort_eq_iff, ← not_or, not_iff_not]
    constructor
    · exact fun h => ⟨host, port, size, ha, h⟩
    rintro ⟨host', port', size', haddr', h⟩
    grind [addressIn_unique]
  · refine iff_of_true (decodersAgree_of_not_addressIn texts relayTexts first h) ?_
    rintro ⟨host, port, size, ha, -⟩
    exact h ⟨host, port, size, ha⟩

def quietStream : StreamTexts := ⟨[], fun _ => [], fun _ => []⟩

def quietRelay : RelayTexts := ⟨fun _ => [], fun s => s⟩

/-- The empty domain with port 80, and the domain `a:b` with port 80. -/
theorem addressDecoders_disagree : (clientStream quietStream [3, 0, 0, 80] = none ∧
      proxyDatagram [] [3, 0, 0, 80] = some (":80".toList, 4)) ∧
    clientDatagram quietRelay [] [3, 3, 97, 58, 98, 0, 80] = some ("a:b:80".toList, 7) ∧
      proxyDatagram [] [3, 3, 97, 58, 98, 0, 80] = some ("[a:b]:80".toList, 7) := by
  refine ⟨⟨rfl, rfl⟩, rfl, rfl⟩

end Hysteria.Proof
