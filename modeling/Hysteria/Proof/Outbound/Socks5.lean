import Hysteria.Framework.Fallible
import Hysteria.Spec.Proxy

/-!
# SOCKS5 UDP packets are read as written

`socks5RecvFrom_iff`: `recv_from` accepts the packets of the specification
whose payload fits the buffer, and no others.
-/

namespace Hysteria.Proof

open Framework Impl Spec List

variable {host addr : Str} {bytes pkt pay : List UInt8}

theorem hostBytes_cons {kind : UInt8} : HostBytes (kind :: bytes) host ↔
      (kind = 1 ∧ bytes.length = 4 ∧ host = (IpAddr.v4 (BitVec.ofNat 32 (beNat bytes))).display) ∨
      (kind = 4 ∧ bytes.length = 16 ∧ host = (IpAddr.v6 (BitVec.ofNat 128 (beNat bytes))).display) ∨
      (kind = 3 ∧ ∃ len name, bytes = len :: name ∧ name.length = len.toNat ∧ fromUtf8 name = some host) := by
  constructor
  · intro h
    cases h with
    | v4 hl => exact .inl ⟨rfl, hl, rfl⟩
    | v6 hl => exact .inr (.inl ⟨rfl, hl, rfl⟩)
    | domain hl hn => grind
  · rintro (⟨rfl, hl, rfl⟩ | ⟨rfl, hl, rfl⟩ | ⟨rfl, len, name, rfl, hl, hn⟩)
    · exact .v4 hl
    · exact .v6 hl
    · exact .domain hl hn

/-- The bytes after the first one, as far as they go. -/
theorem slice_one {n : Nat} {first : UInt8} {part rest : List UInt8} :
    slice (first :: rest) 1 (1 + n) = some part ↔ ∃ after, rest = part ++ after ∧ part.length = n := by
  rw [Nat.add_comm, slice_cons first rest 0 n, slice_zero_eq_some_iff]

/-- A host is read from the bytes at the offset that encode it, whatever follows. -/
theorem decodeHostChecked_iff {off : Nat} (first : List UInt8) :
    decodeHostChecked (first ++ pkt) first.length = .ok (host, off) ↔
      ∃ bytes rest, pkt = bytes ++ rest ∧ HostBytes bytes host ∧ off = first.length + bytes.length := by
  have hg : ∀ i, (first ++ pkt)[first.length + i]? = pkt[i]? := fun i => by
    grind
  rw [decodeHostChecked, show (first ++ pkt)[first.length]? = pkt[0]? from hg 0]
  simp only [hg, slice_append, Nat.add_assoc]
  constructor
  · intro h
    obtain ⟨kind, hk, h⟩ := bind_eq_ok h
    obtain ⟨rest, rfl⟩ : ∃ rest, pkt = kind :: rest := by
      rw [getOrError_eq_ok_iff] at hk
      cases pkt <;> simp_all
    split at h
    · obtain ⟨octets, hsl, ⟨⟩⟩ := (array_eq_ok_iff (n := 4)).mp h
      obtain ⟨after, rfl, hl⟩ := slice_one.mp hsl
      exact ⟨kind :: octets, after, rfl, hostBytes_cons.mpr (.inl ⟨‹_›, hl, rfl⟩), by rw [length_cons, hl]⟩
    split at h
    · obtain ⟨octets, hsl, ⟨⟩⟩ := (array_eq_ok_iff (n := 16)).mp h
      obtain ⟨after, rfl, hl⟩ := slice_one.mp hsl
      exact ⟨kind :: octets, after, rfl, hostBytes_cons.mpr (.inr (.inl ⟨‹_›, hl, rfl⟩)), by rw [length_cons, hl]⟩
    split at h <;> [skip; cases h]
    obtain ⟨len, hlen, h⟩ := bind_eq_ok h
    obtain ⟨name, hsl, h⟩ := bind_eq_ok h
    obtain ⟨text, ht, h⟩ := bind_eq_ok h
    rw [getOrError_eq_ok_iff] at hlen hsl ht
    cases h
    obtain ⟨rest, rfl⟩ : ∃ tail, rest = len :: tail := by cases rest <;> simp_all
    rw [show 2 + len.toNat = 1 + len.toNat + 1 by omega, slice_cons, slice_one] at hsl
    obtain ⟨after, rfl, hl⟩ := hsl
    refine ⟨kind :: len :: name, after, rfl, hostBytes_cons.mpr (.inr (.inr ⟨‹_›, len, name, rfl, hl, ht⟩)), ?_⟩
    rw [length_cons, length_cons, hl]
    omega
  · rintro ⟨bytes, after, rfl, hbs, rfl⟩
    cases hbs with
    | v4 hl | v6 hl =>
      exact array_eq_ok_iff.mpr ⟨_, slice_one.mpr ⟨after, rfl, hl⟩, by rw [length_cons, hl]⟩
    | @domain len name _ hl hn =>
      have hsl : slice (3 :: len :: (name ++ after)) 2 (2 + len.toNat) = some name := by
        rw [show 2 + len.toNat = 1 + len.toNat + 1 by omega, slice_cons, slice_one]
        exact ⟨after, rfl, hl⟩
      simp [hsl, hn, hl, bind, Except.bind, pure, Except.pure]
      omega

theorem slice_port {first rest port : List UInt8} :
    slice (first ++ (bytes ++ rest)) (first.length + bytes.length) (first.length + bytes.length + 2) = some port ↔
      ∃ pay, rest = port ++ pay ∧ port.length = 2 := by
  have hsl := slice_append (first ++ bytes) rest 0 2
  rw [append_assoc, length_append, Nat.add_zero] at hsl
  rw [hsl, slice_zero_eq_some_iff]

theorem ofNat_beNat_port (port : UInt16) : UInt16.ofNat (beNat (beBytes 2 port.toNat)) = port := by
  rw [beNat_beBytes (Nat.lt_of_lt_of_le port.toNat_lt (by decide)), UInt16.ofNat_toNat]

/-- A decoder of hosts, and then of the port. -/
theorem decodePort_iff {ε α : Type} {truncated invalid : ε} {f : Str → UInt16 → Nat → α} {x : α}
    {decoded : Except (Failure ε) (Str × Nat)} {first : List UInt8} (h : ∀ {host off}, decoded = .ok (host, off) ↔
      ∃ bytes rest, pkt = bytes ++ rest ∧ HostBytes bytes host ∧ off = first.length + bytes.length) :
    (do
      let (host, portOffset) ← decoded
      let port ← getOrError (slice (first ++ pkt) portOffset (portOffset + 2)) truncated
      let port ← getOrError (arrayFrom 2 port) invalid
      return f host (UInt16.ofNat (beNat port)) (portOffset + 2)) = .ok x ↔
    ∃ host port size, AddressIn pkt host port size ∧ x = f host port (first.length + size) := by
  constructor
  · intro hd
    obtain ⟨⟨host, portOffset⟩, hh, hd⟩ := bind_eq_ok hd
    obtain ⟨bytes, rest, rfl, hbs, rfl⟩ := h.mp hh
    obtain ⟨port, hsl, rfl⟩ := array_eq_ok_iff.mp hd
    obtain ⟨pay, rfl, hl⟩ := slice_port.mp hsl
    exact ⟨host, _, _, ⟨bytes, port, pay, rfl, hbs, hl, rfl, rfl⟩, by rw [Nat.add_assoc]⟩
  · rintro ⟨host, _, _, ⟨bytes, port, rest, rfl, hbs, hl, rfl, rfl⟩, rfl⟩
    rw [h.mpr ⟨bytes, port ++ rest, rfl, hbs, rfl⟩, ← Nat.add_assoc]
    exact array_eq_ok_iff.mpr ⟨port, slice_port.mpr ⟨rest, rfl, hl⟩, rfl⟩

theorem decodeAddress_iff {decoded : Str × Nat} (first : List UInt8) :
    decodeAddress (first ++ pkt) first.length = .ok decoded ↔ ∃ host port size, AddressIn pkt host port size ∧
      decoded = (formatAuthority host port, first.length + size) :=
  withoutPanic_eq_ok_iff.trans
    (decodePort_iff (f := fun host port off => (formatAuthority host port, off)) (decodeHostChecked_iff first))

theorem drop_header {port : List UInt8} (hp : port.length = 2) :
    (0 :: 0 :: 0 :: (bytes ++ (port ++ pay))).drop (3 + (bytes.length + 2)) = pay := by
  rw [← append_assoc, ← cons_append, ← cons_append, ← cons_append]
  apply drop_left'
  grind

/-- `recv_from` returns what the packet carries, if it fits. -/
theorem socks5RecvFrom_iff {bufferLen : Nat} {src : Str} (hl : pkt.length ≤ maxUdpSize + 262) :
    socks5RecvFrom bufferLen pkt = .ok (pay, src) ↔
      UdpPacket pkt pay src ∧ pay.length ≤ bufferLen := by
  unfold socks5RecvFrom
  rw [take_of_length_le hl]
  constructor
  · intro h
    simp only at h
    split at h <;> [cases h; skip]
    rename_i hh
    rw [not_or, not_not] at hh
    obtain ⟨rest, rfl⟩ : ∃ rest, pkt = 0 :: 0 :: 0 :: rest := ⟨pkt.drop 3, by
      rw [← take_append_drop 3 pkt, hh.2]
      rfl⟩
    split at h <;> [cases h; skip]
    rename_i addr off ha
    obtain ⟨host, _, _, ⟨bytes, port, rest, rfl, hbs, hp, rfl, rfl⟩, ⟨⟩⟩ := (decodeAddress_iff [0, 0, 0]).mp ha
    split at h <;> [cases h; skip]
    rw [show [(0 : UInt8), 0, 0].length = 3 from rfl, drop_header hp] at h
    split at h <;> [cases h; skip]
    rename_i hf
    cases h
    exact ⟨⟨bytes, host, port, hbs, hp, rfl, rfl⟩, Nat.le_of_not_lt hf⟩
  · rintro ⟨⟨bytes, host, port, hbs, hp, rfl, rfl⟩, hf⟩
    have ha : decodeAddress (0 :: 0 :: 0 :: (bytes ++ (port ++ pay))) 3 =
        .ok (formatAuthority host (UInt16.ofNat (beNat port)), 3 + (bytes.length + 2)) :=
      (decodeAddress_iff [0, 0, 0]).mpr ⟨host, _, _, ⟨bytes, port, pay, rfl, hbs, hp, rfl, rfl⟩, rfl⟩
    have hps : 0 < bytes.length := by cases hbs <;> simp
    simp only
    rw [if_neg (by simp; omega), ha]
    simp only
    rw [if_neg (by simp [hp]; omega), drop_header hp, if_neg (by omega)]

end Hysteria.Proof
