import Hysteria.Framework.Checked
import Hysteria.Framework.Ip
import Hysteria.Impl.Transport.TcpStream

/-!
# Addresses at the local SOCKS5 proxy

`hysteria`, `socks5.rs`: the address of a request, read from the stream of an
application (`readAddress`), and the codec of its datagrams, in which an index out
of range is a panic.
-/

namespace Hysteria.Impl

open Framework

def formatHostPort (host : Str) (port : UInt16) : Str :=
  if (parseIpv6 host).isSome then '[' :: host ++ "]:" ++ showNat port.toNat
  else host ++ ':' :: showNat port.toNat

section Stream

variable (texts : StreamTexts)

/-- Code that awaits the stream of an application. -/
abbrev ReadClient := StreamReader Str

/-- `read_u8` and `read_u16`. -/
def readInt (n : Nat) : ReadClient Nat := .readExact n (fun _ => texts.unexpectedEof) fun bytes => .pure (beNat bytes)

def readBytes (n : Nat) : ReadClient (List UInt8) := .readExact n texts.finishedEarly .pure

def readHost : ReadClient Str := do
  let kind ← readInt texts 1
  if kind = 1 then do
    let octets ← readBytes texts 4
    return (IpAddr.v4 (BitVec.ofNat 32 (beNat octets))).display
  else if kind = 4 then do
    let octets ← readBytes texts 16
    return (IpAddr.v6 (BitVec.ofNat 128 (beNat octets))).display
  else if kind = 3 then do
    let length ← readInt texts 1
    if length = 0 then .fail "empty SOCKS5 domain"
    else do
      let domain ← readBytes texts length
      match fromUtf8 domain with
      | none => .fail (texts.invalidUtf8 domain)
      | some domain => return domain
  else .fail "unsupported SOCKS5 address type"

def readAddress : ReadClient Str := do
  let host ← readHost texts
  let port ← readInt texts 2
  return formatHostPort host (UInt16.ofNat port)

end Stream

/-! ## Datagrams -/

structure RelayTexts where
  /-- The error of `from_utf8`. -/
  invalidUtf8 : List UInt8 → Str
  /-- `{:?}` of a string. -/
  debug : Str → Str

variable (texts : RelayTexts)

/-- The host of `decode_address_bytes`. The octets of an IPv4 address are taken by index. -/
def decodeHostBytesChecked (packet : List UInt8) (offset : Nat) : Except (Failure Str) (Str × Nat) := do
  let kind ← getOrError packet[offset]? "truncated SOCKS5 address"
  let start := offset + 1
  if kind = 1 then do
    let bytes ← getOrError (slice packet start (start + 4)) "truncated SOCKS5 IPv4 address"
    let a ← getOrPanic bytes[0]?
    let b ← getOrPanic bytes[1]?
    let c ← getOrPanic bytes[2]?
    let d ← getOrPanic bytes[3]?
    return ((IpAddr.v4 (BitVec.ofNat 32 (beNat [a, b, c, d]))).display, start + 4)
  else if kind = 4 then do
    let bytes ← getOrError (slice packet start (start + 16)) "truncated SOCKS5 IPv6 address"
    let bytes ← getOrError (arrayFrom 16 bytes) "invalid SOCKS5 IPv6 address"
    return ((IpAddr.v6 (BitVec.ofNat 128 (beNat bytes))).display, start + 16)
  else if kind = 3 then do
    let length ← getOrError packet[start]? "truncated SOCKS5 domain"
    let bytes ← getOrError (slice packet (start + 1) (start + 1 + length.toNat)) "truncated SOCKS5 domain"
    let domain ← getOrError (fromUtf8 bytes) (texts.invalidUtf8 bytes)
    return (domain, start + 1 + length.toNat)
  else throw (.error "unsupported SOCKS5 address type")

def decodeAddressBytesChecked (packet : List UInt8) (offset : Nat) : Except (Failure Str) (Str × UInt16 × Nat) := do
  let (host, portOffset) ← decodeHostBytesChecked texts packet offset
  let port ← getOrError (slice packet portOffset (portOffset + 2)) "truncated SOCKS5 port"
  let port ← getOrError (arrayFrom 2 port) "invalid SOCKS5 port"
  return (host, UInt16.ofNat (beNat port), portOffset + 2)

/-- `packet.len() < 4 || packet[..2] != [0, 0] || packet[2] != 0`. -/
def badUdpHeader (packet : List UInt8) : Except (Failure Str) Bool :=
  if packet.length < 4 then return true
  else do
    if (← getOrPanic (slice packet 0 2)) ≠ [0, 0] then return true
    else return (← getOrPanic packet[2]?) ≠ 0

def decodeUdpDatagramChecked (packet : List UInt8) : Except (Failure Str) (Str × List UInt8) := do
  if ← badUdpHeader packet then throw (.error "invalid or fragmented SOCKS5 UDP datagram")
  let (host, port, offset) ← decodeAddressBytesChecked texts packet 3
  let payload ← getOrPanic (slice packet offset packet.length)
  return (formatHostPort host port, payload)

/-- `decode_address_bytes`, which never panics. -/
def decodeAddressBytes (packet : List UInt8) (offset : Nat) : Except Str (Str × UInt16 × Nat) :=
  withoutPanic "panicked" (decodeAddressBytesChecked texts packet offset)

/-- `decode_udp_datagram`, which never panics. -/
def decodeUdpDatagram (packet : List UInt8) : Except Str (Str × List UInt8) :=
  withoutPanic "panicked" (decodeUdpDatagramChecked texts packet)

def encodeSocketAddress (address : SocketAddr) : List UInt8 :=
  (match address.ip with
    | .v4 ip => 1 :: beBytes 4 ip.toNat
    | .v6 ip => 4 :: beBytes 16 ip.toNat) ++ beBytes 2 address.port.toNat

def encodeUdpDatagram (address : Str) (payload : List UInt8) : Except Str (List UInt8) :=
  match parseSocketAddr address with
  | none =>
    .error ("invalid UDP source address " ++ texts.debug address ++ ": invalid socket address syntax")
  | some socket => .ok ([0, 0, 0] ++ encodeSocketAddress socket ++ payload)

end Hysteria.Impl
