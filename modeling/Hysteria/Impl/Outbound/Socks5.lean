import Hysteria.Framework.Checked
import Hysteria.Impl.Outbound.Interface
import Hysteria.Impl.Transport.TcpStream

/-!
# Addresses and UDP over a SOCKS5 proxy

`hysteria`, `outbound.rs`: how an address is written for the proxy, how its reply
to a request is read, and what `Socks5UdpSocket` makes of a packet from it.
-/

namespace Hysteria.Impl

open Framework

def u8Len (length : Nat) : Except TransportError UInt8 :=
  match u8TryFrom length with
  | some length => .ok length
  | none => .error (protocolError "SOCKS5 field exceeds 255 bytes")

/-- `encode_address`: what it appends to its output. -/
def encodeAddress (lib : Libraries) (address : Str) : Except TransportError (List UInt8) := do
  let (host, port) ← (parseHostPort lib address).mapError .protocol
  let host ← match parseIpAddr host with
    | some (.v4 ip) => pure (1 :: beBytes 4 ip.toNat)
    | some (.v6 ip) => pure (4 :: beBytes 16 ip.toNat)
    | none => do
      let length ← u8Len (utf8 host).length
      pure (3 :: length :: utf8 host)
  return host ++ beBytes 2 port.toNat

/-! ## Replies -/

section Replies

variable (texts : StreamTexts)

/-- The host after the header of a reply, whose last byte is its type. -/
def readReplyHost (atyp : UInt8) : ReadStream Str :=
  if atyp = 1 then do
    let octets ← readExact texts 4
    return (IpAddr.v4 (BitVec.ofNat 32 (beNat octets))).display
  else if atyp = 4 then do
    let octets ← readExact texts 16
    return (IpAddr.v6 (BitVec.ofNat 128 (beNat octets))).display
  else if atyp = 3 then do
    let length ← readExact texts 1
    let host ← readExact texts (length.headD 0).toNat
    match fromUtf8 host with
    | none => .fail (protocolError "invalid SOCKS5 reply host")
    | some host => return host
  else .fail (.protocol ("invalid SOCKS5 address type " ++ decimal atyp.toNat))

def readSocksReply : ReadStream Str := do
  let header ← readExact texts 4
  if header.getD 0 0 ≠ 5 ∨ header.getD 2 0 ≠ 0 then .fail (protocolError "invalid SOCKS5 reply")
  else if header.getD 1 0 ≠ 0 then
    .fail (.protocol ("SOCKS5 request failed with reply " ++ decimal (header.getD 1 0).toNat))
  else do
    let host ← readReplyHost texts (header.getD 3 0)
    let port ← readExact texts 2
    return formatAuthority host (UInt16.ofNat (beNat port))

end Replies

/-! ## Datagrams -/

/-- The host of `decode_address` and the offset of the port after it. Every access is a `get`. -/
def decodeHostChecked (packet : List UInt8) (offset : Nat) : Except (Failure TransportError) (Str × Nat) := do
  let atyp ← getOrError packet[offset]? (protocolError "truncated SOCKS5 address")
  if atyp = 1 then do
    let octets ← getOrError (slice packet (offset + 1) (offset + 5)) (protocolError "truncated SOCKS5 IPv4 address")
    let octets ← getOrError (arrayFrom 4 octets) (protocolError "invalid SOCKS5 IPv4 address")
    return ((IpAddr.v4 (BitVec.ofNat 32 (beNat octets))).display, offset + 5)
  else if atyp = 4 then do
    let octets ← getOrError (slice packet (offset + 1) (offset + 17)) (protocolError "truncated SOCKS5 IPv6 address")
    let octets ← getOrError (arrayFrom 16 octets) (protocolError "invalid SOCKS5 IPv6 address")
    return ((IpAddr.v6 (BitVec.ofNat 128 (beNat octets))).display, offset + 17)
  else if atyp = 3 then do
    let length ← getOrError packet[offset + 1]? (protocolError "truncated SOCKS5 domain length")
    let host ← getOrError (slice packet (offset + 2) (offset + 2 + length.toNat))
      (protocolError "truncated SOCKS5 domain")
    let host ← getOrError (fromUtf8 host) (protocolError "invalid SOCKS5 domain")
    return (host, offset + 2 + length.toNat)
  else throw (.error (protocolError "invalid SOCKS5 address type"))

def decodeAddressChecked (packet : List UInt8) (offset : Nat) : Except (Failure TransportError) (Str × Nat) := do
  let (host, portOffset) ← decodeHostChecked packet offset
  let port ← getOrError (slice packet portOffset (portOffset + 2)) (protocolError "truncated SOCKS5 port")
  let port ← getOrError (arrayFrom 2 port) (protocolError "invalid SOCKS5 port")
  return (formatAuthority host (UInt16.ofNat (beNat port)), portOffset + 2)

/-- `decode_address`, which never panics. -/
def decodeAddress (packet : List UInt8) (offset : Nat) : Except TransportError (Str × Nat) :=
  withoutPanic (protocolError "panicked") (decodeAddressChecked packet offset)

/-- `Socks5UdpSocket::recv_from`, for a packet that came in. -/
def socks5RecvFrom (bufferLen : Nat) (packet : List UInt8) : Except TransportError (List UInt8 × Str) :=
  let packet := packet.take (maxUdpSize + 262)
  if packet.length < 4 ∨ packet.take 3 ≠ [0, 0, 0] then .error (protocolError "invalid SOCKS5 UDP header")
  else
    match decodeAddress packet 3 with
    | .error error => .error error
    | .ok (address, offset) =>
      if packet.length < offset then .error (protocolError "truncated SOCKS5 UDP packet")
      else
        let payload := packet.drop offset
        if payload.length > bufferLen then .error (protocolError "SOCKS5 UDP packet exceeds receive buffer")
        else .ok (payload, address)

end Hysteria.Impl
