import Hysteria.Impl.Protocol.Varint

/-!
# UDP messages

`hysteria-protocol`, `proxy.rs`: the payload of a QUIC datagram.
-/

namespace Hysteria.Impl

open Framework

def maxAddressLength : Nat := 2048
def maxMessageLength : Nat := 2048
def maxPaddingLength : Nat := 4096
def maxUdpSize : Nat := 4096

structure UdpMessage where
  sessionId : UInt32
  packetId : UInt16
  fragmentId : UInt8
  fragmentCount : UInt8
  address : Str
  data : List UInt8
deriving DecidableEq

/-- `take`: the first `len` bytes of the input and the rest. -/
def take (input : List UInt8) (len : Nat) : Except ProtocolError (List UInt8 × List UInt8) :=
  match takeBytes len input with
  | some r => .ok r
  | none => .error .unexpectedEnd

namespace UdpMessage

/-- `self.address.len()`, in bytes. -/
def addressLen (m : UdpMessage) : Nat := (utf8 m.address).length

def headerSize (m : UdpMessage) : Nat := 8 + varintLen (UInt64.ofNat m.addressLen) + m.addressLen

def encodedSize (m : UdpMessage) : Nat := m.headerSize + m.data.length

def encode (m : UdpMessage) : Except ProtocolError (List UInt8) := do
  if m.addressLen > maxMessageLength then
    throw (.invalidAddressLength (UInt64.ofNat m.addressLen))
  let addressLen ← encodeVarint (UInt64.ofNat m.addressLen)
  return beBytes 4 m.sessionId.toNat ++ beBytes 2 m.packetId.toNat ++ [m.fragmentId, m.fragmentCount] ++
    addressLen ++ utf8 m.address ++ m.data

def decode (input : List UInt8) : Except ProtocolError UdpMessage := do
  let (fixed, input) ← take input 8
  let (addressLen, input) ← decodeVarint input
  if addressLen = 0 ∨ addressLen > UInt64.ofNat maxMessageLength then
    throw (.invalidAddressLength addressLen)
  -- At least one payload byte must follow the address.
  if input.length ≤ addressLen.toNat then
    throw (.invalidMessageLength (UInt64.ofNat input.length))
  let (addressBytes, input) ← take input addressLen.toNat
  return {
    sessionId := UInt32.ofNat (beNat (fixed.take 4))
    packetId := UInt16.ofNat (beNat ((fixed.drop 4).take 2))
    fragmentId := fixed.getD 6 0
    fragmentCount := fixed.getD 7 0
    address := fromUtf8Lossy addressBytes
    data := input }

end UdpMessage

end Hysteria.Impl
