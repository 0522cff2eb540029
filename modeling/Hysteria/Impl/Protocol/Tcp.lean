import Hysteria.Framework.Decoder
import Hysteria.Impl.Protocol.UdpMessage

/-!
# TCP requests and responses

`hysteria-protocol`, `proxy.rs`: the frames in front of a proxied TCP stream. A
decoder leaves the bytes of the stream that follow its frame.
-/

namespace Hysteria.Impl

open Framework

def frameTypeTcpRequest : UInt64 := 0x401

/-- Code that advances `input: &mut &[u8]`. -/
abbrev Decode := Decoder ProtocolError

def Decode.varint : Decode UInt64 := decodeVarint

def Decode.take (len : Nat) : Decode (List UInt8) := fun input => Impl.take input len

structure TcpRequest where
  address : Str
deriving DecidableEq

structure TcpResponse where
  ok : Bool
  message : Str
deriving DecidableEq

def checkWriteLengths (address padding message : Nat) : Except ProtocolError Unit :=
  if address > maxAddressLength then .error (.invalidAddressLength (UInt64.ofNat address))
  else if padding > maxPaddingLength then .error (.invalidPaddingLength (UInt64.ofNat padding))
  else if message > maxMessageLength then .error (.invalidMessageLength (UInt64.ofNat message))
  else .ok ()

namespace TcpRequest

def encode (request : TcpRequest) (padding : List UInt8) : Except ProtocolError (List UInt8) := do
  checkWriteLengths (utf8 request.address).length padding.length 0
  let frameType ← encodeVarint frameTypeTcpRequest
  let addressLen ← encodeVarint (UInt64.ofNat (utf8 request.address).length)
  let paddingLen ← encodeVarint (UInt64.ofNat padding.length)
  return frameType ++ (addressLen ++ (utf8 request.address ++ (paddingLen ++ padding)))

/-- The request after its frame type. -/
def decodeBody : Decode TcpRequest := do
  let addressLen ← .varint
  if addressLen = 0 ∨ addressLen > UInt64.ofNat maxAddressLength then throw (.invalidAddressLength addressLen) else
  let addressBytes ← .take addressLen.toNat
  let paddingLen ← .varint
  if paddingLen > UInt64.ofNat maxPaddingLength then throw (.invalidPaddingLength paddingLen) else
  let _ ← Decode.take paddingLen.toNat
  return { address := fromUtf8Lossy addressBytes }

def decode : Decode TcpRequest := do
  let frameType ← .varint
  if frameType ≠ frameTypeTcpRequest then throw (.invalidFrameType frameType) else
  decodeBody

end TcpRequest

namespace TcpResponse

def encode (response : TcpResponse) (padding : List UInt8) : Except ProtocolError (List UInt8) := do
  checkWriteLengths 0 padding.length (utf8 response.message).length
  let messageLen ← encodeVarint (UInt64.ofNat (utf8 response.message).length)
  let paddingLen ← encodeVarint (UInt64.ofNat padding.length)
  return [if response.ok then 0 else 1] ++ (messageLen ++ (utf8 response.message ++ (paddingLen ++ padding)))

def decode : Decode TcpResponse := do
  let status ← .take 1
  let messageLen ← .varint
  if messageLen > UInt64.ofNat maxMessageLength then throw (.invalidMessageLength messageLen) else
  let messageBytes ← .take messageLen.toNat
  let paddingLen ← .varint
  if paddingLen > UInt64.ofNat maxPaddingLength then throw (.invalidPaddingLength paddingLen) else
  let _ ← Decode.take paddingLen.toNat
  return { ok := status.headD 0 == 0, message := fromUtf8Lossy messageBytes }

end TcpResponse

end Hysteria.Impl
