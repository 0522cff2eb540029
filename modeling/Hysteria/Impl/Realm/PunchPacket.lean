import Hysteria.Framework.Bytes
import Hysteria.Framework.Ip
import Hysteria.Impl.Obfs.Salamander

/-!
# Punch packets

`hysteria-realm`, `punch.rs`: a packet is its salt, and a header with the kind and the
nonce of the attempt, padded, under a mask that the shared `obfs` and the salt
give. SHA-256 is any function, and so is what the random source gives.
-/

namespace Hysteria.Impl

open Framework

def maxPunchPadding : Nat := 1024
def punchSaltLength : Nat := 8
def punchHeaderLength : Nat := 25
def minimumWireLength : Nat := punchSaltLength + punchHeaderLength
def maximumWireLength : Nat := minimumWireLength + maxPunchPadding

/-- `MAGIC`: `HYRLMv1` and a zero. -/
def punchMagic : List UInt8 := [0x48, 0x59, 0x52, 0x4c, 0x4d, 0x76, 0x31, 0]

structure PunchMetadata where
  nonce : Str
  obfs : Str
deriving DecidableEq

inductive PunchPacketType where
  | hello
  | ack
deriving DecidableEq

def PunchPacketType.byte : PunchPacketType → UInt8
  | .hello => 0x01
  | .ack => 0x02

def PunchPacketType.ofByte (byte : UInt8) : Option PunchPacketType :=
  if byte = 0x01 then some .hello else if byte = 0x02 then some .ack else none

structure PunchPacket where
  kind : PunchPacketType
  paddingLength : Nat
deriving DecidableEq

inductive PunchPacketError where
  | invalid (message : Str)
  | random (message : Str)
  /-- Not an error of the source: a slice that ends inside a character panics. -/
  | panicked
deriving DecidableEq

/-! ## Metadata -/

/-- `u8::from_str_radix(_, 16)`. -/
def parseHexU8 (s : Str) : Option UInt8 :=
  let digits := if s.head? = some '+' then s.tail else s
  if digits = [] then none
  else
    (digits.foldlM (fun value c => do
      let value := value * 16 + (← hexDigit c)
      if value < 256 then some value else none) 0).map UInt8.ofNat

def decodeHex (n : Nat) (name value : Str) : Except PunchPacketError (List UInt8) :=
  if (utf8 value).length ≠ n * 2 then .error (.invalid ("invalid " ++ name ++ " length"))
  else
    (List.range n).mapM fun index =>
      match byteSlice value (index * 2) (index * 2 + 2) with
      | none => .error .panicked
      | some digits =>
        match parseHexU8 digits with
        | none => .error (.invalid ("invalid " ++ name))
        | some byte => .ok byte

def decodeMetadata (metadata : PunchMetadata) : Except PunchPacketError (List UInt8 × List UInt8) := do
  let nonce ← decodeHex 16 "nonce" metadata.nonce
  let obfs ← decodeHex 32 "obfs" metadata.obfs
  return (nonce, obfs)

/-- `{byte:02x}` of each byte. -/
def encodeHex (input : List UInt8) : Str :=
  input.flatMap fun byte => [Nat.digitChar (byte.toNat / 16), Nat.digitChar (byte.toNat % 16)]

/-! ## Packets -/

/-- What the random source gives one packet. -/
structure PunchRandom where
  salt : Vector UInt8 punchSaltLength
  padding : List UInt8
  length_padding : padding.length ≤ maxPunchPadding

variable (sha256 : List UInt8 → Vector UInt8 keyLength)

/-- `xor_packet`, which is what Salamander does with its key. -/
def xorPacket (packet obfs salt : List UInt8) : List UInt8 := Salamander.applyKey (sha256 (obfs ++ salt)) packet

namespace PunchPacket

/-- `encode_with`, the padding drawn before. -/
def encodeWith (kind : PunchPacketType) (metadata : PunchMetadata) (salt : Vector UInt8 punchSaltLength)
    (padding : List UInt8) : Except PunchPacketError (List UInt8) :=
  if padding.length > maxPunchPadding then .error (.invalid "padding is too large")
  else do
    let (nonce, obfs) ← decodeMetadata metadata
    return salt.toList ++ xorPacket sha256 (punchMagic ++ kind.byte :: nonce ++ padding) obfs salt.toList

def encode (random : Except Str PunchRandom) (kind : PunchPacketType) (metadata : PunchMetadata) :
    Except PunchPacketError (List UInt8) :=
  match random with
  | .error message => .error (.random message)
  | .ok random => encodeWith sha256 kind metadata random.salt random.padding

/-- `decode`, on what is under the mask. -/
def readHeader (nonce plaintext : List UInt8) : Except PunchPacketError PunchPacket :=
  if plaintext.take punchMagic.length ≠ punchMagic then .error (.invalid "bad magic")
  else
    match plaintext[punchMagic.length]?.bind PunchPacketType.ofByte with
    | none => .error (.invalid "unknown packet type")
    | some kind =>
      if (plaintext.take punchHeaderLength).drop (punchMagic.length + 1) ≠ nonce then
        .error (.invalid "nonce mismatch")
      else .ok { kind, paddingLength := plaintext.length - punchHeaderLength }

def decode (packet : List UInt8) (metadata : PunchMetadata) : Except PunchPacketError PunchPacket :=
  if packet.length < minimumWireLength ∨ maximumWireLength < packet.length then
    .error (.invalid "invalid packet length")
  else do
    let (nonce, obfs) ← decodeMetadata metadata
    readHeader nonce (xorPacket sha256 (packet.drop punchSaltLength) obfs (packet.take punchSaltLength))

end PunchPacket

end Hysteria.Impl
