import Hysteria.Impl.Obfs.Salamander
import Hysteria.Impl.Protocol.Varint

/-!
# Gecko

`hysteria-obfs`, `gecko.rs`: frames, and the splitting of a packet into them. A
long-header packet goes out in two to eight frames under one message ID, padded
at random; any other packet in one datagram.
-/

namespace Hysteria.Impl

open Framework

def fragmentFlag : UInt8 := 0x80
def headerLength : Nat := 5
def minFragmentCount : UInt8 := 2
def maxFragmentCount : UInt8 := 8
def bufferSize : Nat := 2048
def defaultMinPacketSize : Nat := 512
def defaultMaxPacketSize : Nat := 1200

structure GeckoOptions where
  minPacketSize : Nat
  maxPacketSize : Nat
deriving DecidableEq

inductive GeckoError where
  | missingPassword
  | invalidPacketSizeRange
  | invalidFragmentCount (total : UInt8)
  | invalidChunkIndex (index total : UInt8)
  | truncatedFrame
  | randomSource
  | salamander (error : SalamanderError)
deriving DecidableEq

/-! ## Frames -/

structure GeckoFrame where
  messageId : UInt8
  chunkIndex : UInt8
  totalChunks : UInt8
  padding : List UInt8
  payload : List UInt8
deriving DecidableEq

def validateFragment (index total : UInt8) : Except GeckoError Unit :=
  if ¬ (minFragmentCount ≤ total ∧ total ≤ maxFragmentCount) then .error (.invalidFragmentCount total)
  else if index ≥ total then .error (.invalidChunkIndex index total)
  else .ok ()

namespace GeckoFrame

def encode (frame : GeckoFrame) : Except GeckoError (List UInt8) := do
  validateFragment frame.chunkIndex frame.totalChunks
  match u16TryFrom frame.padding.length with
  | none => throw .truncatedFrame
  | some paddingLen =>
    return [fragmentFlag, frame.messageId, frame.chunkIndex <<< 4 ||| (frame.totalChunks &&& 0x0f)] ++
      beBytes 2 paddingLen.toNat ++ frame.padding ++ frame.payload

def decode (input : List UInt8) : Except GeckoError GeckoFrame :=
  match input with
  | flags :: messageId :: chunk :: high :: low :: rest => do
    if flags &&& fragmentFlag = 0 then throw (.invalidFragmentCount 0)
    let chunkIndex := chunk >>> 4
    let totalChunks := chunk &&& 0x0f
    validateFragment chunkIndex totalChunks
    let paddingLen := beNat [high, low]
    if headerLength + paddingLen > input.length then throw .truncatedFrame
    return {
      messageId
      chunkIndex
      totalChunks
      padding := rest.take paddingLen
      payload := rest.drop paddingLen }
  | _ => .error .truncatedFrame

end GeckoFrame

/-! ## The random source -/

/-- `getrandom`: what each of its calls gives. -/
structure RandomSource where
  fill : Nat → (n : Nat) → Option (Vector UInt8 n)

/-- Code that draws at random; the state counts the calls. -/
abbrev Draw := StateT Nat (Except GeckoError)

variable (random : RandomSource)

def fillRandom (n : Nat) : Draw (Vector UInt8 n) := fun calls =>
  match random.fill calls n with
  | none => .error .randomSource
  | some bytes => .ok (bytes, calls + 1)

def randomBelow (exclusiveMax : UInt32) : Draw UInt32 :=
  if exclusiveMax ≤ 1 then pure 0
  else do
    let bytes ← fillRandom random 4
    return UInt32.ofNat (beNat bytes.toList) % exclusiveMax

/-! ## The codec -/

/-- `Gecko`, without its two pieces of state: the counter of message IDs and
the reassembler. -/
structure Gecko where
  salamander : Salamander
  options : GeckoOptions
  ordered : options.minPacketSize ≤ options.maxPacketSize
  fits : options.maxPacketSize ≤ bufferSize

namespace Gecko

def new (password : List UInt8) (options : GeckoOptions) : Except GeckoError Gecko :=
  if password = [] then .error .missingPassword
  else
    let minPacketSize := if options.minPacketSize = 0 then defaultMinPacketSize else options.minPacketSize
    let maxPacketSize := if options.maxPacketSize = 0 then defaultMaxPacketSize else options.maxPacketSize
    if h : minPacketSize > maxPacketSize ∨ maxPacketSize > bufferSize then .error .invalidPacketSizeRange
    else
      match Salamander.new password with
      | .error error => .error (.salamander error)
      | .ok salamander =>
        .ok ⟨salamander, ⟨minPacketSize, maxPacketSize⟩, Nat.le_of_not_lt fun lt => h (.inl lt),
          Nat.le_of_not_lt fun lt => h (.inr lt)⟩

variable (blake2b : List UInt8 → Vector UInt8 keyLength) (gecko : Gecko)

def randomPaddingLen (chunkLen : Nat) : Draw Nat :=
  let base := saltLength + headerLength + chunkLen
  let low := max gecko.options.minPacketSize base
  if low > gecko.options.maxPacketSize then pure 0
  else
    match u32TryFrom (gecko.options.maxPacketSize - low + 1) with
    | none => throw .randomSource
    | some choices => do
      let more ← randomBelow random choices
      return low - base + more.toNat

def obfuscate (cleartext : List UInt8) : Draw (List UInt8) := do
  let salt ← fillRandom random saltLength
  return gecko.salamander.obfuscate blake2b cleartext salt

/-- The frame of one chunk of the packet, as a datagram. -/
def encodeChunk (packet : List UInt8) (messageId totalChunks : UInt8) (chunkIndex : Nat) : Draw (List UInt8) := do
  let chunkSize := packet.length / totalChunks.toNat
  let start := chunkIndex * chunkSize
  let stop := if chunkIndex = totalChunks.toNat - 1 then packet.length else start + chunkSize
  let payload := (packet.take stop).drop start
  let paddingLen ← gecko.randomPaddingLen random payload.length
  let padding ← fillRandom random paddingLen
  let frame : GeckoFrame := {
    messageId
    chunkIndex := UInt8.ofNat chunkIndex
    totalChunks
    padding := padding.toList
    payload }
  let cleartext ← frame.encode
  gecko.obfuscate random blake2b cleartext

/-- The datagrams of a packet, and the counter after it. -/
def encodePacket (packet : List UInt8) (nextMessageId : UInt32) : Except GeckoError (List (List UInt8)) × UInt32 :=
  match packet with
  | [] => (.ok [], nextMessageId)
  | first :: _ =>
    if first &&& fragmentFlag = 0 then
      ((gecko.obfuscate random blake2b packet 0).map fun (datagram, _) => [datagram], nextMessageId)
    else
      match randomBelow random (maxFragmentCount - minFragmentCount + 1).toUInt32 0 with
      | .error error => (.error error, nextMessageId)
      | .ok (randomChunkOffset, calls) =>
        match u8TryFrom randomChunkOffset.toNat with
        | none => (.error .randomSource, nextMessageId)
        | some offset =>
          let totalChunks := minFragmentCount + offset
          -- The counter is taken here; a failure below does not give it back.
          let messageId := UInt8.ofNat (nextMessageId + 1).toNat
          let datagrams := (List.range totalChunks.toNat).mapM
            (gecko.encodeChunk random blake2b packet messageId totalChunks)
          ((datagrams calls).map (·.1), nextMessageId + 1)

/-- `encode_packet` on one packet after the other, each with what it draws. -/
def encodeAll : List (RandomSource × List UInt8) → UInt32 → List (Except GeckoError (List (List UInt8)))
  | [], _ => []
  | (random, packet) :: rest, nextMessageId =>
    let (datagrams, nextMessageId) := gecko.encodePacket random blake2b packet nextMessageId
    datagrams :: encodeAll rest nextMessageId

end Gecko

end Hysteria.Impl
