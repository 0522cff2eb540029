import Hysteria.Impl.Outbound.Interface
import Hysteria.Impl.Protocol.UdpMessage

/-!
# Sniffing

`hysteria`, `sniff.rs`: the server name in the first bytes of a client, of a TLS
handshake (`parseClientHelloSni`) or of a QUIC packet (`quicSni`).

A function here ends with a value, with `None`, or with a panic: `SniffStop`. An
index into a slice plus a length of 16 bits is far from the end of `usize`; where a
sum of what the client sends could be too large it is checked. The loops have
a number of rounds.
-/

namespace Hysteria.Impl

open Framework

/-- `read_quic_varint`: the value and its length. -/
def readQuicVarint (bytes : List UInt8) : Option (UInt64 × Nat) := do
  let first ← bytes.head?
  let length : Nat := 1 <<< (first >>> 6).toNat
  if bytes.length < length then none
  else
    let value := (bytes.take length).zipIdx.foldl
      (fun (value : UInt64) (byte, index) => value <<< 8 ||| (if index = 0 then byte &&& 0x3f else byte).toUInt64) 0
    some (value, length)

inductive SniffStop where
  /-- The function returns `None`. -/
  | absent
  /-- An index or a slice out of range. -/
  | outOfBounds
  /-- A sum or a shift that does not fit. -/
  | overflow
  /-- `ConnectionId::new` of more than 20 bytes. -/
  | connectionId
  /-- `decrypt` of the header protection without a whole sample. -/
  | headerSample
  /-- More rounds than the loop was given. -/
  | unfinished
deriving DecidableEq

namespace Sniff

variable {α : Type}

/-- `x?`. -/
def orNone (x : Option α) : Except SniffStop α :=
  match x with
  | none => .error .absent
  | some a => .ok a

/-- `data[i]`, `data[i..j]`. -/
def orPanic (x : Option α) : Except SniffStop α :=
  match x with
  | none => .error .outOfBounds
  | some a => .ok a

/-- A sum of `usize` or `u64`. -/
def add (a b : Nat) : Except SniffStop Nat := if a + b < 2 ^ 64 then .ok (a + b) else .error .overflow

/-! ## TLS -/

def readU16 (data : List UInt8) (position : Nat) : Except SniffStop Nat := do
  let high ← orNone data[position]?
  let low ← orNone data[position + 1]?
  return high.toNat * 256 + low.toNat

def skipU8Vector (data : List UInt8) (position : Nat) : Except SniffStop Nat := do
  return position + (1 + (← orNone data[position]?).toNat)

def skipU16Vector (data : List UInt8) (position : Nat) : Except SniffStop Nat := do
  return position + (2 + (← readU16 data position))

/-- The loop over the names: the first host name. -/
def namesLoop (data : List UInt8) (listEnd : Nat) : (rounds name : Nat) → Except SniffStop (Option Str)
  | 0, _ => .error .unfinished
  | rounds + 1, name =>
    if name + 3 ≤ listEnd then do
      let nameKind ← orPanic data[name]?
      let nameLength ← readU16 data (name + 1)
      let name := name + 3
      let nameEnd := name + nameLength
      if nameEnd > listEnd then throw .absent
      if nameKind = 0 then
        let host ← orNone (fromUtf8 (← orPanic (slice data name nameEnd)))
        return some host
      namesLoop data listEnd rounds nameEnd
    else .ok none

def extensionsLoop (data : List UInt8) (stop : Nat) : (rounds position : Nat) → Except SniffStop Str
  | 0, _ => .error .unfinished
  | rounds + 1, position =>
    if position + 4 ≤ stop then do
      let kind ← readU16 data position
      let length ← readU16 data (position + 2)
      let position := position + 4
      let extensionEnd := position + length
      if extensionEnd > stop then throw .absent
      if kind = 0 ∧ length ≥ 5 then
        let listLength ← readU16 data position
        let name := position + 2
        match ← namesLoop data (min (name + listLength) extensionEnd) (data.length + 1) name with
        | none => extensionsLoop data stop rounds extensionEnd
        | some host => return host
      else extensionsLoop data stop rounds extensionEnd
    else .error .absent

end Sniff

open Sniff

def parseClientHelloSni (data : List UInt8) : Except SniffStop Str := do
  if data.head? ≠ some 1 ∨ data.length < 42 then throw .absent
  let position := 4 + 2 + 32
  let position ← skipU8Vector data position
  let position ← skipU16Vector data position
  let position ← skipU8Vector data position
  let extensionsLength ← Sniff.readU16 data position
  let position := position + 2
  extensionsLoop data (min (position + extensionsLength) data.length) (data.length + 1) position

/-! ## QUIC -/

/-- The keys of the client's Initial packets. Header protection is removed in place. -/
structure InitialKeys where
  headerDecrypt : Nat → List UInt8 → List UInt8
  length_headerDecrypt : ∀ position packet, (headerDecrypt position packet).length = packet.length
  /-- The packet number, the header and the payload. -/
  packetDecrypt : UInt64 → List UInt8 → List UInt8 → Option (List UInt8)

/-- `initial_crypto_config` and its `initial_keys`, by version and connection ID. -/
abbrev InitialCrypto := Option (UInt32 → List UInt8 → Option InitialKeys)

/-- The header of an Initial packet, up to the packet number. -/
structure InitialHeader where
  version : UInt32
  destination : List UInt8
  position : Nat
  packetEnd : Nat
deriving DecidableEq

def initialHeader (packet : List UInt8) : Except SniffStop InitialHeader := do
  if packet.length < 7 then throw .absent
  let first : UInt8 ← orPanic packet[0]?
  if first &&& 0xc0 ≠ 0xc0 then throw .absent
  let version := UInt32.ofNat (beNat (← orPanic (slice packet 1 5)))
  if version ≠ 1 ∧ version ≠ 0x6b3343cf then throw .absent
  let initialType : UInt8 := if version ≠ 1 then 1 else 0
  if (first >>> 4) &&& 3 ≠ initialType then throw .absent
  let destinationLength := (← orNone packet[5]?).toNat
  let destination ← orNone (slice packet 6 (6 + destinationLength))
  let position := 6 + destinationLength
  let sourceLength := (← orNone packet[position]?).toNat
  let position := position + (1 + sourceLength)
  let (tokenLength, tokenBytes) ← orNone ((slice packet position packet.length).bind readQuicVarint)
  let position := position + (← add tokenBytes tokenLength.toNat)
  let (protectedLength, lengthBytes) ← orNone ((slice packet position packet.length).bind readQuicVarint)
  let position := position + lengthBytes
  let packetEnd := position + protectedLength.toNat
  if packetEnd > packet.length then throw .absent
  return { version, destination, position, packetEnd }

def decodePacketNumber (largest truncated length : Nat) : Except SniffStop Nat := do
  let expected ← add largest 1
  if 64 ≤ length * 8 then throw .overflow
  let window := 2 ^ (length * 8)
  let halfWindow := window / 2
  let candidate := (expected / window * window) ||| truncated
  let upper ← add candidate halfWindow
  if upper ≤ expected ∧ candidate < 2 ^ 62 - window then add candidate window
  else
    let bound ← add expected halfWindow
    if candidate > bound ∧ candidate ≥ window then return candidate - window
    return candidate

/-- `BTreeMap::insert`: in the order of the offsets, one frame for each. -/
def insertFrame (offset : UInt64) (frame : List UInt8) : List (UInt64 × List UInt8) → List (UInt64 × List UInt8)
  | [] => [(offset, frame)]
  | (other, next) :: rest =>
    if offset < other then (offset, frame) :: (other, next) :: rest
    else if offset = other then (offset, frame) :: rest
    else (other, next) :: insertFrame offset frame rest

/-- `payload = &payload[n..]`. -/
def Sniff.advance (payload : List UInt8) (n : Nat) : Except SniffStop (List UInt8) :=
  orPanic (slice payload n payload.length)

def framesLoop : (rounds : Nat) → (payload : List UInt8) → List (UInt64 × List UInt8) →
    Except SniffStop (List (UInt64 × List UInt8))
  | 0, _, _ => .error .unfinished
  | rounds + 1, payload, frames =>
    if payload = [] then .ok frames
    else do
      let (kind, kindLength) ← orNone (readQuicVarint payload)
      let payload ← advance payload kindLength
      if kind = 0 ∨ kind = 1 then framesLoop rounds payload frames
      else
        if kind ≠ 6 then throw .absent
        let (offset, offsetLength) ← orNone (readQuicVarint payload)
        let payload ← advance payload offsetLength
        let (length, lengthBytes) ← orNone (readQuicVarint payload)
        let payload ← advance payload lengthBytes
        let length := length.toNat
        if length > 256 * 1024 ∨ length > payload.length then throw .absent
        let frame ← orPanic (slice payload 0 length)
        let payload ← advance payload length
        framesLoop rounds payload (insertFrame offset frame frames)

/-- The frames have to follow one another. -/
def joinFrames : List (UInt64 × List UInt8) → (result : List UInt8) → Except SniffStop (List UInt8)
  | [], result => if result = [] then .error .absent else .ok result
  | (offset, frame) :: rest, result =>
    if offset.toNat ≠ result.length ∨ result.length + frame.length > 256 * 1024 then .error .absent
    else joinFrames rest (result ++ frame)

def extractCryptoFrames (payload : List UInt8) : Except SniffStop (List UInt8) := do
  joinFrames (← framesLoop (payload.length + 1) payload []) []

/-- `quic_sni` after `packet_end`: the keys, the packet number and the payload. -/
def initialPayload (keys : InitialKeys) (packet : List UInt8) (header : InitialHeader) :
    Except SniffStop (List UInt8) := do
  if header.packetEnd < header.position + 4 + 16 then throw .headerSample
  let packet := keys.headerDecrypt header.position (packet.take header.packetEnd) ++ packet.drop header.packetEnd
  let packetNumberLength := ((← orPanic packet[0]?) &&& 3).toNat + 1
  let headerEnd := header.position + packetNumberLength
  let truncated := beNat (← orNone (slice packet header.position headerEnd))
  let packetNumber ← decodePacketNumber 2 truncated packetNumberLength
  let front ← orPanic (slice packet 0 headerEnd)
  let payload ← orNone (slice packet headerEnd header.packetEnd)
  orNone (keys.packetDecrypt (UInt64.ofNat packetNumber) front payload)

def quicSni (crypto : InitialCrypto) (packet : List UInt8) : Except SniffStop Str := do
  let header ← initialHeader packet
  let initialKeys ← orNone crypto
  if header.destination.length > 20 then throw .connectionId
  let keys ← orNone (initialKeys header.version header.destination)
  let payload ← initialPayload keys packet header
  parseClientHelloSni (← extractCryptoFrames payload)

/-! ## The hook -/

/-- `trim_matches(['[', ']'])`. -/
def trimBrackets (host : Str) : Str :=
  (host.dropWhile fun c => c = '[' || c = ']').rdropWhile fun c => c = '[' || c = ']'

def splitAddress (address : Str) : Option (Str × UInt16) := do
  let (host, port) ← rsplitOnce ':' address
  return (trimBrackets host, ← parseU16 port)

def rewriteHost (address host : Str) : Except TransportError Str :=
  match splitAddress address with
  | none => .error (.protocol "invalid sniff request address")
  | some (_, port) =>
    if (parseIpv6 host).isSome then .ok ('[' :: host ++ "]:" ++ showNat port.toNat)
    else .ok (host ++ ':' :: showNat port.toNat)

/-- `Sniffer`, without its timeout for streams. -/
structure Sniffer where
  rewriteDomain : Bool
  tcpPorts : Option (List (UInt16 × UInt16))
  udpPorts : Option (List (UInt16 × UInt16))

def Sniffer.check (sniffer : Sniffer) (udp : Bool) (address : Str) : Bool :=
  if address.head? = some '@' then false
  else
    match splitAddress address with
    | none => false
    | some (host, port) =>
      if ¬ sniffer.rewriteDomain ∧ parseIpAddr host = none then false
      else
        (if udp then sniffer.udpPorts else sniffer.tcpPorts).all
          (·.any fun (start, stop) => start ≤ port ∧ port ≤ stop)

/-- The address after `udp`, or its panic. -/
def Sniffer.udp (crypto : InitialCrypto) (data : List UInt8) (address : Str) :
    Except SniffStop (Except TransportError Str) :=
  match quicSni crypto data with
  | .ok host => .ok (rewriteHost address host)
  | .error .absent => .ok (.ok address)
  | .error stop => .error stop

/-- The hook of `run_server_session` on the first message. A panic is the end of the task. -/
def sniffedAddress (crypto : InitialCrypto) (sniffer : Option Sniffer) (first : UdpMessage) :
    Except SniffStop (Except TransportError Str) :=
  match sniffer with
  | none => .ok (.ok first.address)
  | some sniffer =>
    if sniffer.check true first.address then Sniffer.udp crypto first.data first.address else .ok (.ok first.address)

end Hysteria.Impl
