import Hysteria.Framework.StreamReader
import Hysteria.Framework.Text
import Hysteria.Impl.Protocol.Tcp

/-!
# TCP frames on a stream

`hysteria-transport`, `proxy.rs`: the frames of a proxied TCP stream, read from
a QUIC stream as its bytes come in, and the response that a server writes.
-/

namespace Hysteria.Impl

open Framework

/-- Texts of errors that other crates report. -/
structure StreamTexts where
  /-- `read_u8` at the end of the stream. -/
  unexpectedEof : Str
  /-- `read_exact` when the stream ends after so many bytes. -/
  finishedEarly : Nat → Str
  /-- `String::from_utf8` on bytes that are not UTF-8. -/
  invalidUtf8 : List UInt8 → Str

/-- Code that awaits a `RecvStream`. -/
abbrev ReadStream := StreamReader TransportError

variable (texts : StreamTexts)

def readU8 : ReadStream UInt8 := .readExact 1 (fun _ => .io texts.unexpectedEof) fun bytes => .pure (bytes.headD 0)

def readExact (n : Nat) : ReadStream (List UInt8) := .readExact n (fun read => .io (texts.finishedEarly read)) .pure

def readVarintRest : Nat → UInt64 → ReadStream UInt64
  | 0, value => return value
  | n + 1, value => do
    let byte ← readU8 texts
    readVarintRest n (value <<< 8 ||| byte.toUInt64)

def readVarint : ReadStream UInt64 := do
  let first ← readU8 texts
  let length : Nat := 1 <<< (first >>> 6).toNat
  readVarintRest texts (length - 1) (first &&& 0x3f).toUInt64

def checkedLength (value : UInt64) (maximum : Nat) (allowEmpty : Bool) : ReadStream Nat :=
  if (allowEmpty = false ∧ value = 0) ∨ value > UInt64.ofNat maximum then
    .fail (.protocol ("invalid length " ++ decimal value.toNat))
  else return value.toNat

def discardExact (length : Nat) : ReadStream Unit :=
  if length > 0 then do
    let size := min length 1024
    let _ ← readExact texts size
    discardExact (length - size)
  else return ()
termination_by length
decreasing_by omega

def stringFromUtf8 (bytes : List UInt8) : ReadStream Str :=
  match fromUtf8 bytes with
  | some text => return text
  | none => .fail (.protocol (texts.invalidUtf8 bytes))

def readTcpRequest : ReadStream TcpRequest := do
  let frameType ← readVarint texts
  if frameType ≠ frameTypeTcpRequest then
    .fail (.protocol ("invalid TCP frame type " ++ hexadecimal frameType.toNat)) else
  let addressLength ← checkedLength (← readVarint texts) maxAddressLength false
  let address ← readExact texts addressLength
  let paddingLength ← checkedLength (← readVarint texts) maxPaddingLength true
  discardExact texts paddingLength
  let address ← stringFromUtf8 texts address
  return { address }

def readTcpResponse : ReadStream TcpResponse := do
  let status ← readU8 texts
  let messageLength ← checkedLength (← readVarint texts) maxMessageLength true
  let message ← readExact texts messageLength
  let paddingLength ← checkedLength (← readVarint texts) maxPaddingLength true
  discardExact texts paddingLength
  let message ← stringFromUtf8 texts message
  return { ok := status == 0, message }

/-! ## The response of a server -/

def tcpResponsePaddingMin : Nat := 128

def tcpResponsePaddingMaxExclusive : Nat := 1024

/-- `random call n` is what a call of `getrandom::fill` for `n` bytes gives, or the text of its error. -/
def randomPadding (random : (call n : Nat) → Except Str (Vector UInt8 n)) (minimum maximumExclusive : Nat) :
    Except TransportError (List UInt8) := do
  let lengthBytes ← (random 0 2).mapError .randomSource
  let length := minimum + beNat lengthBytes.toList % (maximumExclusive - minimum)
  let padding ← (random 1 length).mapError .randomSource
  return padding.toList

/-- `write_tcp_response`: the bytes that go to `write_all`. -/
def writeTcpResponse (random : (call n : Nat) → Except Str (Vector UInt8 n)) (ok : Bool) (message : Str) :
    Except TransportError (List UInt8) := do
  let padding ← randomPadding random tcpResponsePaddingMin tcpResponsePaddingMaxExclusive
  (TcpResponse.encode { ok, message } padding).mapError fun error => .protocol error.display

/-- The loop of `truncate_message`; `none` is the underflow of `boundary`. -/
def truncateBoundary (message : Str) : Nat → Option Nat
  | 0 => if isCharBoundary message 0 then some 0 else none
  | boundary + 1 =>
    if isCharBoundary message (boundary + 1) then some (boundary + 1) else truncateBoundary message boundary

/-- `truncate_message`; `none` is a panic. -/
def truncateMessage (message : Str) (maximum : Nat) : Option Str :=
  if (utf8 message).length ≤ maximum then some message
  else do
    let boundary ← truncateBoundary message maximum
    byteSlice message 0 boundary

end Hysteria.Impl
