import Hysteria.Framework.Checked
import Hysteria.Impl.Client.HttpProxy
import Hysteria.Impl.Sniff

/-!
# Sniffing a stream

`hysteria`, `sniff.rs`: the host in the first bytes of a TCP request (`sniffTcp`),
from the `Host` header of HTTP or from the server name of TLS.

A `RecvStream` is the chunks that come before the deadline, and then how a read
ends that waits for more. Nothing is read after that. An empty chunk wakes no reader.
What was captured is put back in front of the stream, so the functions return it
with the chunks that they have not read.
-/

namespace Hysteria.Impl

open Framework

def maxHttpHeader : Nat := 256 * 1024

inductive ReadEnd where
  | finished
  | deadline
  | failed (error : Str)
deriving DecidableEq

/-! ## Reading -/

section

variable (ending : ReadEnd)

/-- `read_up_to`: whether `length` bytes are captured. A read takes the next chunk,
or what of it the buffer has room for. -/
def readUpTo (length : Nat) : (chunks : List (List UInt8)) → (captured : List UInt8) →
    Except (Failure TransportError) (Bool × List UInt8 × List (List UInt8))
  | chunks, captured =>
    if length ≤ captured.length then .ok (true, captured, chunks)
    else
      match chunks with
      | [] =>
        match ending with
        | .finished => .ok (false, captured, [])
        | .deadline => .ok (false, captured, [])
        | .failed error => .error (.error (.io error))
      | chunk :: chunks =>
        let size := length - captured.length
        if chunk.length ≤ size then readUpTo length chunks (captured ++ chunk)
        -- The buffer is full, so the loop ends.
        else .ok (true, captured ++ chunk.take size, chunk.drop size :: chunks)

/-- The loop of `read_http_host`, while `captured` is `room` bytes shorter than `MAX_HTTP_HEADER`. -/
def httpHeaderLoop : (room : Nat) → (chunks : List (List UInt8)) → (captured : List UInt8) →
    Except (Failure TransportError) (List UInt8 × List (List UInt8))
  | 0, chunks, captured => .ok (captured, chunks)
  | room + 1, chunks, captured =>
    if [13, 10, 13, 10].isSuffixOf captured then .ok (captured, chunks)
    else do
      let (whole, captured, chunks) ← readUpTo ending (captured.length + 1) chunks captured
      if whole then httpHeaderLoop room chunks captured else .ok (captured, chunks)

/-! ## HTTP -/

def stripHostPort (host : Str) : Str :=
  if host.head? = some '[' then
    ((stripStart ['['] host).bind fun rest => (splitOnce ']' rest).map Prod.fst).getD host
  else (((rsplitOnce ':' host).filter fun (_, port) => (parseU16 port).isSome).map Prod.fst).getD host

def hostLine (line : Str) : Option Str := do
  let (name, value) ← splitOnce ':' line
  if eqIgnoreAsciiCase name "host" then some (stripHostPort (trim value)) else none

def readHttpHost (chunks : List (List UInt8)) (captured : List UInt8) :
    Except (Failure TransportError) (Option Str × List UInt8 × List (List UInt8)) := do
  let (captured, chunks) ← httpHeaderLoop ending (maxHttpHeader - captured.length) chunks captured
  let text := fromUtf8Lossy captured
  return ((lines text).findSome? hostLine, captured, chunks)

/-! ## TLS -/

def isTls (bytes : List UInt8) : Except (Failure TransportError) Bool :=
  if (bytes.head? = some 0x16 ∨ bytes.head? = some 0x17) ∧ bytes[1]? = some 3 then do
    return (← getOrPanic bytes[2]?) ≤ 9
  else return false

/-- The `Option` that `parse_client_hello_sni` returns, or its panic. -/
def helloHost (data : List UInt8) : Except (Failure TransportError) (Option Str) :=
  match parseClientHelloSni data with
  | .ok host => .ok (some host)
  | .error .absent => .ok none
  | .error _ => .error .panicked

def readTlsSni (chunks : List (List UInt8)) (captured : List UInt8) :
    Except (Failure TransportError) (Option Str × List UInt8 × List (List UInt8)) := do
  let (whole, captured, chunks) ← readUpTo ending 5 chunks captured
  if ¬ whole then return (none, captured, chunks)
  let high ← getOrPanic captured[3]?
  let low ← getOrPanic captured[4]?
  let length := high.toNat * 256 + low.toNat
  let (whole, captured, chunks) ← readUpTo ending (5 + length) chunks captured
  if ¬ whole then return (none, captured, chunks)
  return (← helloHost (← getOrPanic (slice captured 5 captured.length)), captured, chunks)

/-! ## The hook -/

def isAsciiLetter (b : UInt8) : Bool := 65 ≤ b ∧ b ≤ 90 ∨ 97 ≤ b ∧ b ≤ 122

/-- `sniff_tcp` without the address: the host, if there is one. -/
def sniffHost (chunks : List (List UInt8)) :
    Except (Failure TransportError) (Option Str × List UInt8 × List (List UInt8)) := do
  let (whole, captured, chunks) ← readUpTo ending 3 chunks []
  if ¬ whole then return (none, captured, chunks)
  if (← getOrPanic (slice captured 0 3)).all isAsciiLetter then readHttpHost ending chunks captured
  else if ← isTls captured then readTlsSni ending chunks captured
  else return (none, captured, chunks)

/-- The address after `sniff_tcp`, and the bytes to put back. -/
def sniffTcp (chunks : List (List UInt8)) (address : Str) :
    Except (Failure TransportError) (Str × List UInt8 × List (List UInt8)) := do
  let (host, captured, chunks) ← sniffHost ending chunks
  match host with
  | none => return (address, captured, chunks)
  | some host => return (← (rewriteHost address host).mapError .error, captured, chunks)

@[inherit_doc sniffTcp]
def Sniffer.tcp (chunks : List (List UInt8)) (address : Str) :
    Except (Failure TransportError) (Str × List UInt8 × List (List UInt8)) :=
  sniffTcp ending chunks address

end

end Hysteria.Impl
