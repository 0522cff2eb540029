import Mathlib.Data.Finmap
import Hysteria.Framework.Checked
import Hysteria.Framework.Records
import Hysteria.Framework.Utf8

/-!
# ALPS inspection

`hysteria-transport`, `http3_alps.rs`: the readers of the TLS application
settings of a peer. A reader returns the value and the input it leaves. `usize` has 64
bits, so no length is out of its range.
-/

namespace Hysteria.Impl.Alps

open Framework

def varint (input : List UInt8) : Except (Failure Str) (UInt64 × List UInt8) := do
  let first ← getOrError input.head? "truncated ALPS varint"
  let width : Nat := 1 <<< (first >>> 6).toNat
  let bytes ← getOrError (slice input 0 width) "truncated ALPS varint"
  let value := (← getOrPanic (slice bytes 1 bytes.length)).foldl
    (fun (value : UInt64) byte => value <<< 8 ||| byte.toUInt64) (first &&& 0x3f).toUInt64
  return (value, ← getOrPanic (slice input width input.length))

def lengthPrefixed (input : List UInt8) : Except (Failure Str) (List UInt8 × List UInt8) := do
  let (length, input) ← varint input
  let bytes ← getOrError (slice input 0 length.toNat) "truncated ALPS payload"
  return (bytes, ← getOrPanic (slice input length.toNat input.length))

structure Settings where
  values : Option (Finmap fun _ : UInt64 => UInt64)
  acceptChFrames : Nat
deriving DecidableEq

/-- A round of the loop over a `SETTINGS` frame, once it has read the setting. -/
def insertSetting (values : Finmap fun _ : UInt64 => UInt64) (setting : UInt64 × UInt64) :
    Except (Failure Str) (Finmap fun _ : UInt64 => UInt64) :=
  let (id, value) := setting
  if 2 ≤ id ∧ id ≤ 5 then .error (.error "HTTP/2 setting in HTTP/3 ALPS")
  else if (id = 8 ∨ id = 0x33) ∧ value > 1 then .error (.error "invalid boolean ALPS setting")
  else if id ∈ values then .error (.error "duplicate ALPS setting identifier")
  else .ok (values.insert id value)

/-- The frames of HTTP/3 that are not for ALPS. -/
def forbidden (kind : UInt64) : Bool :=
  kind ≤ 3 || 5 ≤ kind && kind ≤ 9 || kind = 0xd || kind = 0xf0700 || kind = 0xf0701

/-- A round of the loop of `inspect`, once it has read the frame. A loop without rounds for its
input would count as a panic. -/
def inspectFrame (result : Settings) (frame : UInt64 × List UInt8) : Except (Failure Str) Settings :=
  let (kind, payload) := frame
  if kind = 4 then
    if result.values.isSome then .error (.error "duplicate ALPS SETTINGS frame")
    else do
      let values ← eachRecord .panicked (readPair varint varint) insertSetting payload.length ∅ payload
      return { result with values := some values }
  else if kind = 0x89 then do
    eachRecord .panicked (readPair lengthPrefixed lengthPrefixed) (fun () _ => .ok ()) payload.length () payload
    return { result with acceptChFrames := result.acceptChFrames + 1 }
  else if forbidden kind then .error (.error "forbidden HTTP/3 frame in ALPS")
  else .ok result

def inspect (input : List UInt8) : Except (Failure Str) Settings :=
  if input.length > 16 * 1024 then .error (.error "ALPS exceeds 16 KiB")
  else eachRecord .panicked (readPair varint lengthPrefixed) inspectFrame input.length ⟨none, 0⟩ input

end Hysteria.Impl.Alps
