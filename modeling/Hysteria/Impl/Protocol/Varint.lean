import Hysteria.Framework.Bytes
import Hysteria.Impl.Error

/-!
# QUIC variable-length integers

`hysteria-protocol`, `varint.rs`. An encoder returns the bytes it appends, a
decoder the value and the input it leaves.
-/

namespace Hysteria.Impl

open Framework

def maxVarint : UInt64 := ((1 : UInt64) <<< 62) - 1

def varintLen (value : UInt64) : Nat :=
  if value ≤ 63 then 1
  else if value ≤ 16383 then 2
  else if value ≤ 1073741823 then 4
  else 8

def u8TryFrom (n : Nat) : Option UInt8 := if n < 2 ^ 8 then some (UInt8.ofNat n) else none

def u16TryFrom (n : Nat) : Option UInt16 := if n < 2 ^ 16 then some (UInt16.ofNat n) else none

def u32TryFrom (n : Nat) : Option UInt32 := if n < 2 ^ 32 then some (UInt32.ofNat n) else none

def encodeVarint (value : UInt64) : Except ProtocolError (List UInt8) :=
  if value > maxVarint then .error (.varintTooLarge value)
  else
    match varintLen value with
    | 1 =>
      match u8TryFrom value.toNat with
      | some v => .ok [v]
      | none => .error (.varintTooLarge value)
    | 2 =>
      match u16TryFrom value.toNat with
      | some v => .ok (beBytes 2 (v ||| 0x4000).toNat)
      | none => .error (.varintTooLarge value)
    | 4 =>
      match u32TryFrom value.toNat with
      | some v => .ok (beBytes 4 (v ||| 0x80000000).toNat)
      | none => .error (.varintTooLarge value)
    | _ => .ok (beBytes 8 (value ||| 0xc000000000000000).toNat)

def decodeVarint (input : List UInt8) : Except ProtocolError (UInt64 × List UInt8) :=
  match input with
  | [] => .error .unexpectedEnd
  | first :: rest =>
    let len : Nat := 1 <<< (first >>> 6).toNat
    if input.length < len then .error .unexpectedEnd
    else
      let value := (rest.take (len - 1)).foldl (fun (value : UInt64) byte => value <<< 8 ||| byte.toUInt64)
        (first &&& 0x3f).toUInt64
      .ok (value, input.drop len)

end Hysteria.Impl
