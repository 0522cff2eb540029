import Hysteria.Framework.Text

/-!
# Base64

The standard alphabet with padding. A text is decoded only if it is the
encoding of something: the bits that padding leaves over are zero.
-/

namespace Framework

def base64Char (n : Nat) : Char :=
  if n < 26 then Char.ofNat ('A'.toNat + n)
  else if n < 52 then Char.ofNat ('a'.toNat + (n - 26))
  else if n < 62 then Char.ofNat ('0'.toNat + (n - 52))
  else if n = 62 then '+'
  else '/'

def base64Value (c : Char) : Option Nat :=
  if 'A' ≤ c ∧ c ≤ 'Z' then some (c.toNat - 'A'.toNat)
  else if 'a' ≤ c ∧ c ≤ 'z' then some (c.toNat - 'a'.toNat + 26)
  else if '0' ≤ c ∧ c ≤ '9' then some (c.toNat - '0'.toNat + 52)
  else if c = '+' then some 62
  else if c = '/' then some 63
  else none

def base64Encode : List UInt8 → Str
  | [] => []
  | [a] => [base64Char (a.toNat / 4), base64Char (a.toNat % 4 * 16), '=', '=']
  | [a, b] =>
    [base64Char (a.toNat / 4), base64Char (a.toNat % 4 * 16 + b.toNat / 16), base64Char (b.toNat % 16 * 4), '=']
  | a :: b :: c :: rest =>
    base64Char (a.toNat / 4) :: base64Char (a.toNat % 4 * 16 + b.toNat / 16) ::
      base64Char (b.toNat % 16 * 4 + c.toNat / 64) :: base64Char (c.toNat % 64) :: base64Encode rest

def base64Decode : Str → Option (List UInt8)
  | [] => some []
  | [a, b, '=', '='] => do
    let (a, b) := (← base64Value a, ← base64Value b)
    if b % 16 = 0 then some [UInt8.ofNat (a * 4 + b / 16)] else none
  | [a, b, c, '='] => do
    let (a, b, c) := (← base64Value a, ← base64Value b, ← base64Value c)
    if c % 4 = 0 then some [UInt8.ofNat (a * 4 + b / 16), UInt8.ofNat (b % 16 * 16 + c / 4)] else none
  | a :: b :: c :: d :: rest => do
    let (a, b, c, d) := (← base64Value a, ← base64Value b, ← base64Value c, ← base64Value d)
    let bytes ← base64Decode rest
    return UInt8.ofNat (a * 4 + b / 16) :: UInt8.ofNat (b % 16 * 16 + c / 4) :: UInt8.ofNat (c % 4 * 64 + d) :: bytes
  | _ => none

example : base64Decode "YWxpY2U6c2VjcmV0" = some [97, 108, 105, 99, 101, 58, 115, 101, 99, 114, 101, 116] := by
  decide +kernel
example : base64Encode [97, 108, 105] = "YWxp" := by decide +kernel

theorem base64Encode_ne_nil : ∀ {bs : List UInt8}, bs ≠ [] → base64Encode bs ≠ []
  | [], h => absurd rfl h
  | [_], _ | [_, _], _ | _ :: _ :: _ :: _, _ => by simp [base64Encode]

/-- The encoding has no spaces and no line ends in it. -/
theorem not_isWhitespace_base64Char : ∀ n < 64, isWhitespace (base64Char n) = false := by
  decide +kernel

theorem not_isWhitespace_base64Encode (bs : List UInt8) : ∀ c ∈ base64Encode bs, isWhitespace c = false := by
  have hf : isWhitespace '=' = false := rfl
  have hch := not_isWhitespace_base64Char
  induction bs using base64Encode.induct with
  | case1 => simp [base64Encode]
  | case2 a =>
    have ha := a.toNat_lt
    simp only [base64Encode, List.forall_mem_cons]
    grind
  | case3 a b =>
    have ha := a.toNat_lt
    have hb := b.toNat_lt
    simp only [base64Encode, List.forall_mem_cons]
    grind
  | case4 a b c rest ih =>
    have ha := a.toNat_lt
    have hb := b.toNat_lt
    have hc := c.toNat_lt
    simp only [base64Encode, List.forall_mem_cons]
    grind

theorem base64Value_base64Char : ∀ n < 64, base64Value (base64Char n) = some n := by decide +kernel

/-- No digit is the padding. -/
theorem base64Char_ne : ∀ n < 64, base64Char n ≠ '=' := by decide +kernel

theorem base64Decode_base64Encode (bs : List UInt8) : base64Decode (base64Encode bs) = some bs := by
  have hv := base64Value_base64Char
  have hby (a : UInt8) (n : Nat) (h : n = a.toNat) : UInt8.ofNat n = a := by rw [h, UInt8.ofNat_toNat]
  induction bs using base64Encode.induct with
  | case1 => rfl
  | case2 a =>
    have ha := a.toNat_lt
    grind [base64Encode, base64Decode]
  | case3 a b =>
    have ha := a.toNat_lt
    have hb := b.toNat_lt
    simp [base64Encode, base64Decode, base64Char_ne (b.toNat % 16 * 4) (by omega), hv (a.toNat / 4) (by omega),
      hv (a.toNat % 4 * 16 + b.toNat / 16) (by omega), hv (b.toNat % 16 * 4) (by omega), -UInt8.ofNat_add]
    grind
  | case4 a b c rest ih =>
    have ha := a.toNat_lt
    have hb := b.toNat_lt
    have hc := c.toNat_lt
    simp [base64Encode, base64Decode, base64Char_ne (c.toNat % 64) (by omega), hv (a.toNat / 4) (by omega),
      hv (a.toNat % 4 * 16 + b.toNat / 16) (by omega), hv (b.toNat % 16 * 4 + c.toNat / 64) (by omega),
      hv (c.toNat % 64) (by omega), ih, -UInt8.ofNat_add]
    grind

theorem base64Encode_inj {a b : List UInt8} : base64Encode a = base64Encode b ↔ a = b :=
  ⟨fun h => Option.some.inj (by rw [← base64Decode_base64Encode a, h, base64Decode_base64Encode]), congrArg _⟩

end Framework
