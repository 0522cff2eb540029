import Hysteria.Framework.Text

/-!
# IP addresses

The address types of the Rust standard library, the text they are parsed from
(`parseIpAddr`) and printed as (`IpAddr.display`). The parser reads a prefix of
its input and returns the rest. `readIpv4_displayV4`: an IPv4 address is
read back from its text. `parseSocketAddr_port`: a socket address ends with its
port.
-/

namespace Framework

open List

variable {c : Char} {rest s : Str} (bits : BitVec 128)
variable {n radix maxDigits bound b : Nat} {digit : Char → Option Nat} {leadingZero : Bool}

/-- `IpAddr`, as the numbers `u32::from` and `u128::from` give. -/
inductive IpAddr where
  | v4 (bits : BitVec 32)
  | v6 (bits : BitVec 128)
deriving DecidableEq

def IpAddr.isIpv4 : IpAddr → Bool
  | .v4 _ => true
  | .v6 _ => false

/-- `SocketAddr`; `scopeId` is zero for an IPv4 address. -/
structure SocketAddr where
  ip : IpAddr
  port : UInt16
  scopeId : UInt32 := 0
deriving DecidableEq

/-! ## Parsing -/

/-- `char::to_digit(16)`. -/
def hexDigit (c : Char) : Option Nat :=
  if '0' ≤ c ∧ c ≤ '9' then some (c.toNat - '0'.toNat)
  else if 'a' ≤ c ∧ c ≤ 'f' then some (c.toNat - 'a'.toNat + 10)
  else if 'A' ≤ c ∧ c ≤ 'F' then some (c.toNat - 'A'.toNat + 10)
  else none

def digitsValue (digit : Char → Option Nat) (radix : Nat) (digits : Str) : Nat :=
  digits.foldl (fun value c => radix * value + (digit c).getD 0) 0

/-- `read_number`: all the digits that follow, at most `maxDigits`. -/
def readNumber (digit : Char → Option Nat) (radix maxDigits bound : Nat) (leadingZero : Bool) (s : Str) :
    Option (Nat × Str) :=
  let digits := s.takeWhile fun c => (digit c).isSome
  let value := digitsValue digit radix digits
  if digits = [] ∨ maxDigits < digits.length ∨ bound ≤ value ∨
      (leadingZero = false ∧ digits.head? = some '0' ∧ 1 < digits.length) then none
  else some (value, s.drop digits.length)

def readChar (c : Char) : Str → Option Str
  | [] => none
  | x :: s => if x = c then some s else none

/-- `read_separator`: none before the first item. -/
def readSeparator {α : Type} (sep : Char) (index : Nat) (inner : Str → Option (α × Str)) (s : Str) : Option (α × Str) :=
  if index = 0 then inner s else (readChar sep s).bind inner

def readOctet (s : Str) : Option (Nat × Str) := readNumber decimalDigit 10 3 256 false s

def readIpv4 (s : Str) : Option (BitVec 32 × Str) := do
  let (a, s) ← readOctet s
  let (b, s) ← readSeparator '.' 1 readOctet s
  let (c, s) ← readSeparator '.' 2 readOctet s
  let (d, s) ← readSeparator '.' 3 readOctet s
  return (BitVec.ofNat 32 (((a * 256 + b) * 256 + c) * 256 + d), s)

def readGroup (s : Str) : Option (Nat × Str) := readNumber hexDigit 16 4 65536 true s

/-- `read_groups`: at most `left` groups of an IPv6 address, the last two
possibly written as an IPv4 address. -/
def readGroups : (left index : Nat) → Str → List Nat × Bool × Str
  | 0, _, s => ([], false, s)
  | left + 1, index, s =>
    match if 1 ≤ left then readSeparator ':' index readIpv4 s else none with
    | some (ip, s) => ([ip.toNat / 65536, ip.toNat % 65536], true, s)
    | none =>
      match readSeparator ':' index readGroup s with
      | none => ([], false, s)
      | some (group, s) =>
        let (groups, ipv4, s) := readGroups left (index + 1) s
        (group :: groups, ipv4, s)

def ofGroups (groups : List Nat) : BitVec 128 :=
  BitVec.ofNat 128 (groups.foldl (fun value group => value * 65536 + group) 0)

def readIpv6 (s : Str) : Option (BitVec 128 × Str) :=
  let (head, ipv4, s) := readGroups 8 0 s
  if head.length = 8 then some (ofGroups head, s)
  else if ipv4 then none
  else do
    let s ← readChar ':' s
    let s ← readChar ':' s
    let (tail, _, s) := readGroups (8 - (head.length + 1)) 0 s
    return (ofGroups (head ++ List.replicate (8 - head.length - tail.length) 0 ++ tail), s)

/-- The whole input. -/
def complete {α : Type} : Option (α × Str) → Option α
  | some (a, []) => some a
  | _ => none

/-- `str::parse::<Ipv6Addr>`. -/
def parseIpv6 (s : Str) : Option (BitVec 128) := complete (readIpv6 s)

/-- `str::parse::<IpAddr>`. -/
def parseIpAddr (s : Str) : Option IpAddr :=
  complete <| match readIpv4 s with
    | some (ip, rest) => some (.v4 ip, rest)
    | none => (readIpv6 s).map fun (ip, rest) => (.v6 ip, rest)

/-- `read_port`. -/
def readPort (s : Str) : Option (UInt16 × Str) := do
  let s ← readChar ':' s
  let (port, s) ← readNumber decimalDigit 10 s.length 65536 true s
  return (UInt16.ofNat port, s)

/-- `read_scope_id`: zero, if there is none. -/
def readScopeId (s : Str) : UInt32 × Str :=
  match (readChar '%' s).bind fun s => readNumber decimalDigit 10 s.length (2 ^ 32) true s with
  | some (scopeId, s) => (UInt32.ofNat scopeId, s)
  | none => (0, s)

/-- `read_socket_addr_v4`. -/
def readSocketAddrV4 (s : Str) : Option (SocketAddr × Str) := do
  let (ip, s) ← readIpv4 s
  let (port, s) ← readPort s
  return ({ ip := .v4 ip, port }, s)

/-- `read_socket_addr_v6`. -/
def readSocketAddrV6 (s : Str) : Option (SocketAddr × Str) := do
  let s ← readChar '[' s
  let (ip, s) ← readIpv6 s
  let (scopeId, s) := readScopeId s
  let s ← readChar ']' s
  let (port, s) ← readPort s
  return ({ ip := .v6 ip, port, scopeId }, s)

/-- `str::parse::<SocketAddr>`. -/
def parseSocketAddr (s : Str) : Option SocketAddr := complete ((readSocketAddrV4 s).or (readSocketAddrV6 s))

/-! ## Printing -/

def displayV4 (bits : BitVec 32) : Str :=
  let n := bits.toNat
  showNat (n / 2 ^ 24) ++ '.' :: (showNat (n / 2 ^ 16 % 256) ++ '.' :: (showNat (n / 2 ^ 8 % 256) ++
    '.' :: showNat (n % 256)))

def segments (bits : BitVec 128) : List Nat := (List.range 8).map fun i => bits.toNat / 65536 ^ (7 - i) % 65536

/-- The first longest run of zero segments: where it starts and its length. -/
def longestZeros (segments : List Nat) : Nat × Nat :=
  let step := fun (st : Nat × (Nat × Nat) × (Nat × Nat)) (segment : Nat) =>
    let (i, current, longest) := st
    if segment = 0 then
      let current := (if current.2 = 0 then i else current.1, current.2 + 1)
      (i + 1, current, if current.2 > longest.2 then current else longest)
    else (i + 1, (0, 0), longest)
  (segments.foldl step (0, (0, 0), (0, 0))).2.2

def displaySegments (segments : List Nat) : Str := [':'].intercalate (segments.map (Nat.toDigits 16))

def displayV6 (bits : BitVec 128) : Str :=
  if bits.toNat / 2 ^ 32 = 0xffff then "::ffff:" ++ displayV4 (BitVec.ofNat 32 bits.toNat)
  else
    let segments := segments bits
    let (start, len) := longestZeros segments
    if len > 1 then
      displaySegments (segments.take start) ++ "::" ++ displaySegments (segments.drop (start + len))
    else displaySegments segments

def IpAddr.display : IpAddr → Str
  | .v4 bits => displayV4 bits
  | .v6 bits => displayV6 bits

def SocketAddr.display (a : SocketAddr) : Str :=
  match a.ip with
  | .v4 bits => displayV4 bits ++ ':' :: showNat a.port.toNat
  | .v6 bits =>
    '[' :: displayV6 bits ++ (if a.scopeId = 0 then [] else '%' :: showNat a.scopeId.toNat) ++ "]:" ++
      showNat a.port.toNat

example : parseIpAddr "2001:db8::ff00:42:8329" = some (.v6 0x20010db8000000000000ff0000428329) := by
  decide +kernel
example : (IpAddr.v6 0x20010db8000000000000ff0000428329).display = "2001:db8::ff00:42:8329" := by
  decide +kernel
example : parseIpAddr "::ffff:192.0.2.128" = some (.v6 0xffffc0000280) := by decide +kernel
example : parseIpAddr "192.0.02.1" = none := by decide +kernel
example : parseSocketAddr "[fe80::1%3]:443" = some ⟨.v6 0xfe800000000000000000000000000001, 443, 3⟩ := by
  decide +kernel

/-! ## IPv4 addresses are read back -/

theorem octet_digits : ∀ n < 256, (showNat n).all (fun c => (decimalDigit c).isSome) = true ∧
    showNat n ≠ [] ∧ (showNat n).length ≤ 3 ∧ digitsValue decimalDigit 10 (showNat n) = n ∧
    ¬ ((showNat n).head? = some '0' ∧ 1 < (showNat n).length) := by
  decide +kernel

theorem readOctet_append (h : n < 256) (hr : ∀ c ∈ rest.head?, (decimalDigit c).isSome = false) :
    readOctet (showNat n ++ rest) = some (n, rest) := by
  obtain ⟨ha, hne, hln, hv, hzr⟩ := octet_digits n h
  have hd : (showNat n ++ rest).takeWhile (fun c => (decimalDigit c).isSome) = showNat n := by
    rw [takeWhile_append_of_pos (by simpa using ha)]
    rcases rest with _ | ⟨c, rest⟩
    · simp
    simp_all
  simp only [readOctet, readNumber, hd, hv]
  grind

theorem readSeparator_append {i : Nat} (h : n < 256) (hr : ∀ c ∈ rest.head?, (decimalDigit c).isSome = false) :
    readSeparator '.' (i + 1) readOctet ('.' :: (showNat n ++ rest)) = some (n, rest) := by
  exact readOctet_append h hr

/-- An IPv4 address is read back from its text. -/
theorem readIpv4_displayV4 (bits : BitVec 32) (rest : Str) (hr : ∀ c ∈ rest.head?, (decimalDigit c).isSome = false) :
    readIpv4 (displayV4 bits ++ rest) = some (bits, rest) := by
  have hd : ∀ s : Str, ∀ c ∈ ('.' :: s).head?, (decimalDigit c).isSome = false := by
    rintro s c ⟨⟩
    rfl
  simp only [readIpv4, displayV4, append_assoc, cons_append, Option.bind_eq_bind]
  rw [readOctet_append (by omega) (hd _), Option.bind_some, readSeparator_append (by omega) (hd _),
    Option.bind_some, readSeparator_append (by omega) (hd _), Option.bind_some,
    readSeparator_append (by omega) hr, Option.bind_some]
  have hv : ((bits.toNat / 2 ^ 24 * 256 + bits.toNat / 2 ^ 16 % 256) * 256 + bits.toNat / 2 ^ 8 % 256) * 256 +
      bits.toNat % 256 = bits.toNat := by omega
  grind

/-- No address starts with a bracket: that of a socket address is not read. -/
theorem parseIpAddr_bracket (s : Str) : parseIpAddr ('[' :: s) = none := by
  rfl

/-! ## A reader leaves an end of its input -/

theorem readNumber_eq_some (h : readNumber digit radix maxDigits bound leadingZero s = some (n, rest)) :
    ∃ ds, s = ds ++ rest ∧ ds ≠ [] ∧ ∀ c ∈ ds, (digit c).isSome = true := by
  simp only [readNumber] at h
  split at h
  · cases h
  rename_i hd
  cases h
  refine ⟨s.takeWhile fun c => (digit c).isSome, ?_, fun hn => hd (.inl hn), fun c => mem_takeWhile_imp⟩
  exact (take_append_drop _ s).symm.trans (by rw [← prefix_iff_eq_take.mp ( takeWhile_prefix _)])

theorem readNumber_suffix (h : readNumber digit radix maxDigits bound leadingZero s = some (n, rest)) : rest <:+ s := by
  obtain ⟨ds, rfl, -⟩ := readNumber_eq_some h
  exact suffix_append _ _

theorem readChar_eq_some (h : readChar c s = some rest) : s = c :: rest := by
  rcases s with _ | ⟨x, s⟩
  · cases h
  rw [readChar] at h
  split at h
  · rename_i hx
    cases h
    rw [hx]
  · cases h

theorem readChar_suffix (h : readChar c s = some rest) : rest <:+ s := by
  rw [readChar_eq_some h]
  exact suffix_cons _ _

theorem readSeparator_suffix {α : Type} {sep : Char} {idx : Nat} {inner : Str → Option (α × Str)} {a : α}
    (hi : ∀ {s a rest}, inner s = some (a, rest) → rest <:+ s)
    (h : readSeparator sep idx inner s = some (a, rest)) : rest <:+ s := by
  unfold readSeparator at h
  split at h
  · exact hi h
  · obtain ⟨s', hs, h⟩ := Option.bind_eq_some_iff.mp h
    exact (hi h).trans (readChar_suffix hs)

theorem readIpv4_suffix {ip : BitVec 32} (h : readIpv4 s = some (ip, rest)) : rest <:+ s := by
  simp only [readIpv4, Option.bind_eq_bind, Option.bind_eq_some_iff, Prod.exists] at h
  obtain ⟨a, s₁, ha, b, s₂, hb, c, s₃, hc, d, s₄, hd, heq⟩ := h
  cases heq
  have h₁ : s₁ <:+ s := readNumber_suffix ha
  have h₂ : s₂ <:+ s := (readSeparator_suffix readNumber_suffix hb).trans h₁
  have h₃ : s₃ <:+ s := (readSeparator_suffix readNumber_suffix hc).trans h₂
  exact (readSeparator_suffix readNumber_suffix hd).trans h₃

theorem readGroups_suffix : ∀ (left idx : Nat) (s : Str), (readGroups left idx s).2.2 <:+ s
  | 0, _, s => suffix_refl s
  | left + 1, idx, s => by
    rw [readGroups]
    split
    · grind [readSeparator_suffix, readIpv4_suffix]
    split
    · exact suffix_refl s
    · rename_i hg
      exact (readGroups_suffix left (idx + 1) _).trans (readSeparator_suffix readNumber_suffix hg)

theorem readIpv6_suffix {ip : BitVec 128} (h : readIpv6 s = some (ip, rest)) : rest <:+ s := by
  have hh := readGroups_suffix 8 0 s
  simp only [readIpv6] at h
  split at h
  · cases h
    exact hh
  split at h
  · cases h
  simp only [Option.bind_eq_bind, Option.bind_eq_some_iff] at h
  obtain ⟨s₁, hf, s₂, hs, heq⟩ := h
  cases heq
  exact (readGroups_suffix _ _ s₂).trans ((readChar_suffix hs).trans ((readChar_suffix hf).trans hh))

theorem readScopeId_suffix (s : Str) : (readScopeId s).2 <:+ s := by
  unfold readScopeId
  split
  · rename_i h
    obtain ⟨s', hp, h⟩ := Option.bind_eq_some_iff.mp h
    exact (readNumber_suffix h).trans (readChar_suffix hp)
  · exact suffix_refl s

theorem readPort_eq_some {port : UInt16} (h : readPort s = some (port, rest)) :
    ∃ ds, s = ':' :: ds ++ rest ∧ ds ≠ [] ∧ ∀ c ∈ ds, (decimalDigit c).isSome = true := by
  simp only [readPort, Option.bind_eq_bind, Option.bind_eq_some_iff, Prod.exists] at h
  obtain ⟨s₁, hc, n, s₂, hn, heq⟩ := h
  cases heq
  obtain ⟨ds, rfl, hne, hd⟩ := readNumber_eq_some hn
  exact ⟨ds, readChar_eq_some hc, hne, hd⟩

theorem parseSocketAddr_port {a : SocketAddr} (h : parseSocketAddr s = some a) :
    ∃ ip ds, s = ip ++ ':' :: ds ∧ ds ≠ [] ∧ ∀ c ∈ ds, (decimalDigit c).isSome = true := by
  have hr : ((readSocketAddrV4 s).or (readSocketAddrV6 s)) = some (a, []) := by
    unfold parseSocketAddr complete at h
    grind
  have hp : ∃ s' port, s' <:+ s ∧ readPort s' = some (port, []) := by
    rcases Option.or_eq_some_iff.mp hr with hv4 | ⟨-, hv6⟩
    · simp only [readSocketAddrV4, Option.bind_eq_bind, Option.bind_eq_some_iff, Prod.exists] at hv4
      grind [readIpv4_suffix]
    simp only [readSocketAddrV6, Option.bind_eq_bind, Option.bind_eq_some_iff, Prod.exists] at hv6
    obtain ⟨s₁, ho, ip, s₂, hip, s₃, hc, port, s₄, hp, heq⟩ := hv6
    cases heq
    have h₂ : s₂ <:+ s := (readIpv6_suffix hip).trans (readChar_suffix ho)
    have h₃ : s₃ <:+ s₂ := (readChar_suffix hc).trans (readScopeId_suffix s₂)
    exact ⟨s₃, port, h₃.trans h₂, hp⟩
  obtain ⟨s', port, ⟨ip, rfl⟩, hp⟩ := hp
  grind [readPort_eq_some]

/-! ## The characters of an address -/

theorem mem_toDigits (hb : 1 < b) : ∀ n, c ∈ Nat.toDigits b n → ∃ d < b, c = Nat.digitChar d := by
  intro n
  induction n using Nat.strongRecOn with
  | ind n ih =>
    intro hc
    rw [Nat.toDigits_eq_if hb] at hc
    split at hc
    · grind
    rename_i hn
    rcases mem_append.mp hc with hc | hc
    · exact ih (n / b) (Nat.div_lt_self (by omega) hb) hc
    · exact ⟨n % b, Nat.mod_lt n (by omega), mem_singleton.mp hc⟩

theorem not_mem_toDigits (hb : 1 < b) (h : ∀ d < b, c ≠ Nat.digitChar d) (n : Nat) : c ∉ Nat.toDigits b n := by
  intro hc
  grind [mem_toDigits]

theorem not_mem_displayV4 (hd : c ≠ '.') (h : ∀ d < 10, c ≠ Nat.digitChar d) (bits : BitVec 32) :
    c ∉ displayV4 bits := by
  have hs : ∀ n, c ∉ showNat n := not_mem_toDigits (by decide) h
  simp only [displayV4, mem_append, mem_cons, hs, hd, or_self, not_false_eq_true]

theorem not_mem_displaySegments (hcl : c ≠ ':') (h : ∀ d < 16, c ≠ Nat.digitChar d) (segs : List Nat) :
    c ∉ displaySegments segs := by
  intro hc
  rcases mem_intercalate hc with hc | ⟨txt, ht, hc⟩
  · exact hcl hc
  grind [not_mem_toDigits]

theorem colon_mem_displayV6 : ':' ∈ displayV6 bits := by
  unfold displayV6
  split
  · simp
  simp only
  split
  · simp
  · simp [displaySegments, segments, range_succ, intercalate, intersperse]

theorem bracket_not_mem_displayV6 : '[' ∉ displayV6 bits := by
  have hs := not_mem_displaySegments (c := '[') (by decide) (by decide)
  unfold displayV6
  split
  · simp only [mem_append, not_or]
    grind [not_mem_displayV4]
  simp only
  split
  · simp_all
  · exact hs _

/-! ## Lengths -/

theorem length_showNat_le {k : Nat} (hk : 0 < k) (h : n < 10 ^ k) : (showNat n).length ≤ k :=
  (Nat.length_toDigits_le_iff (by decide) hk).mpr h

theorem length_displayV4_le (bits : BitVec 32) : (displayV4 bits).length ≤ 15 := by
  have ho : ∀ n < 256, (showNat n).length ≤ 3 := fun n h => length_showNat_le (by decide) (by omega)
  have h₁ := ho (bits.toNat / 2 ^ 24) (by omega)
  have h₂ := ho (bits.toNat / 2 ^ 16 % 256) (by omega)
  have h₃ := ho (bits.toNat / 2 ^ 8 % 256) (by omega)
  grind [length_append, length_cons, displayV4]

theorem length_displaySegments_le : ∀ {segs : List Nat}, (∀ n ∈ segs, n < 65536) →
    (displaySegments segs).length ≤ 5 * segs.length
  | [], _ => Nat.le_refl _
  | [n], h => by
    have := (Nat.length_toDigits_le_iff (b := 16) (n := n) (k := 4) (by decide) (by decide)).mpr
      (h n mem_cons_self)
    simp only [displaySegments, map_cons, map_nil, intercalate_singleton, length_cons, length_nil]
    omega
  | n :: m :: segs, h => by
    have hn := (Nat.length_toDigits_le_iff (b := 16) (n := n) (k := 4) (by decide) (by decide)).mpr
      (h n mem_cons_self)
    have hr := length_displaySegments_le fun k hk => h k (mem_cons_of_mem n hk)
    simp only [displaySegments, map_cons, intercalate_cons_cons, length_append, length_cons, length_nil] at hr ⊢
    omega

theorem length_displayV6_le : (displayV6 bits).length ≤ 42 := by
  have hs : ∀ n ∈ segments bits, n < 65536 := by
    intro n hn
    obtain ⟨i, -, rfl⟩ := mem_map.mp hn
    omega
  have hl : (segments bits).length = 8 := by simp [segments]
  unfold displayV6
  split
  · have := length_displayV4_le (BitVec.ofNat 32 bits.toNat)
    rw [length_append]
    exact Nat.le_trans (Nat.add_le_add_left this _) (by decide)
  simp only
  split
  · have h₁ := length_displaySegments_le fun n hn =>
      hs n (mem_of_mem_take (i := (longestZeros (segments bits)).1) hn)
    have h₂ := length_displaySegments_le fun n hn => hs n (mem_of_mem_drop
      (i := (longestZeros (segments bits)).1 + (longestZeros (segments bits)).2) hn)
    rw [length_take] at h₁
    rw [length_drop] at h₂
    rw [length_append, length_append, show "::".toList.length = 2 from rfl]
    omega
  · exact Nat.le_trans (length_displaySegments_le hs) (by omega)

theorem length_display_le (ip : IpAddr) : ip.display.length ≤ 82 := by
  cases ip with
  | v4 bits => exact Nat.le_trans (length_displayV4_le bits) (by decide)
  | v6 bits => exact Nat.le_trans (length_displayV6_le bits) (by decide)

theorem length_socketDisplay_le (a : SocketAddr) : a.display.length ≤ 101 := by
  have hp : (showNat a.port.toNat).length ≤ 5 :=
    length_showNat_le (by decide) (Nat.lt_trans a.port.toNat_lt (by decide))
  have hs : (showNat a.scopeId.toNat).length ≤ 10 :=
    length_showNat_le (by decide) (Nat.lt_trans a.scopeId.toNat_lt (by decide))
  unfold SocketAddr.display
  split
  · grind [length_displayV4_le, length_append, length_cons]
  rename_i bits _
  grind [length_displayV6_le bits]

end Framework
