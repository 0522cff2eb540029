import Mathlib.Data.Bool.AllAny
import Hysteria.Framework.Fallible
import Hysteria.Impl.Realm.PunchPacket
import Hysteria.Proof.Obfs.Frame

/-!
# Punch packets are read back

`decodeHex_exact`: on which texts `decode_hex` is right; it goes wrong on signs and on
characters that it cuts. `punchPacket_codec`: whoever has the metadata
reads the kind and the length of the padding of a packet made with it, and nothing is
read from a packet that has another nonce in it.
-/

namespace Hysteria.Proof

open Framework Impl
open List hiding Vector

variable {c : Char} {val : Str} {metadata : PunchMetadata} {nonce obfs : List UInt8} {pkt : PunchPacket}

/-! ## Hexadecimal text -/

def pairsText (pairs : List (Char × Char)) : Str := pairs.flatMap fun p => [p.1, p.2]

/-- `u8::from_str_radix` takes a plus sign for a digit, if it comes first. -/
def ReadsByte (p : Char × Char) : Prop :=
  (p.1 = '+' ∨ (hexDigit p.1).isSome = true) ∧ (hexDigit p.2).isSome = true

def pairByte (p : Char × Char) : UInt8 := UInt8.ofNat (16 * (hexDigit p.1).getD 0 + (hexDigit p.2).getD 0)

/-- After its first two bytes the text is inside a character. -/
def CutsCharacter (text : Str) : Prop :=
  ∃ c rest, text = c :: rest ∧ (0x800 ≤ c.toNat ∨ c.toNat < 0x80 ∧ ∃ d ∈ rest.head?, 0x80 ≤ d.toNat)

/-- A text of the right length whose pairs, as far as they can be read as bytes, do not
end at a character that is cut, and have no plus sign if they are all of it. -/
def HexReadable (n : Nat) (text : Str) : Prop :=
  (utf8 text).length = n * 2 → ∀ pairs rest, text = pairsText pairs ++ rest → (∀ p ∈ pairs, ReadsByte p) →
    ¬ CutsCharacter rest ∧ (rest = [] → '+' ∉ text)

theorem hexDigit_table : ∀ n < 128, ∀ d ∈ hexDigit (Char.ofNat n),
    d < 16 ∧ Nat.digitChar d = (Char.ofNat n).toLower := by
  decide +kernel

theorem toNat_hexDigit (h : (hexDigit c).isSome = true) : c.toNat < 128 := by
  have hle {d : Char} (hd : d.toNat < 128) (hc : c ≤ d) : c.toNat < 128 := Nat.lt_of_le_of_lt hc hd
  unfold hexDigit at h
  grind

/-- A digit has the lower-case form that its value is written with. -/
theorem digitChar_hexDigit {d : Nat} (h : hexDigit c = some d) : d < 16 ∧ Nat.digitChar d = c.toLower := by
  have ht := hexDigit_table c.toNat (toNat_hexDigit (by rw [h]; rfl))
  rw [Char.ofNat_toNat] at ht
  exact ht d h

theorem parseHexU8_pair (p : Char × Char) :
    parseHexU8 [p.1, p.2] = some (pairByte p) ∧ ReadsByte p ∨ parseHexU8 [p.1, p.2] = none ∧ ¬ ReadsByte p := by
  obtain ⟨a, b⟩ := p
  rcases hy : hexDigit b with _ | y
  · by_cases hp : a = '+' <;> rcases hx : hexDigit a with _ | x <;> simp [parseHexU8, ReadsByte, hp, hx, hy]
  have hlt := (digitChar_hexDigit hy).1
  by_cases hp : a = '+'
  · have hx : hexDigit '+' = none := by decide
    simp [parseHexU8, ReadsByte, pairByte, hp, hx, hy, show y < 256 by omega]
  rcases hx : hexDigit a with _ | x
  · simp [parseHexU8, ReadsByte, hp, hx]
  have hlt' := (digitChar_hexDigit hx).1
  simp [parseHexU8, ReadsByte, pairByte, hp, hx, hy, show x < 256 by omega, show x * 16 + y < 256 by omega,
    Nat.mul_comm 16 x]

theorem ReadsByte.length_utf8 {p : Char × Char} (h : ReadsByte p) : (utf8 [p.1, p.2]).length = 2 := by
  have ha : p.1.toNat < 128 := h.1.elim (fun hp => by rw [hp]; decide) toNat_hexDigit
  rw [utf8_ascii (by simpa using ⟨ha, toNat_hexDigit h.2⟩)]
  rfl

theorem length_utf8EncodeChar (c : Char) : (String.utf8EncodeChar c).length =
    if c.toNat < 0x80 then 1 else if c.toNat < 0x800 then 2 else if c.toNat < 0x10000 then 3 else 4 := by
  unfold String.utf8EncodeChar
  rw [show c.toNat = c.val.toNat from rfl]
  grind

/-- Two bytes are two characters of ASCII or one other, unless one is cut. -/
theorem two_bytes (h : 2 ≤ (utf8 val).length) :
    (∃ (p : Char × Char) (rest : Str), val = [p.1, p.2] ++ rest ∧ (utf8 [p.1, p.2]).length = 2) ∨
      (∃ c rest, val = [c] ++ rest ∧ (utf8 [c]).length = 2) ∨ CutsCharacter val := by
  rcases val with _ | ⟨c, val⟩
  · simp at h
  have hc := length_utf8EncodeChar c
  rw [utf8_cons, length_append] at h
  rcases Nat.lt_or_ge c.toNat 0x800 with h2 | h2 <;> [skip; exact .inr (.inr ⟨c, val, rfl, .inl h2⟩)]
  rcases Nat.lt_or_ge c.toNat 0x80 with h1 | h1
  · rcases val with _ | ⟨d, val⟩
    · simp [hc, h1] at h
    have hd := length_utf8EncodeChar d
    rcases Nat.lt_or_ge d.toNat 0x80 with h1' | h1'
    · exact .inl ⟨(c, d), val, rfl, by simp [hc, hd, h1, h1']⟩
    · exact .inr (.inr ⟨c, _, rfl, .inr ⟨h1, d, rfl, h1'⟩⟩)
  · exact .inr (.inl ⟨c, val, rfl, by simp [hc, h2, Nat.not_lt.mpr h1]⟩)

theorem CutsCharacter.byteSlice_eq_none (h : CutsCharacter val) : byteSlice val 0 2 = none := by
  rw [byteSlice]
  rcases hs : splitAtByte val 2 with _ | ⟨front, rest⟩
  · rfl
  obtain ⟨rfl, hf⟩ := splitAtByte_eq_some hs
  obtain ⟨c, more, he, hc⟩ := h
  rcases front with _ | ⟨c', front⟩
  · cases hf
  obtain ⟨rfl, rfl⟩ := cons.inj he
  have hlc := length_utf8EncodeChar c'
  rw [utf8_cons, length_append] at hf
  rcases hc with hc | ⟨hc, d, hd, h1⟩
  · grind
  · rcases front with _ | ⟨d', front⟩
    · simp [hlc, hc] at hf
    cases hd
    have hld := length_utf8EncodeChar d
    rw [utf8_cons, length_append] at hf
    grind

/-! ### One pair after the other -/

theorem decodeHex_append {n : Nat} {name first rest : Str} (hf : (utf8 first).length = 2)
    (hr : (utf8 rest).length = n * 2) : decodeHex (n + 1) name (first ++ rest) =
      (parseHexU8 first).elim (.error (.invalid ("invalid " ++ name)))
        fun byte => (decodeHex n name rest).map (byte :: ·) := by
  have hl : (utf8 (first ++ rest)).length = (n + 1) * 2 := by
    rw [utf8_append, length_append, hf, hr]
    omega
  have h0 : byteSlice (first ++ rest) (0 * 2) (0 * 2 + 2) = some first := by
    have hsl := byteSlice_append [] first rest
    simpa [hf] using hsl
  have hn (idx : Nat) : byteSlice (first ++ rest) ((idx + 1) * 2) ((idx + 1) * 2 + 2) =
      byteSlice rest (idx * 2) (idx * 2 + 2) := by
    have hsl := byteSlice_append_add first rest (idx * 2) (idx * 2 + 2)
    rw [hf] at hsl
    rw [← hsl]
    congr 1 <;> omega
  rw [decodeHex, decodeHex, if_neg (not_not_intro hl), if_neg (not_not_intro hr), range_succ_eq_map, mapM_cons,
    mapM_map, h0]
  simp only [Function.comp_def, Nat.succ_eq_add_one, hn]
  rcases parseHexU8 first with _ | byte
  · rfl
  · simp only [Option.elim_some, bind, Except.bind, pure, Except.pure, Except.map]

theorem decodeHex_cut {n : Nat} {name : Str} (hl : (utf8 val).length = n * 2) (h : CutsCharacter val) :
    decodeHex n name val = .error .panicked := by
  rcases n with _ | n
  · obtain ⟨c, rest, rfl, -⟩ := h
    rw [Nat.zero_mul, length_eq_zero_iff, utf8_eq_nil] at hl
    cases hl
  · rw [decodeHex, if_neg (not_not_intro hl), range_succ_eq_map, mapM_cons, Nat.zero_mul, Nat.zero_add,
      h.byteSlice_eq_none]
    rfl

theorem decodeHex_pairs (name rest : Str) {n : Nat} (hr : (utf8 rest).length = n * 2) (pairs : List (Char × Char))
    (h : ∀ p ∈ pairs, ReadsByte p) : (utf8 (pairsText pairs ++ rest)).length = (pairs.length + n) * 2 ∧
      decodeHex (pairs.length + n) name (pairsText pairs ++ rest) =
        (decodeHex n name rest).map (pairs.map pairByte ++ ·) := by
  induction pairs with
  | nil =>
    rw [length_nil, Nat.zero_add]
    exact ⟨hr, by cases hd : decodeHex n name rest <;> simp [pairsText, hd, Except.map]⟩
  | cons p pairs ih =>
    obtain ⟨hp, hps⟩ := forall_mem_cons.mp h
    obtain ⟨hl, he⟩ := ih hps
    have ht : pairsText (p :: pairs) ++ rest = [p.1, p.2] ++ (pairsText pairs ++ rest) := rfl
    have hb : parseHexU8 [p.1, p.2] = some (pairByte p) :=
      (parseHexU8_pair p).elim And.left fun hn => absurd hp hn.2
    rw [ht, length_cons, Nat.add_right_comm]
    refine ⟨by rw [utf8_append, length_append, hl, hp.length_utf8]; omega, ?_⟩
    rw [decodeHex_append hp.length_utf8 hl, hb, Option.elim_some, he]
    cases decodeHex n name rest <;> rfl

/-- `decode_hex` reads pairs up to the end, up to a character that it cuts, or up to what is no pair. -/
theorem decodeHex_cases (name : Str) (n : Nat) (hl : (utf8 val).length = n * 2) :
    ∃ pairs rest, val = pairsText pairs ++ rest ∧ (∀ p ∈ pairs, ReadsByte p) ∧
      (rest = [] ∧ decodeHex n name val = .ok (pairs.map pairByte) ∨ CutsCharacter rest ∨
        (∃ c ∈ rest, hexDigit c = none) ∧ decodeHex n name val = .error (.invalid ("invalid " ++ name))) := by
  induction n generalizing val with
  | zero =>
    rw [Nat.zero_mul, length_eq_zero_iff, utf8_eq_nil] at hl
    subst hl
    exact ⟨[], [], rfl, by simp, .inl ⟨rfl, rfl⟩⟩
  | succ n ih =>
    have hrest {first rest : Str} (hf : (utf8 first).length = 2) (hl : (utf8 (first ++ rest)).length = (n + 1) * 2) :
        (utf8 rest).length = n * 2 := by
      rw [utf8_append, length_append] at hl
      omega
    rcases two_bytes (show 2 ≤ (utf8 val).length by omega) with ⟨p, rest, rfl, hf⟩ | ⟨c, rest, rfl, hf⟩ | hc
    · have hr := hrest hf hl
      rw [decodeHex_append hf hr]
      rcases parseHexU8_pair p with ⟨hb, hp⟩ | ⟨hb, hp⟩ <;> rw [hb]
      · obtain ⟨pairs, more, rfl, hps, hends⟩ := ih hr
        refine ⟨p :: pairs, more, rfl, forall_mem_cons.mpr ⟨hp, hps⟩, ?_⟩
        rcases hends with ⟨hm, he⟩ | hc | ⟨hd, he⟩
        · exact .inl ⟨hm, by rw [Option.elim_some, he]; rfl⟩
        · exact .inr (.inl hc)
        · exact .inr (.inr ⟨hd, by rw [Option.elim_some, he]; rfl⟩)
      · refine ⟨[], _, rfl, by simp, .inr (.inr ⟨?_, rfl⟩)⟩
        by_contra hd
        have hd' (c : Char) (hc : c ∈ [p.1, p.2] ++ rest) : (hexDigit c).isSome = true :=
          Option.isSome_iff_ne_none.mpr fun hn => hd ⟨c, hc, hn⟩
        exact hp ⟨.inr (hd' _ (by simp)), hd' _ (by simp)⟩
    · have hd : hexDigit c = none := by
        by_contra hd
        rw [utf8_cons, utf8EncodeChar_ascii (toNat_hexDigit (Option.isSome_iff_ne_none.mpr hd))] at hf
        cases hf
      have hb : parseHexU8 [c] = none := by
        have hp : c ≠ '+' := by
          rintro rfl
          cases hf
        simp [parseHexU8, hp, hd]
      rw [decodeHex_append hf (hrest hf hl), hb]
      exact ⟨[], _, rfl, by simp, .inr (.inr ⟨⟨c, mem_cons_self, hd⟩, rfl⟩)⟩
    · exact ⟨[], val, rfl, by simp, .inr (.inl hc)⟩

theorem encodeHex_pairs (pairs : List (Char × Char)) (hd : ∀ c ∈ pairsText pairs, (hexDigit c).isSome = true) :
    encodeHex (pairs.map pairByte) = toAsciiLowercase (pairsText pairs) := by
  induction pairs with
  | nil => rfl
  | cons p pairs ih =>
    obtain ⟨ha, hb, hr⟩ := forall_mem_cons.mp hd |>.imp_right forall_mem_cons.mp
    obtain ⟨x, hx⟩ := Option.isSome_iff_exists.mp ha
    obtain ⟨y, hy⟩ := Option.isSome_iff_exists.mp hb
    obtain ⟨hlt, hlo⟩ := digitChar_hexDigit hx
    obtain ⟨hlt', hlo'⟩ := digitChar_hexDigit hy
    have hby : (pairByte p).toNat = 16 * x + y := by
      rw [pairByte, hx, hy, Option.getD_some, Option.getD_some]
      exact Nat.mod_eq_of_lt (by omega)
    have ht : pairsText (p :: pairs) = p.1 :: p.2 :: pairsText pairs := rfl
    have he (byte : UInt8) (bytes : List UInt8) : encodeHex (byte :: bytes) =
        Nat.digitChar (byte.toNat / 16) :: Nat.digitChar (byte.toNat % 16) :: encodeHex bytes := rfl
    rw [map_cons, he, hby, ih hr, ht, show (16 * x + y) / 16 = x by omega, show (16 * x + y) % 16 = y by omega,
      hlo, hlo']
    rfl

theorem ReadsByte.digits {pairs : List (Char × Char)} (h : ∀ p ∈ pairs, ReadsByte p) (hp : '+' ∉ pairsText pairs) :
    ∀ c ∈ pairsText pairs, (hexDigit c).isSome = true := by
  intro c hc
  obtain ⟨p, hm, hc⟩ := mem_flatMap.mp hc
  have hne : p.1 ≠ '+' := fun he => hp (mem_flatMap.mpr ⟨p, hm, by simp [he]⟩)
  rcases mem_pair.mp hc with rfl | rfl
  · exact (h p hm).1.resolve_left hne
  · exact (h p hm).2

/-- The texts on which `decode_hex` does what it should: no panic, two digits for each byte,
and these bytes are written as the text again. -/
theorem decodeHex_exact (n : Nat) (name value : Str) :
    (decodeHex n name value ≠ .error .panicked ∧ ((∃ bytes, decodeHex n name value = .ok bytes) ↔
        value.length = n * 2 ∧ ∀ c ∈ value, (hexDigit c).isSome = true) ∧
      ∀ bytes, decodeHex n name value = .ok bytes → encodeHex bytes = toAsciiLowercase value) ↔
      HexReadable n value := by
  have hdl (hd : ∀ c ∈ value, (hexDigit c).isSome = true) : (utf8 value).length = value.length := by
    rw [utf8_ascii fun c hc => toNat_hexDigit (hd c hc), length_map]
  rcases ne_or_eq (utf8 value).length (n * 2) with hl | hl
  · have hi : decodeHex n name value = .error (.invalid ("invalid " ++ name ++ " length")) := by
      rw [decodeHex, if_pos hl]
    rw [hi]
    refine ⟨fun _ h => absurd h hl, fun _ => ⟨by simp, ⟨by simp, fun hd => ?_⟩, by simp⟩⟩
    exact absurd ((hdl hd.2).trans hd.1) hl
  constructor
  · rintro ⟨hnp, hok, -⟩ - pairs rest rfl hps
    have hpl := (decodeHex_pairs name [] (n := 0) rfl pairs hps).1
    rw [append_nil] at hpl
    obtain ⟨m, rfl⟩ : ∃ m, n = pairs.length + m :=
      Nat.exists_eq_add_of_le (by rw [utf8_append, length_append] at hl; omega)
    have hr : (utf8 rest).length = m * 2 := by
      rw [utf8_append, length_append] at hl
      omega
    have he := (decodeHex_pairs name rest hr pairs hps).2
    refine ⟨fun hc => hnp (by rw [he, decodeHex_cut hr hc]; rfl), ?_⟩
    rintro rfl hp
    obtain rfl : m = 0 := by simpa using hr
    exact absurd ((hok.mp ⟨_, he⟩).2 '+' hp) (by decide)
  · intro h
    obtain ⟨pairs, rest, rfl, hps, hends⟩ := decodeHex_cases name n hl
    obtain ⟨hnc, hplus⟩ := h hl pairs rest rfl hps
    rcases hends with ⟨rfl, he⟩ | hc | ⟨⟨c, hc, hd⟩, he⟩
    · have hdig := ReadsByte.digits hps (by simpa using hplus rfl)
      rw [append_nil] at *
      refine ⟨by simp [he], ⟨fun _ => ⟨(hdl hdig).symm.trans hl, hdig⟩, fun _ => ⟨_, he⟩⟩, fun bytes hb => ?_⟩
      rw [he] at hb
      cases hb
      exact encodeHex_pairs pairs hdig
    · exact absurd hc hnc
    · refine ⟨by simp [he], ⟨by simp [he], fun hd' => ?_⟩, by simp [he]⟩
      have hs := hd'.2 c (mem_append_right _ hc)
      simp [hd] at hs

/-- A nonce that `decode_hex` cuts inside a character, and one with a sign that it takes for a digit. -/
theorem decodeHex_misread : decodeHex 16 "nonce" ("0é" ++ replicate 29 '0') = .error .panicked ∧
      (decodeHex 16 "nonce" ("+1" ++ replicate 30 '0')).isOk = true := by
  decide +kernel

/-! ## Packets -/

theorem length_decodeHex {n : Nat} {name : Str} {bs : List UInt8} (h : decodeHex n name val = .ok bs) :
    bs.length = n := by
  unfold decodeHex at h
  split at h
  · cases h
  · rw [length_mapM_ok h, length_range]

theorem decodeMetadata_ok (h : decodeMetadata metadata = .ok (nonce, obfs)) :
    decodeHex 16 "nonce" metadata.nonce = .ok nonce ∧ decodeHex 32 "obfs" metadata.obfs = .ok obfs := by
  obtain ⟨nonce, hn, h⟩ := bind_eq_ok h
  obtain ⟨obfs, ho, h⟩ := bind_eq_ok h
  cases h
  exact ⟨hn, ho⟩

theorem length_decodeMetadata (h : decodeMetadata metadata = .ok (nonce, obfs)) : nonce.length = 16 :=
  length_decodeHex (decodeMetadata_ok h).1

variable (sha256 : List UInt8 → Vector UInt8 keyLength)

theorem encodeWith_of_metadata
    (h : decodeMetadata metadata = .ok (nonce, obfs)) (kind : PunchPacketType) (rnd : PunchRandom) :
    PunchPacket.encodeWith sha256 kind metadata rnd.salt rnd.padding = .ok (rnd.salt.toList ++
      xorPacket sha256 (punchMagic ++ kind.byte :: nonce ++ rnd.padding) obfs rnd.salt.toList) := by
  rw [PunchPacket.encodeWith, if_neg (Nat.not_lt.2 rnd.length_padding), h]
  rfl

/-- The parts of a header are read from where they are written. -/
theorem readHeader_of_parts (hn : nonce.length = 16) (kind : PunchPacketType) (pad : List UInt8) :
    PunchPacket.readHeader nonce (punchMagic ++ kind.byte :: nonce ++ pad) = .ok ⟨kind, pad.length⟩ := by
  have hm : (punchMagic ++ kind.byte :: nonce ++ pad).take punchMagic.length = punchMagic := by
    rw [append_assoc, take_left]
  have hk : (punchMagic ++ kind.byte :: nonce ++ pad)[punchMagic.length]? = some kind.byte := by
    rfl
  have hh : (punchMagic ++ kind.byte :: nonce).length = punchHeaderLength := by
    rw [length_append, length_cons, hn]
    rfl
  have hb : PunchPacketType.ofByte kind.byte = some kind := by
    cases kind <;> rfl
  have hd : (punchMagic ++ kind.byte :: nonce).drop (punchMagic.length + 1) = nonce := by
    rw [← drop_drop, drop_left]
    rfl
  rw [PunchPacket.readHeader, hm, hk, take_left' hh, hd, length_append, hh, Nat.add_sub_cancel_left]
  simp [hb]

/-- Whoever has the metadata reads a packet made with it. -/
theorem punchPacket_decode_encode
    (h : decodeMetadata metadata = .ok (nonce, obfs)) (kind : PunchPacketType) (rnd : PunchRandom) :
    ∃ wire, PunchPacket.encode sha256 (.ok rnd) kind metadata = .ok wire ∧ wire.length ≤ maximumWireLength ∧
      PunchPacket.decode sha256 wire metadata = .ok ⟨kind, rnd.padding.length⟩ := by
  have hn := length_decodeMetadata h
  have hs : rnd.salt.toList.length = punchSaltLength := Vector.length_toList
  have hp := rnd.length_padding
  have hx (pkt : List UInt8) :
      xorPacket sha256 (xorPacket sha256 pkt obfs rnd.salt.toList) obfs rnd.salt.toList = pkt :=
    applyKey_applyKey _ _
  have hl : (rnd.salt.toList ++ xorPacket sha256 (punchMagic ++ kind.byte :: nonce ++ rnd.padding) obfs
      rnd.salt.toList).length = minimumWireLength + rnd.padding.length := by
    rw [length_append, hs, xorPacket, Salamander.applyKey, length_mapIdx, length_append,
      length_append, length_cons, hn]
    simp only [minimumWireLength, punchSaltLength, punchHeaderLength, punchMagic, length_cons, length_nil]
    omega
  refine ⟨_, encodeWith_of_metadata sha256 h kind rnd, ?_, ?_⟩
  · rw [hl, maximumWireLength]
    omega
  rw [PunchPacket.decode, hl, if_neg (by rw [maximumWireLength]; omega), h]
  change PunchPacket.readHeader nonce (xorPacket sha256 (drop _ _) obfs (take _ _)) = _
  rw [drop_left' hs, take_left' hs, hx, readHeader_of_parts hn]

/-- What is read from a header is in it. -/
theorem readHeader_ok {plaintext : List UInt8}
    (hl : punchHeaderLength ≤ plaintext.length) (h : PunchPacket.readHeader nonce plaintext = .ok pkt) :
    ∃ pad, plaintext = punchMagic ++ pkt.kind.byte :: nonce ++ pad ∧
      pkt.paddingLength = pad.length := by
  unfold PunchPacket.readHeader at h
  split at h
  · cases h
  rename_i hm
  split at h
  · cases h
  rename_i kind hk
  split at h
  · cases h
  rename_i hn
  cases h
  rw [not_not] at hm hn
  obtain ⟨byte, hb, hk⟩ := Option.bind_eq_some_iff.mp hk
  have hbyte' : kind.byte = byte := by
    unfold PunchPacketType.ofByte at hk
    split_ifs at hk with hh ha <;> cases hk
    · exact hh.symm
    · exact ha.symm
  refine ⟨plaintext.drop punchHeaderLength, ?_, by rw [List.length_drop]⟩
  have hhd : plaintext.take punchHeaderLength = punchMagic ++ kind.byte :: nonce := by
    have hlt : punchMagic.length < (plaintext.take punchHeaderLength).length := by
      rw [List.length_take, min_eq_left hl]
      decide
    have hg : (plaintext.take punchHeaderLength)[punchMagic.length] = kind.byte := by
      grind
    rw [← List.take_append_drop punchMagic.length (plaintext.take _), List.drop_eq_getElem_cons hlt, hg, hn,
      List.take_take]
    exact congrArg (· ++ _) hm
  rw [← hhd, List.take_append_drop]

theorem decode_ok {wire : List UInt8}
    (h : PunchPacket.decode sha256 wire metadata = .ok pkt) : 33 ≤ wire.length ∧ wire.length ≤ 1057 ∧
      ∃ nonce obfs pad, decodeMetadata metadata = .ok (nonce, obfs) ∧
        xorPacket sha256 (wire.drop 8) obfs (wire.take 8) = punchMagic ++ pkt.kind.byte :: nonce ++ pad ∧
        pkt.paddingLength = pad.length := by
  unfold PunchPacket.decode at h
  split at h
  · cases h
  rename_i hr
  obtain ⟨⟨nonce, obfs⟩, hm, h⟩ := bind_eq_ok h
  have hb : ¬(wire.length < 33 ∨ 1057 < wire.length) := hr
  have hl : punchHeaderLength ≤ (xorPacket sha256 (wire.drop 8) obfs (wire.take 8)).length := by
    rw [xorPacket, Salamander.applyKey, length_mapIdx, length_drop, punchHeaderLength]
    omega
  obtain ⟨pad, hp, hpd⟩ := readHeader_ok hl h
  grind

/-- The packet codec: a packet is read back under its metadata, not under one with another
nonce, and what is accepted has the length and the header of a packet. -/
theorem punchPacket_codec (metadata : PunchMetadata) :
    (∀ nonce obfs, decodeMetadata metadata = .ok (nonce, obfs) → ∀ kind salt padding, padding.length ≤ 1024 →
      ∃ wire, PunchPacket.encodeWith sha256 kind metadata salt padding = .ok wire ∧
        PunchPacket.decode sha256 wire metadata = .ok ⟨kind, padding.length⟩ ∧
        ∀ other : PunchMetadata, other.obfs = metadata.obfs → decodeHex 16 "nonce" other.nonce ≠ .ok nonce →
          ∃ error, PunchPacket.decode sha256 wire other = .error error) ∧
    ∀ wire packet, PunchPacket.decode sha256 wire metadata = .ok packet → 33 ≤ wire.length ∧ wire.length ≤ 1057 ∧
      ∃ nonce obfs padding, decodeMetadata metadata = .ok (nonce, obfs) ∧
        xorPacket sha256 (wire.drop 8) obfs (wire.take 8) = punchMagic ++ packet.kind.byte :: nonce ++ padding ∧
        packet.paddingLength = padding.length := by
  refine ⟨fun nonce obfs h kind salt padding hp => ?_, fun wire packet h => decode_ok sha256 h⟩
  obtain ⟨wire, he, -, hd⟩ := punchPacket_decode_encode sha256 h kind ⟨salt, padding, hp⟩
  refine ⟨wire, he, hd, fun other hob ho => ?_⟩
  cases hr : PunchPacket.decode sha256 wire other with
  | error error => exact ⟨error, rfl⟩
  | ok packet =>
    -- Both have read one text under the mask, so the nonces are the same.
    obtain ⟨-, -, nonce₁, obfs₁, padding₁, h₁, htext₁, -⟩ := decode_ok sha256 hd
    obtain ⟨-, -, nonce₂, obfs₂, padding₂, h₂, htext₂, -⟩ := decode_ok sha256 hr
    cases h.symm.trans h₁
    have hm := (decodeMetadata_ok h₂).2
    rw [hob, (decodeMetadata_ok h).2] at hm
    cases hm
    rw [htext₁, append_assoc, append_assoc] at htext₂
    obtain ⟨-, ht⟩ := cons.inj (append_cancel_left htext₂)
    have hl := (length_decodeMetadata h).trans (length_decodeMetadata h₂).symm
    rw [(append_inj ht hl).1] at ho
    exact absurd (decodeMetadata_ok h₂).1 ho

end Hysteria.Proof
