import Hysteria.Framework.Fallible
import Hysteria.Impl.Sniff
import Hysteria.Spec.ClientHello

/-!
# The server name of a ClientHello

`parse_client_hello_sni` walks with positions. What it returns is where the lengths in the
data say (`parseClientHelloSni_eq_ok_iff`), and in a message that is where the message has
it (`helloName_encode`).

Whatever the data is, an index is below an end that was compared with the length
of the data (`namesLoop_safe`, `extensionsLoop_safe`).
-/

namespace Hysteria.Proof

open Framework Impl Impl.Sniff Spec List

variable {data rest : List UInt8}
variable {α : Type} {bs : List UInt8} {n rounds : Nat} {others more : List NameEntry} {ent : NameEntry}
  {names : NameList}

/-- The function returns: a value with this property, or `None`. -/
abbrev Returns {α : Type} (Q : α → Prop) (x : Except SniffStop α) : Prop := Ends (· = .absent) Q x

theorem returns_orNone (x : Option α) : Returns (x = some ·) (orNone x) := by
  rcases x with _ | a
  · exact .error rfl
  · exact .ok rfl

theorem returns_orPanic {x : Option α} (h : x.isSome) : Returns (x = some ·) (orPanic x) := by
  rcases x with _ | a
  · cases h
  · exact .ok rfl

theorem exists_orNone_of_returns {Q : α → Prop} {x : Except SniffStop α} (h : Returns Q x) :
    ∃ found : Option α, x = orNone found := by
  cases x with
  | ok a => exact ⟨some a, rfl⟩
  | error stop =>
    obtain rfl : stop = .absent := h.of_error stop rfl
    exact ⟨none, rfl⟩

theorem returns_readU16 (data : List UInt8) (pos : Nat) : Returns (fun _ => True) (Sniff.readU16 data pos) :=
  (returns_orNone _).bind fun _ _ => (returns_orNone _).bind fun _ _ => .ok trivial

/-! ## Any data -/

theorem isSome_getElem? {xs : List α} {i : Nat} (h : i < xs.length) : xs[i]?.isSome := by
  rw [getElem?_eq_getElem h]
  rfl

theorem isSome_slice {start stop : Nat} (h : start ≤ stop) (hs : stop ≤ bs.length) : (slice bs start stop).isSome := by
  rw [slice, if_pos ⟨h, hs⟩]
  rfl

theorem namesLoop_safe {listEnd : Nat} (he : listEnd ≤ data.length) (rounds name : Nat) (hr : rounds ≠ 0)
    (h : listEnd < name + rounds) : Returns (fun _ => True) (namesLoop data listEnd rounds name) := by
  induction rounds generalizing name with
  | zero => exact absurd rfl hr
  | succ rounds ih =>
    rw [namesLoop]
    refine .branch (fun hle => ?_) fun _ => .ok trivial
    refine (returns_orPanic (isSome_getElem? (by omega))).bind fun nameKind _ => ?_
    refine (returns_readU16 _ _).bind fun nameLength _ => ?_
    dsimp only
    refine .branch (fun _ => .error rfl) fun hin => ?_
    refine .branch (fun _ => ?_) fun _ => ih _ (by omega) (by omega)
    refine (returns_orPanic (isSome_slice (by omega) (by omega))).bind fun bs _ => ?_
    exact (returns_orNone _).bind fun host _ => .ok trivial

theorem extensionsLoop_safe {stop : Nat} (hs : stop ≤ data.length) (rounds pos : Nat) (hr : rounds ≠ 0)
    (h : stop < pos + rounds) : Returns (fun _ => True) (extensionsLoop data stop rounds pos) := by
  induction rounds generalizing pos with
  | zero => exact absurd rfl hr
  | succ rounds ih =>
    rw [extensionsLoop]
    refine .branch (fun hle => ?_) fun _ => .error rfl
    refine (returns_readU16 _ _).bind fun kind _ => (returns_readU16 _ _).bind fun len _ => ?_
    dsimp only
    refine .branch (fun _ => .error rfl) fun hin => ?_
    have hn := ih (pos + 4 + len) (by omega) (by omega)
    refine .branch (fun _ => ?_) fun _ => hn
    refine (returns_readU16 _ _).bind fun listLength _ => ?_
    refine (namesLoop_safe (by omega) _ _ (by omega) (by omega)).bind fun host _ => ?_
    rcases host with _ | host
    · exact hn
    · exact .ok trivial

theorem skipU8Vector_returns (data : List UInt8) (pos : Nat) : Returns (fun _ => True) (skipU8Vector data pos) :=
  (returns_orNone _).bind fun _ _ => .ok trivial

theorem skipU16Vector_returns (data : List UInt8) (pos : Nat) : Returns (fun _ => True) (skipU16Vector data pos) :=
  (returns_readU16 _ _).bind fun _ _ => .ok trivial

theorem parseClientHelloSni_returns (data : List UInt8) : Returns (fun _ => True) (parseClientHelloSni data) := by
  unfold parseClientHelloSni
  dsimp only
  refine .branch (fun _ => .error rfl) fun _ => ?_
  refine (skipU8Vector_returns _ _).bind fun pos _ => ?_
  refine (skipU16Vector_returns _ _).bind fun pos _ => ?_
  refine (skipU8Vector_returns _ _).bind fun pos _ => ?_
  refine (returns_readU16 _ _).bind fun extensionsLength _ => ?_
  grind [extensionsLoop_safe]

/-! ## Where the name is -/

section Where

variable {pos stop : Nat}

theorem orNone_eq_ok_iff {x : Option α} {a : α} : orNone x = .ok a ↔ x = some a := by
  cases x <;> simp [orNone]

theorem orPanic_eq_ok_iff {x : Option α} {a : α} : orPanic x = .ok a ↔ x = some a := by
  cases x <;> simp [orPanic]

theorem readU16_eq_ok_iff : Sniff.readU16 data pos = .ok n ↔ ShortAt data pos n := by
  rw [Sniff.readU16, bind_eq_ok_iff]
  simp only [bind_eq_ok_iff, orNone_eq_ok_iff, ShortAt, pure, Except.pure, Except.ok.injEq, @eq_comm _ n, ← and_assoc]
  grind

theorem listedName_of_namesLoop {host : Option Str} (h : namesLoop data stop rounds pos = .ok host) :
    ∃ name, ListedName data stop pos name ∧ Option.Rel (fun bs txt => fromUtf8 bs = some txt) name host := by
  induction rounds generalizing pos with
  | zero => cases h
  | succ rounds ih =>
    rw [namesLoop] at h
    split at h
    · obtain ⟨kind, hk, h⟩ := bind_eq_ok h
      obtain ⟨len, hl, h⟩ := bind_eq_ok h
      dsimp only at h
      split at h
      · cases h
      rename_i hin
      rw [orPanic_eq_ok_iff] at hk
      rw [readU16_eq_ok_iff] at hl
      split at h
      · rename_i hz
        obtain ⟨bs, hbs, h⟩ := bind_eq_ok h
        obtain ⟨txt, ht, h⟩ := bind_eq_ok h
        cases h
        exact ⟨some bs, .host (Nat.le_of_not_lt hin) (hz ▸ hk) hl (orPanic_eq_ok_iff.mp hbs),
          .some (orNone_eq_ok_iff.mp ht)⟩
      · rename_i hz
        obtain ⟨name, hn, hr⟩ := ih h
        exact ⟨name, .other (Nat.le_of_not_lt hin) hk hz hl hn, hr⟩
    · cases h
      exact ⟨none, .nil (by omega), .none⟩

theorem namesLoop_of_listedName {name : Option (List UInt8)} (h : ListedName data stop pos name)
    (hr : stop ≤ pos + rounds) : namesLoop data stop (rounds + 1) pos =
      name.elim (.ok none) fun bs => (orNone (fromUtf8 bs)).map some := by
  induction h generalizing rounds with
  | nil hs =>
    rw [namesLoop, if_neg (by omega)]
    rfl
  | host hin hk hl hsl =>
    rw [namesLoop, if_pos (by omega), orPanic_eq_ok_iff.mpr hk, readU16_eq_ok_iff.mpr hl]
    simp only [bind, Except.bind]
    rw [if_neg (by omega), if_pos trivial, orPanic_eq_ok_iff.mpr hsl]
    simp only [Option.elim_some]
    rcases fromUtf8 _ <;> rfl
  | other hin hk hz hl _ ih =>
    obtain ⟨rounds, rfl⟩ := Nat.exists_eq_succ_of_ne_zero (n := rounds) (by omega)
    rw [namesLoop, if_pos (by omega), orPanic_eq_ok_iff.mpr hk, readU16_eq_ok_iff.mpr hl]
    simp only [bind, Except.bind]
    rw [if_neg (by omega), if_neg hz]
    exact ih (by omega)

theorem extensionName_of_loop {host : Str} (h : extensionsLoop data stop rounds pos = .ok host) :
    ∃ name, ExtensionName data stop pos name ∧ fromUtf8 name = some host := by
  induction rounds generalizing pos with
  | zero => cases h
  | succ rounds ih =>
    rw [extensionsLoop] at h
    split at h <;> [skip; cases h]
    obtain ⟨kind, hk, h⟩ := bind_eq_ok h
    obtain ⟨len, hl, h⟩ := bind_eq_ok h
    rw [readU16_eq_ok_iff] at hk hl
    dsimp only at h
    split at h
    · cases h
    rename_i hin
    split at h
    · rename_i hz
      obtain ⟨listLength, hll, h⟩ := bind_eq_ok h
      obtain ⟨found, hn, h⟩ := bind_eq_ok h
      rw [readU16_eq_ok_iff] at hll
      obtain ⟨name, hlisted, hrel⟩ := listedName_of_namesLoop hn
      obtain ⟨rfl, hlen⟩ := hz
      cases hrel with
      | none =>
        obtain ⟨name, hx, ht⟩ := ih h
        exact ⟨name, .next (Nat.le_of_not_lt hin) hk hl (fun _ _ => ⟨listLength, hll, hlisted⟩) hx, ht⟩
      | some ht =>
        cases h
        exact ⟨_, .found (Nat.le_of_not_lt hin) hk hl hlen ⟨listLength, hll, hlisted⟩, ht⟩
    · rename_i hz
      obtain ⟨name, hx, ht⟩ := ih h
      exact ⟨name, .next (Nat.le_of_not_lt hin) hk hl (fun h0 h5 => absurd ⟨h0, h5⟩ hz) hx, ht⟩

theorem loop_of_extensionName {name : List UInt8} (h : ExtensionName data stop pos name) (hs : stop ≤ data.length)
    (hr : stop ≤ pos + rounds) : extensionsLoop data stop (rounds + 1) pos = orNone (fromUtf8 name) := by
  induction h generalizing rounds with
  | found hin hk hl hlen hn =>
    obtain ⟨listLength, hll, hn⟩ := hn
    rw [extensionsLoop, if_pos (by omega), readU16_eq_ok_iff.mpr hk, readU16_eq_ok_iff.mpr hl]
    simp only [bind, Except.bind]
    rw [if_neg (by omega), if_pos ⟨trivial, hlen⟩, readU16_eq_ok_iff.mpr hll]
    simp only
    rw [namesLoop_of_listedName hn (by omega), Option.elim_some]
    rcases fromUtf8 _ <;> rfl
  | @next pos kind len name hin hk hl hn _ ih =>
    obtain ⟨rounds, rfl⟩ := Nat.exists_eq_succ_of_ne_zero (n := rounds) (by omega)
    have hnext := @ih rounds (by omega)
    rw [extensionsLoop, if_pos (by omega), readU16_eq_ok_iff.mpr hk, readU16_eq_ok_iff.mpr hl]
    simp only [bind, Except.bind]
    rw [if_neg (by omega)]
    split
    · rename_i hz
      obtain ⟨listLength, hll, hn⟩ := hn hz.1 hz.2
      rw [readU16_eq_ok_iff.mpr hll]
      simp only
      rw [namesLoop_of_listedName hn (by omega), Option.elim_none]
      exact hnext
    · exact hnext

theorem skipU8Vector_eq_ok_iff : skipU8Vector data pos = .ok n ↔
    ∃ length, data[pos]? = some length ∧ n = pos + 1 + length.toNat := by
  simp only [skipU8Vector, bind_eq_ok_iff, orNone_eq_ok_iff, pure, Except.pure, Except.ok.injEq, @eq_comm _ n,
    Nat.add_assoc]

theorem skipU16Vector_eq_ok_iff : skipU16Vector data pos = .ok n ↔
    ∃ length, ShortAt data pos length ∧ n = pos + 2 + length := by
  simp only [skipU16Vector, bind_eq_ok_iff, readU16_eq_ok_iff, pure, Except.pure, Except.ok.injEq, @eq_comm _ n,
    Nat.add_assoc]

theorem parseClientHelloSni_of_helloName {name : List UInt8} (h : HelloName data name) :
    parseClientHelloSni data = orNone (fromUtf8 name) := by
  obtain ⟨h1, hl, session, compression, ciphers, extensions, hs, hc, hm, he, hx⟩ := h
  rw [parseClientHelloSni, if_neg (by simp [h1, hl])]
  simp only [bind, Except.bind]
  rw [skipU8Vector_eq_ok_iff.mpr ⟨session, hs, rfl⟩]
  simp only
  rw [skipU16Vector_eq_ok_iff.mpr ⟨ciphers, hc, rfl⟩]
  simp only
  rw [skipU8Vector_eq_ok_iff.mpr ⟨compression, hm, rfl⟩]
  simp only
  rw [readU16_eq_ok_iff.mpr he]
  exact loop_of_extensionName hx (Nat.min_le_right _ _) (by omega)

theorem parseClientHelloSni_eq_ok_iff {host : Str} :
    parseClientHelloSni data = .ok host ↔ ∃ name, HelloName data name ∧ fromUtf8 name = some host := by
  constructor
  · intro h
    rw [parseClientHelloSni] at h
    split at h
    · cases h
    rename_i hg
    simp only [not_or, not_not, not_lt] at hg
    simp only [bind_eq_ok_iff, skipU8Vector_eq_ok_iff, skipU16Vector_eq_ok_iff, readU16_eq_ok_iff] at h
    obtain ⟨_, ⟨session, hs, rfl⟩, _, ⟨ciphers, hc, rfl⟩, _, ⟨compression, hm, rfl⟩, extensions, he, h⟩ := h
    obtain ⟨name, hx, ht⟩ := extensionName_of_loop h
    exact ⟨name, ⟨hg.1, hg.2, session, compression, ciphers, extensions, hs, hc, hm, he, hx⟩, ht⟩
  · rintro ⟨name, h, ht⟩
    rw [parseClientHelloSni_of_helloName h, ht]
    rfl

/-! ## The name in a message -/

theorem getElem?_of_drop {b : UInt8} (h : data.drop pos = b :: rest) : data[pos]? = some b := by
  rw [← Nat.add_zero pos, ← getElem?_drop, h, getElem?_cons_zero]

theorem drop_add_of_drop (h : data.drop pos = bs ++ rest) : data.drop (pos + bs.length) = rest := by
  rw [← drop_drop, h, drop_left]

theorem shortAt_of_drop (hn : n < 2 ^ 16) (h : data.drop pos = beBytes 2 n ++ rest) :
    ShortAt data pos n ∧ data.drop (pos + 2) = rest := by
  have hlow : data.drop (pos + 1) = UInt8.ofNat (n % 256) :: rest := by
    rw [← drop_drop, h]
    rfl
  refine ⟨⟨_, _, getElem?_of_drop h, getElem?_of_drop hlow, ?_⟩, drop_add_of_drop h⟩
  rw [UInt8.toNat_ofNat', UInt8.toNat_ofNat']
  omega

theorem vec8_of_drop (hb : bs.length < 2 ^ 8) (h : data.drop pos = vec8 bs ++ rest) :
    ∃ length : UInt8, data[pos]? = some length ∧ length.toNat = bs.length ∧ data.drop (pos + 1 + bs.length) = rest := by
  refine ⟨_, getElem?_of_drop h, ?_, ?_⟩
  · rw [UInt8.toNat_ofNat', Nat.mod_eq_of_lt hb]
  · rw [Nat.add_assoc, Nat.add_comm 1, ← length_vec8, drop_add_of_drop h]

theorem vec16_of_drop (hb : bs.length < 2 ^ 16) (h : data.drop pos = vec16 bs ++ rest) :
    ShortAt data pos bs.length ∧ data.drop (pos + 2) = bs ++ rest :=
  shortAt_of_drop hb (h.trans (append_assoc _ _ _))

theorem nameEntry_of_drop (h : data.drop pos = ent.encode ++ rest) :
    data[pos]? = some ent.kind ∧ ShortAt data (pos + 1) ent.body.length ∧
      slice data (pos + 3) (pos + 3 + ent.body.length) = some ent.body ∧
      data.drop (pos + 3 + ent.body.length) = rest := by
  have hv : data.drop (pos + 1) = vec16 ent.body ++ rest := by
    rw [← drop_drop, h]
    rfl
  obtain ⟨hl, hb⟩ := vec16_of_drop ent.length_lt hv
  have hlen := congrArg length h
  rw [length_drop, length_append, ent.length_encode] at hlen
  refine ⟨getElem?_of_drop h, hl, ?_, drop_add_of_drop hb⟩
  rw [slice, if_pos ⟨by omega, by omega⟩, hb, Nat.add_sub_cancel_left, take_left]

theorem listedName_encode (ho : ∀ other ∈ others, other.kind ≠ 0) (hen : ent.kind = 0)
    (hd : data.drop pos = others.flatMap NameEntry.encode ++ (ent.encode ++ rest))
    (hs : pos + (others.flatMap NameEntry.encode ++ ent.encode).length ≤ stop) :
    ListedName data stop pos (some ent.body) := by
  induction others generalizing pos with
  | nil =>
    obtain ⟨hk, hl, hsl, -⟩ := nameEntry_of_drop hd
    rw [flatMap_nil, nil_append, ent.length_encode] at hs
    exact .host (by omega) (hen ▸ hk) hl hsl
  | cons other others ih =>
    simp only [flatMap_cons, length_append, append_assoc, other.length_encode] at hd hs
    obtain ⟨hk, hl, -, hrest⟩ := nameEntry_of_drop hd
    refine .other (by omega) hk (ho other mem_cons_self) hl (ih (fun e he => ho e (mem_cons_of_mem _ he)) hrest ?_)
    rw [length_append]
    omega

theorem extension_of_drop {e : Extension} (h : data.drop pos = e.encode ++ rest) :
    ShortAt data pos e.kind.toNat ∧ ShortAt data (pos + 2) e.body.length ∧ data.drop (pos + 4) = e.body ++ rest := by
  rw [Extension.encode, append_assoc] at h
  obtain ⟨hk, hv⟩ := shortAt_of_drop e.kind.toNat_lt h
  exact ⟨hk, vec16_of_drop e.length_lt hv⟩

section Encoded

variable (he : names.entries = others ++ ent :: more) (ho : ∀ other ∈ others, other.kind ≠ 0) (hen : ent.kind = 0)

include he ho hen

theorem serverNameAt_encode (hd : data.drop pos = (serverName names).body ++ rest) :
    5 ≤ (serverName names).body.length ∧
      ServerNameAt data pos (serverName names).body.length (some ent.body) := by
  have hb : (serverName names).body = vec16 (names.entries.flatMap NameEntry.encode) := rfl
  have hlt := names.length_lt
  obtain ⟨hl, hn⟩ := vec16_of_drop (by rw [length_vec16] at hlt; omega) hd
  rw [hb, length_vec16]
  refine ⟨?_, _, hl, ?_⟩
  · rw [he]
    simp only [flatMap_append, flatMap_cons, length_append, ent.length_encode]
    omega
  rw [he, flatMap_append, flatMap_cons] at hn ⊢
  rw [append_assoc, append_assoc] at hn
  refine listedName_encode ho hen hn ?_
  simp only [length_append]
  omega

theorem extensionName_encode {before : List Extension} (hb : ∀ e ∈ before, e.kind ≠ 0)
    (hd : data.drop pos = before.flatMap Extension.encode ++ ((serverName names).encode ++ rest))
    (hs : pos + (before.flatMap Extension.encode ++ (serverName names).encode).length ≤ stop) :
    ExtensionName data stop pos ent.body := by
  induction before generalizing pos with
  | nil =>
    obtain ⟨hk, hl, hbody⟩ := extension_of_drop hd
    obtain ⟨hfive, hname⟩ := serverNameAt_encode he ho hen hbody
    rw [flatMap_nil, nil_append, (serverName names).length_encode] at hs
    exact .found (by omega) hk hl hfive hname
  | cons e before ih =>
    simp only [flatMap_cons, length_append, append_assoc, e.length_encode] at hd hs
    obtain ⟨hk, hl, hbody⟩ := extension_of_drop hd
    have hkind : e.kind.toNat ≠ 0 := fun h => hb e mem_cons_self (UInt16.toNat_inj.mp h)
    refine .next (by omega) hk hl (fun h => absurd h hkind)
      (ih (fun e he => hb e (mem_cons_of_mem _ he)) (drop_add_of_drop hbody) ?_)
    rw [length_append]
    omega

end Encoded

theorem helloName_encode {hello : ClientHello} {host : List UInt8} (h : hello.Names host) (tail : List UInt8) :
    HelloName (hello.encode ++ tail) host := by
  obtain ⟨before, names, after, hex, hk, others, ent, more, hen, ho, het, rfl⟩ := h
  obtain ⟨first, hf, hdata⟩ : ∃ first, (1 :: first).length = 38 ∧
      hello.encode ++ tail = (1 :: first) ++ (vec8 hello.sessionId ++ (vec16 hello.cipherSuites ++
        (vec8 hello.compressionMethods ++ (vec16 (hello.extensions.flatMap Extension.encode) ++ tail)))) :=
    ⟨beBytes 3 hello.body.length ++ (hello.version ++ hello.random),
      by simp [hello.length_version, hello.length_random], by simp [ClientHello.encode, ClientHello.body]⟩
  generalize hello.encode ++ tail = data at hdata ⊢
  have hd := congrArg (drop (1 :: first).length) hdata
  rw [drop_left, hf] at hd
  obtain ⟨session, hs, hsl, hd₁⟩ := vec8_of_drop hello.sessionId_lt hd
  obtain ⟨hc, hd₂⟩ := vec16_of_drop hello.cipherSuites_lt hd₁
  obtain ⟨compression, hm, hml, hd₃⟩ := vec8_of_drop hello.compressionMethods_lt (drop_add_of_drop hd₂)
  obtain ⟨he, hd₄⟩ := vec16_of_drop hello.extensions_lt hd₃
  have hlen := congrArg length hdata
  simp only [length_append, hf, length_vec8, length_vec16] at hlen
  refine ⟨by rw [hdata]; rfl, by omega, session, compression, _, _, hs, hsl ▸ hc, hsl ▸ hm, hsl ▸ hml ▸ he, ?_⟩
  rw [hsl, hml]
  rw [hex, flatMap_append, flatMap_cons] at hd₄ hlen ⊢
  rw [append_assoc, append_assoc] at hd₄
  refine extensionName_encode hen ho het (fun e he => hk e (mem_append_left _ he)) hd₄ ?_
  simp only [length_append] at hlen ⊢
  omega

end Where

/-- `parse_client_hello_sni` ends with a value or `None`, and of a ClientHello
with a host name it returns that, if it is UTF-8. -/
theorem clientHello_sni (data : List UInt8) : (∃ found : Option Str, parseClientHelloSni data = orNone found) ∧
      ∀ (hello : ClientHello) (host tail : List UInt8), data = hello.encode ++ tail → hello.Names host →
        parseClientHelloSni data = orNone (fromUtf8 host) := by
  constructor
  · exact exists_orNone_of_returns (parseClientHelloSni_returns data)
  · rintro hello host tail rfl h
    exact parseClientHelloSni_of_helloName (helloName_encode h tail)

/-! ## One message -/

def smallNames : NameList where
  entries := [⟨1, [7, 7], by decide⟩, ⟨0, utf8 "a.example", by decide⟩]
  length_lt := by decide

/-- The name comes after an extension and a name of another kind. -/
def smallHello : ClientHello where
  version := [3, 3]
  length_version := rfl
  random := List.replicate 32 0
  length_random := rfl
  sessionId := []
  sessionId_lt := by decide
  cipherSuites := [0x13, 1]
  cipherSuites_lt := by decide
  compressionMethods := [0]
  compressionMethods_lt := by decide
  extensions := [⟨10, [0, 29], by decide⟩, serverName smallNames, ⟨16, [], by decide⟩]
  extensions_lt := by decide

theorem clientHello_sni_small : parseClientHelloSni smallHello.encode = .ok "a.example".toList := by
  have hn : smallHello.Names (utf8 "a.example") :=
    ⟨[⟨10, [0, 29], by decide⟩], smallNames, [⟨16, [], by decide⟩], rfl, by simp,
      [⟨1, [7, 7], by decide⟩], ⟨0, utf8 "a.example", by decide⟩, [], rfl, by simp, rfl, rfl⟩
  have hs := (clientHello_sni smallHello.encode).2 smallHello _ [] (append_nil _).symm hn
  rw [fromUtf8_utf8] at hs
  exact hs

end Hysteria.Proof
