import Hysteria.Framework.Fallible
import Hysteria.Spec.Dns

/-!
# Names are read as they are encoded

`read_name` follows labels and pointers for 128 rounds, one of them for the end of
the name: a name with up to 127 labels and pointers is read (`readName_eq`), and it
is one that a query of 253 bytes or less was built from (`buildQuery_readName`).
-/

namespace Hysteria.Proof

open Framework Impl Spec List

variable {msg : List UInt8} {name : DnsName} {off stop depth : Nat}

/-! ## Reading -/

theorem isPointer_iff : ∀ n < 256, UInt8.ofNat n &&& 0xc0 = 0xc0 ↔ 192 ≤ n := by decide +kernel

theorem pointer_high : ∀ n < 256, 192 ≤ n → (UInt8.ofNat n &&& 0x3f).toNat = n - 192 := by
  decide +kernel

theorem isUtf8_cons {lbl : List UInt8} : DnsName.isUtf8 (lbl :: name) = ((fromUtf8 lbl).isSome && name.isUtf8) :=
  all_cons

section Rounds

variable {rounds : Nat} (lbls : List Str) (seen : Option Nat)

theorem readNameLoop_label {len : UInt8} {lbl : List UInt8} (hl : msg[off]? = some len) (hps : 0 < len.toNat)
    (hlt : len.toNat < 64) (hsl : slice msg (off + 1) (off + 1 + len.toNat) = some lbl) :
    readNameLoop msg (rounds + 1) lbls off seen = (fromUtf8 lbl).elim (.error (protocolError "invalid DNS label"))
      fun txt => readNameLoop msg rounds (lbls ++ [txt]) (off + 1 + len.toNat) seen := by
  have hne : len ≠ 0 := by
    rintro rfl
    exact absurd hps (by decide)
  have hi := isPointer_iff len.toNat len.toNat_lt
  rw [UInt8.ofNat_toNat] at hi
  have hp : ¬ len &&& 0xc0 = 0xc0 := fun heq => absurd (hi.mp heq) (by omega)
  rw [readNameLoop, hl]
  simp only [hne, hp, if_false, hsl, show off + len.toNat + 1 = off + 1 + len.toNat by omega]
  cases fromUtf8 lbl <;> rfl

theorem readNameLoop_pointer {high low : UInt8} (hh : msg[off]? = some high) (hge : 192 ≤ high.toNat)
    (hlw : msg[off + 1]? = some low) : readNameLoop msg (rounds + 1) lbls off seen =
      readNameLoop msg rounds lbls ((high.toNat - 192) * 256 + low.toNat) (some (seen.getD (off + 2))) := by
  have hi := isPointer_iff high.toNat high.toNat_lt
  have hb := pointer_high high.toNat high.toNat_lt hge
  rw [UInt8.ofNat_toNat] at hi hb
  have hne : high ≠ 0 := by
    rintro rfl
    exact absurd hge (by decide)
  rw [readNameLoop, hh]
  simp only [hne, hi.mpr hge, if_true, if_false, hlw, hb]

theorem readNameLoop_eq (h : NameAt msg off name stop depth) (hr : depth < rounds) :
    readNameLoop msg rounds lbls off seen =
      if name.isUtf8 then .ok (['.'].intercalate (lbls ++ name.map fromUtf8Lossy), seen.getD stop)
      else .error (protocolError "invalid DNS label") := by
  induction h generalizing rounds lbls seen with
  | root hz =>
    obtain ⟨rounds, rfl⟩ := Nat.exists_eq_add_of_lt hr
    simp [readNameLoop, hz, DnsName.isUtf8]
  | @label off stop depth len lbl name hl hps hlt hsl _ ih =>
    obtain ⟨rounds, rfl⟩ := Nat.exists_eq_succ_of_ne_zero (show rounds ≠ 0 by omega)
    rw [readNameLoop_label lbls seen hl hps hlt hsl, isUtf8_cons]
    rcases ht : fromUtf8 lbl with _ | txt
    · simp
    simp only [ih _ _ (Nat.lt_of_succ_lt_succ hr), Option.elim_some, Option.isSome_some, Bool.true_and, map_cons,
      fromUtf8Lossy_of_fromUtf8 ht, append_assoc, singleton_append]
  | @pointer off stop depth high low name hh hge hlw _ ih =>
    obtain ⟨rounds, rfl⟩ := Nat.exists_eq_succ_of_ne_zero (show rounds ≠ 0 by omega)
    rw [readNameLoop_pointer lbls seen hh hge hlw, ih _ _ (Nat.lt_of_succ_lt_succ hr), Option.getD_some]

/-- A name with as many labels and pointers as there are rounds is not read to its end. -/
theorem readNameLoop_short (h : NameAt msg off name stop depth) (hr : rounds ≤ depth) :
    ∃ err, readNameLoop msg rounds lbls off seen = .error err := by
  induction h generalizing rounds lbls seen with
  | root hz =>
    rw [Nat.le_zero.mp hr]
    exact ⟨_, rfl⟩
  | label hl hps hlt hsl _ ih =>
    rcases rounds with _ | rounds
    · exact ⟨_, rfl⟩
    rw [readNameLoop_label lbls seen hl hps hlt hsl]
    rcases fromUtf8 _ with _ | txt
    · exact ⟨_, rfl⟩
    · exact ih _ _ (Nat.le_of_succ_le_succ hr)
  | pointer hh hge hlw _ ih =>
    rcases rounds with _ | rounds
    · exact ⟨_, rfl⟩
    rw [readNameLoop_pointer lbls seen hh hge hlw]
    exact ih _ _ (Nat.le_of_succ_le_succ hr)

end Rounds

theorem readName_eq (h : NameWithin 127 msg off name stop) : readName msg off =
      if name.isUtf8 then .ok (name.text, stop) else .error (protocolError "invalid DNS label") := by
  obtain ⟨depth, hd, h⟩ := h
  exact readNameLoop_eq [] none h (by omega)

/-- What is read of a name, it has within the rounds. -/
theorem nameWithin_of_readName {txt : Str} {stop' : Nat} (h : NameWithin depth msg off name stop)
    (hok : readName msg off = .ok (txt, stop')) : NameWithin 127 msg off name stop := by
  obtain ⟨steps, -, hn⟩ := h
  refine ⟨steps, ?_, hn⟩
  by_contra hlt
  obtain ⟨err, he⟩ := readNameLoop_short [] none hn (show 128 ≤ steps by omega)
  cases he.symm.trans hok

/-! ## Writing -/

theorem nameAt_label {lbl first rest : List UInt8} (hp : 1 ≤ lbl.length) (hle : lbl.length ≤ 63)
    (h : NameAt (first ++ UInt8.ofNat lbl.length :: (lbl ++ rest)) (first.length + (lbl.length + 1)) name stop
      depth) :
    NameAt (first ++ UInt8.ofNat lbl.length :: (lbl ++ rest)) first.length (lbl :: name) stop (depth + 1) := by
  have hl := UInt8.toNat_ofNat_of_lt' (Nat.lt_of_le_of_lt hle (by decide))
  have hg : (first ++ UInt8.ofNat lbl.length :: (lbl ++ rest))[first.length]? =
      some (UInt8.ofNat lbl.length) := by
    simp
  refine .label hg (by omega) (by omega) ?_ ?_
  · rw [Nat.add_assoc, slice_append, Nat.add_comm, slice_cons, slice_zero_eq_some_iff]
    exact ⟨rest, rfl, hl.symm⟩
  grind

/-- A name without compression has a step for each of its labels. -/
theorem nameAt_wire (hn : ∀ lbl ∈ name, 1 ≤ lbl.length ∧ lbl.length ≤ 63) (first rest : List UInt8) :
    NameAt (first ++ (name.wire ++ rest)) first.length name (first.length + name.wire.length) name.length := by
  induction name generalizing first with
  | nil =>
    refine .root ?_
    simp [DnsName.wire]
  | cons lbl name ih =>
    obtain ⟨hl, hn⟩ := forall_mem_cons.mp hn
    have hnx := ih hn (first ++ UInt8.ofNat lbl.length :: lbl)
    have hw : DnsName.wire (lbl :: name) = UInt8.ofNat lbl.length :: (lbl ++ DnsName.wire name) := by
      simp [DnsName.wire]
    rw [append_assoc, cons_append] at hnx
    rw [hw, cons_append, append_assoc]
    refine nameAt_label hl.1 hl.2 ?_
    simpa [Nat.add_assoc, Nat.add_comm, Nat.add_left_comm] using hnx

/-! ## Texts -/

theorem isUtf8_ofText (txt : Str) : (DnsName.ofText txt).isUtf8 = true := by
  simp [DnsName.isUtf8, DnsName.ofText]

theorem text_ofText (txt : Str) : (DnsName.ofText txt).text = txt := by
  rw [DnsName.text, DnsName.ofText, map_map]
  have hl : fromUtf8Lossy ∘ utf8 = id := funext fromUtf8Lossy_utf8
  rw [hl, map_id, intercalate_splitOn]

/-- Labels that are not empty, with a dot between them. -/
theorem length_intercalate {parts : List Str} (h : ∀ part ∈ parts, 1 ≤ (utf8 part).length) :
    2 * parts.length ≤ (utf8 (['.'].intercalate parts)).length + 1 := by
  induction parts with
  | nil => simp
  | cons part parts ih =>
    obtain ⟨hp, hps⟩ := forall_mem_cons.mp h
    have hr := ih hps
    rcases parts with _ | ⟨next, parts⟩
    · simp [intercalate]
      omega
    have hd : (utf8 ['.']).length = 1 := by decide
    rw [intercalate_cons_cons, utf8_append, utf8_append, length_append, length_append, hd, length_cons]
    omega

/-! ## Queries -/

/-- The bytes of a query before the name. -/
def queryHeader (id : UInt16) : List UInt8 :=
  beBytes 2 id.toNat ++ beBytes 2 0x0100 ++ beBytes 2 1 ++ List.replicate 6 0

/-- The bytes of a query after the name. -/
def queryEnd (qtype : UInt16) : List UInt8 := beBytes 2 qtype.toNat ++ beBytes 2 1

theorem buildQuery_ok {id qtype : UInt16} {host : Str}
    (h : ∀ lbl ∈ DnsName.ofText (trimEndMatches '.' host), 1 ≤ lbl.length ∧ lbl.length ≤ 63) :
    buildQuery id host qtype =
      .ok (queryHeader id ++ ((DnsName.ofText (trimEndMatches '.' host)).wire ++ queryEnd qtype)) := by
  have hl : ∀ lbl ∈ (trimEndMatches '.' host).splitOn '.',
      (if utf8 lbl = [] ∨ (utf8 lbl).length > 63 then Except.error (protocolError "invalid DNS name")
        else .ok (UInt8.ofNat (utf8 lbl).length :: utf8 lbl)) =
        .ok (UInt8.ofNat (utf8 lbl).length :: utf8 lbl) := by
    intro lbl hlb
    have hbs := h (utf8 lbl) (mem_map_of_mem hlb)
    grind
  simp only [buildQuery, mapM_ok hl, bind, Except.bind, pure, Except.pure]
  simp [queryHeader, queryEnd, DnsName.wire, DnsName.ofText, flatMap, Function.comp_def]

/-- The text of a name is read back from a query for it. -/
theorem readName_query {id qtype : UInt16} {host : Str}
    (h : ∀ lbl ∈ DnsName.ofText host, 1 ≤ lbl.length ∧ lbl.length ≤ 63) (hl : (DnsName.ofText host).length ≤ 127) :
    readName (queryHeader id ++ ((DnsName.ofText host).wire ++ queryEnd qtype)) 12 =
      .ok (host, 12 + (DnsName.ofText host).wire.length) := by
  have hn : NameWithin 127 _ 12 (DnsName.ofText host) _ := ⟨_, hl, nameAt_wire h (queryHeader id) (queryEnd qtype)⟩
  rw [readName_eq hn, isUtf8_ofText, if_pos rfl, text_ofText]
  rfl

/-- A host with labels of 1 to 63 bytes and no more than 253 bytes is read back from its query. -/
theorem buildQuery_readName (id qtype : UInt16) (host : Str)
    (hlabels : ∀ label ∈ (trimEndMatches '.' host).splitOn '.', 1 ≤ (utf8 label).length ∧ (utf8 label).length ≤ 63)
    (hlength : (utf8 (trimEndMatches '.' host)).length ≤ 253) :
    ((trimEndMatches '.' host).splitOn '.').length ≤ 127 ∧ ∃ query, buildQuery id host qtype = .ok query ∧
        readName query 12 = .ok (trimEndMatches '.' host, query.length - 4) := by
  have hc : ((trimEndMatches '.' host).splitOn '.').length ≤ 127 := by
    have hbs := length_intercalate fun label hl => (hlabels label hl).1
    rw [intercalate_splitOn] at hbs
    omega
  have hn : ∀ label ∈ DnsName.ofText (trimEndMatches '.' host), 1 ≤ label.length ∧ label.length ≤ 63 := by
    intro label hl
    obtain ⟨part, hp, rfl⟩ := mem_map.mp hl
    exact hlabels part hp
  refine ⟨hc, _, buildQuery_ok hn, ?_⟩
  rw [readName_query hn (by rw [DnsName.ofText, length_map]; exact hc)]
  simp [queryHeader, queryEnd]
  omega

theorem buildQuery_readName_test : ((trimEndMatches '.' "a.test.".toList).splitOn '.').length ≤ 127 ∧
      ∃ query, buildQuery 7 "a.test.".toList 1 = .ok query ∧
        readName query 12 = .ok (trimEndMatches '.' "a.test.".toList, query.length - 4) :=
  buildQuery_readName 7 1 "a.test." (by decide) (by decide)

end Hysteria.Proof
