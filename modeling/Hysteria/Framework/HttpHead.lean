import Mathlib.Tactic.Tauto
import Hysteria.Framework.Text

/-!
# The head of an HTTP/1.1 request

Lines ended by CRLF (`splitCrlf`, `endLines`), or with CRLF between them
(`splitCrlf_intercalate`, `fromUtf8_intercalate`), and a strict reader of a request
head (`parseHead`): a request line of three parts, header fields, an empty line.
A CR or LF inside a line is refused.

* `parseHead_endLines`: a head written line by line is read back;
* `parseHead_sound`: what the parts of a head that was read cannot contain.
-/

namespace Framework

open List

variable {rest txt s method target version name value : Str}

/-! ## Lines -/

/-- `split("\r\n")`. -/
def splitCrlf : Str → List Str
  | [] => [[]]
  | '\r' :: '\n' :: rest => [] :: splitCrlf rest
  | c :: rest =>
    match splitCrlf rest with
    | [] => [[c]]
    | line :: lines => (c :: line) :: lines

theorem splitCrlf_cons {c : Char} (hc : c ≠ '\r') {line : Str} {lines : List Str}
    (h : splitCrlf rest = line :: lines) : splitCrlf (c :: rest) = (c :: line) :: lines := by
  rw [splitCrlf, h]
  rintro - rfl
  exact absurd rfl hc

theorem splitCrlf_append {line : Str} (h : '\r' ∉ line) (rest : Str) :
    splitCrlf (line ++ '\r' :: '\n' :: rest) = line :: splitCrlf rest := by
  induction line with
  | nil => rfl
  | cons c line ih =>
    simp only [mem_cons, not_or] at h
    exact splitCrlf_cons (Ne.symm h.1) (ih h.2)

theorem splitCrlf_line {line : Str} (h : '\r' ∉ line) : splitCrlf line = [line] := by
  induction line with
  | nil => rfl
  | cons c line ih =>
    simp only [mem_cons, not_or] at h
    exact splitCrlf_cons (Ne.symm h.1) (ih h.2)

/-- Each line with its end. -/
def endLines (lines : List Str) : Str := lines.flatMap (· ++ ['\r', '\n'])

theorem splitCrlf_endLines {lines : List Str} (h : ∀ line ∈ lines, '\r' ∉ line) (rest : Str) :
    splitCrlf (endLines lines ++ rest) = lines ++ splitCrlf rest := by
  induction lines with
  | nil => rfl
  | cons line lines ih =>
    rw [forall_mem_cons] at h
    have heq : endLines (line :: lines) ++ rest = line ++ '\r' :: '\n' :: (endLines lines ++ rest) := by
      simp [endLines]
    rw [heq, splitCrlf_append h.1, ih h.2, cons_append]

theorem lineEnding_cr (line : Str) : lineEnding (line ++ ['\r']) = line := by simp [lineEnding]

theorem splitOn_endLines {lines : List Str} (h : ∀ line ∈ lines, '\n' ∉ line) :
    (endLines lines).splitOn '\n' = lines.map (· ++ ['\r']) ++ [[]] := by
  induction lines with
  | nil => rfl
  | cons line lines ih =>
    rw [forall_mem_cons] at h
    have heq : endLines (line :: lines) = (line ++ ['\r']) ++ '\n' :: endLines lines := by simp [endLines]
    have hl : ∀ c ∈ line ++ ['\r'], (c == '\n') = false := by
      grind
    rw [heq, splitOn, splitOnP_append_cons_of_forall_mem hl _ (by rfl)]
    exact congrArg _ (ih h.2)

theorem lines_endLines {ls : List Str} (h : ∀ line ∈ ls, '\n' ∉ line) : lines (endLines ls) = ls := by
  rw [lines, splitOn_endLines h]
  simp [Function.comp_def, lineEnding_cr]

theorem splitCrlf_intercalate {lines : List Str} (hne : lines ≠ []) (h : ∀ line ∈ lines, '\r' ∉ line) :
    splitCrlf (['\r', '\n'].intercalate lines) = lines := by
  induction lines with
  | nil => exact absurd rfl hne
  | cons line lines ih =>
    rw [forall_mem_cons] at h
    rcases lines with _ | ⟨next, lines⟩
    · rw [intercalate_singleton, splitCrlf_line h.1]
    · rw [intercalate_cons_cons, append_assoc, cons_append, cons_append, nil_append,
        splitCrlf_append h.1, ih (cons_ne_nil _ _) h.2]

/-- With a line end at its end, each line is before one. -/
theorem intercalate_append {α : Type} (sep : List α) {lines : List (List α)} (hne : lines ≠ []) :
    sep.intercalate lines ++ sep = lines.flatMap (· ++ sep) := by
  induction lines with
  | nil => exact absurd rfl hne
  | cons line lines ih =>
    rcases lines with _ | ⟨next, lines⟩
    · simp
    simp_all

theorem fromUtf8_crlf (bs : List UInt8) : fromUtf8 (13 :: 10 :: bs) = (fromUtf8 bs).map ('\r' :: '\n' :: ·) :=
  fromUtf8_utf8_append ['\r', '\n'] bs

theorem fromUtf8_intercalate {lines : List (List UInt8)} (h : fromUtf8 ([13, 10].intercalate lines) = some txt) :
    (∀ line ∈ lines, (fromUtf8 line).isSome = true) ∧
      txt = ['\r', '\n'].intercalate (lines.map fun line => (fromUtf8 line).getD []) := by
  induction lines generalizing txt with
  | nil =>
    cases h
    simp
  | cons line lines ih =>
    rcases lines with _ | ⟨next, lines⟩
    · rw [intercalate_singleton] at h
      simp [h]
    rw [intercalate_cons_cons, append_assoc, cons_append, fromUtf8_append (by decide)] at h
    simp only [cons_append, nil_append, fromUtf8_crlf, Option.bind_eq_bind, Option.bind_eq_some_iff,
      Option.map_eq_some_iff] at h
    obtain ⟨first, hf, _, ⟨rest, hr, rfl⟩, heq⟩ := h
    simp_all

theorem isSome_fromUtf8_intercalate {lines : List (List UInt8)} (h : ∀ line ∈ lines, (fromUtf8 line).isSome = true) :
    (fromUtf8 ([13, 10].intercalate lines)).isSome = true := by
  induction lines with
  | nil => rfl
  | cons line lines ih =>
    rw [forall_mem_cons] at h
    rcases lines with _ | ⟨next, lines⟩
    · rw [intercalate_singleton]
      exact h.1
    obtain ⟨first, hf⟩ := Option.isSome_iff_exists.mp h.1
    obtain ⟨rest, hr⟩ := Option.isSome_iff_exists.mp (ih h.2)
    rw [intercalate_cons_cons, append_assoc, cons_append, fromUtf8_append (by decide), hf]
    simp [fromUtf8_crlf, hr]

/-! ## Heads -/

structure Field where
  name : Str
  value : Str
  deriving DecidableEq

variable {fields : List Field}

structure RequestHead where
  method : Str
  target : Str
  version : Str
  fields : List Field
  deriving DecidableEq

/-- Optional whitespace. -/
def isOws (c : Char) : Bool := c = ' ' ∨ c = '\t'

def trimOws (s : Str) : Str := (s.dropWhile isOws).rdropWhile isOws

/-- `trim`, of a string in which no other whitespace stands. -/
theorem trim_eq_trimOws (h : ∀ c ∈ s, isWhitespace c = isOws c) : trim s = trimOws s := by
  have hd := dropWhile_congr h
  rw [trim, trimOws, hd, rdropWhile, rdropWhile, dropWhile_congr]
  grind [dropWhile_sublist]

def parseRequestLine (line : Str) : Option (Str × Str × Str) := do
  let (method, rest) ← splitOnce ' ' line
  let (target, version) ← splitOnce ' ' rest
  if method = [] ∨ target = [] ∨ version = [] ∨ ' ' ∈ version then none else some (method, target, version)

def parseField (line : Str) : Option Field := do
  let (name, value) ← splitOnce ':' line
  if name = [] ∨ name.any isOws then none else some ⟨name, trimOws value⟩

/-- A line has no line end in it. -/
def Clean (line : Str) : Prop := '\r' ∉ line ∧ '\n' ∉ line

instance (line : Str) : Decidable (Clean line) := inferInstanceAs (Decidable (_ ∧ _))

@[simp] theorem clean_nil : Clean [] := by decide

@[simp] theorem clean_cons (c : Char) (line : Str) : Clean (c :: line) ↔ c ≠ '\r' ∧ c ≠ '\n' ∧ Clean line := by
  simp only [Clean, mem_cons, not_or, ne_eq, @eq_comm _ c]
  tauto

@[simp] theorem clean_append (a b : Str) : Clean (a ++ b) ↔ Clean a ∧ Clean b := by
  simp only [Clean, mem_append, not_or]
  tauto

/-- The header fields up to the empty line, and the lines after it. -/
def parseFields : List Str → Option (List Field × List Str)
  | [] => none
  | line :: rest =>
    if line = [] then some ([], rest)
    else if Clean line then do
      let field ← parseField line
      let (fields, rest) ← parseFields rest
      return (field :: fields, rest)
    else none

/-- The head and the text after it. -/
def parseHead (text : Str) : Option (RequestHead × Str) :=
  match splitCrlf text with
  | [] => none
  | first :: rest =>
    if Clean first then do
      let (method, target, version) ← parseRequestLine first
      let (fields, rest) ← parseFields rest
      return (⟨method, target, version, fields⟩, ['\r', '\n'].intercalate rest)
    else none

/-! ## What was written is read back -/

theorem parseRequestLine_append (hm : method ≠ [] ∧ ' ' ∉ method)
    (ht : target ≠ [] ∧ ' ' ∉ target) (hv : version ≠ [] ∧ ' ' ∉ version) :
    parseRequestLine (method ++ ' ' :: (target ++ ' ' :: version)) = some (method, target, version) := by
  simp [parseRequestLine, splitOnce_append hm.2, splitOnce_append ht.2, hm.1, ht.1, hv.1, hv.2]

/-- Whitespace at neither end. -/
def OwsTrimmed (s : Str) : Prop := (∀ c ∈ s.head?, isOws c = false) ∧ ∀ c ∈ s.getLast?, isOws c = false

instance (s : Str) : Decidable (OwsTrimmed s) :=
  @instDecidableAnd _ _ s.head?.decidableForallMem s.getLast?.decidableForallMem

theorem trimOws_space (h : OwsTrimmed s) : trimOws (' ' :: s) = s := by
  have hs : isOws ' ' = true := rfl
  rw [trimOws, dropWhile_cons_of_pos hs, dropWhile_of_head h.1, rdropWhile_of_getLast h.2]

theorem parseField_append (hn : name ≠ []) (hc : ':' ∉ name) (ho : ∀ c ∈ name, isOws c = false)
    (hv : OwsTrimmed value) : parseField (name ++ ':' :: ' ' :: value) = some ⟨name, value⟩ := by
  have ha : ¬(name = [] ∨ name.any isOws = true) := by
    simpa [hn] using ho
  simp only [parseField, splitOnce_append hc, Option.bind_eq_bind, Option.bind_some, trimOws_space hv]
  rw [if_neg ha]

/-- The line of a header field. -/
def Field.line (field : Field) : Str := field.name ++ ':' :: ' ' :: field.value

structure Field.WellFormed (field : Field) : Prop where
  name_ne : field.name ≠ []
  name_colon : ':' ∉ field.name
  name_ows : ∀ c ∈ field.name, isOws c = false
  clean : Clean field.line
  value : OwsTrimmed field.value

theorem Field.WellFormed.of_parts (hn : name ≠ [] ∧ ':' ∉ name ∧ name.any isOws = false ∧ Clean name)
    (hc : Clean value) (hv : OwsTrimmed value) : Field.WellFormed ⟨name, value⟩ where
  name_ne := hn.1
  name_colon := hn.2.1
  name_ows := by simpa using hn.2.2.1
  clean := by simp [Field.line, hn.2.2.2, hc]
  value := hv

theorem parseFields_lines (h : ∀ fld ∈ fields, fld.WellFormed) (rest : List Str) :
    parseFields (fields.map Field.line ++ [] :: rest) = some (fields, rest) := by
  induction fields with
  | nil => rfl
  | cons fld fields ih =>
    rw [forall_mem_cons] at h
    obtain ⟨hf, hfs⟩ := h
    have hne : fld.line ≠ [] := by simp [Field.line]
    have hp : parseField fld.line = some fld := parseField_append hf.name_ne hf.name_colon hf.name_ows hf.value
    rw [map_cons, cons_append, parseFields, if_neg hne, if_pos hf.clean, hp, ih hfs]
    rfl

/-- A head that consists of the lines, and nothing after it. -/
theorem parseHead_endLines (hm : method ≠ [] ∧ ' ' ∉ method)
    (ht : target ≠ [] ∧ ' ' ∉ target) (hv : version ≠ [] ∧ ' ' ∉ version)
    (hl : Clean (method ++ ' ' :: (target ++ ' ' :: version))) (hfs : ∀ fld ∈ fields, fld.WellFormed) :
    parseHead (endLines ((method ++ ' ' :: (target ++ ' ' :: version)) :: fields.map Field.line ++ [[]])) =
      some (⟨method, target, version, fields⟩, []) := by
  have hcr : ∀ line ∈ (method ++ ' ' :: (target ++ ' ' :: version)) :: fields.map Field.line ++ [[]], '\r' ∉ line := by
    intro line hmm
    simp only [cons_append, mem_cons, mem_append, mem_map, not_mem_nil, or_false] at hmm
    rcases hmm with rfl | ⟨fld, hf, rfl⟩ | rfl
    · exact hl.1
    · exact (hfs fld hf).clean.1
    · exact not_mem_nil
  have hs := splitCrlf_endLines hcr []
  rw [append_nil] at hs
  have hr := parseFields_lines hfs [[]]
  rw [parseHead, hs]
  simp only [cons_append, if_pos hl, parseRequestLine_append hm ht hv, Option.bind_eq_bind, Option.bind_some,
    append_assoc, nil_append, splitCrlf, hr]
  rfl

/-! ## What was read -/

theorem parseRequestLine_sound {line : Str}
    (h : parseRequestLine line = some (method, target, version)) : ' ' ∉ target ∧ ∀ c ∈ target, c ∈ line := by
  simp only [parseRequestLine, Option.bind_eq_bind, Option.bind_eq_some_iff, Prod.exists] at h
  obtain ⟨method', rest, hf, tgt', ver', hsn, ha⟩ := h
  split at ha
  · cases ha
  cases ha
  obtain ⟨-, rfl⟩ := splitOnce_eq_some hf
  obtain ⟨hs, rfl⟩ := splitOnce_eq_some hsn
  exact ⟨hs, by simp +contextual⟩

theorem parseField_sound {line : Str} {fld : Field} (h : parseField line = some fld) : OwsTrimmed fld.value := by
  simp only [parseField, Option.bind_eq_bind, Option.bind_eq_some_iff, Prod.exists] at h
  obtain ⟨name, value, -, ha⟩ := h
  split at ha
  · cases ha
  · cases ha
    exact ends_of_trim isOws value

theorem parseFields_sound {lines rest : List Str} (h : parseFields lines = some (fields, rest)) :
    ∀ fld ∈ fields, OwsTrimmed fld.value := by
  induction lines generalizing fields with
  | nil => cases h
  | cons line lines ih =>
    rw [parseFields] at h
    split at h
    · cases h
      simp
    split at h
    · simp only [Option.bind_eq_bind, Option.bind_eq_some_iff, Prod.exists] at h
      obtain ⟨fld, hf, flds', rest', hr, heq⟩ := h
      cases heq
      rw [forall_mem_cons]
      exact ⟨parseField_sound hf, ih hr⟩
    · cases h

theorem parseHead_sound {head : RequestHead} (h : parseHead txt = some (head, rest)) :
    ' ' ∉ head.target ∧ Clean head.target ∧ ∀ fld ∈ head.fields, OwsTrimmed fld.value := by
  rw [parseHead] at h
  split at h
  · cases h
  split at h
  · rename_i first lines _ hcl
    simp only [Option.bind_eq_bind, Option.bind_eq_some_iff, Prod.exists] at h
    obtain ⟨method, target, version, hl, fields, rest', hfs, heq⟩ := h
    cases heq
    obtain ⟨hs, hm⟩ := parseRequestLine_sound hl
    exact ⟨hs, ⟨fun hc => hcl.1 (hm _ hc), fun hc => hcl.2 (hm _ hc)⟩, parseFields_sound hfs⟩
  · cases h

end Framework
