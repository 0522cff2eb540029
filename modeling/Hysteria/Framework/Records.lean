import Mathlib.Tactic.MkIffOfInductiveProp
import Hysteria.Framework.Fallible

/-!
# Input that is read record by record

A format says which byte strings stand for a value; a reader of the format takes exactly
those from the front of its input (`ReadsFormat`). `eachRecord` is a loop that reads until
nothing is left: it succeeds exactly on a `Sequence` of records with which all updates
of its state do (`eachRecord_ok_iff`).
-/

namespace Framework

open List

variable {ε α β σ : Type}

/-- The reader accepts the texts of the format, with any input after them, and nothing else. -/
def ReadsFormat (format : List UInt8 → α → Prop) (read : List UInt8 → Except ε (α × List UInt8)) : Prop :=
  ∀ input x rest, read input = .ok (x, rest) ↔ ∃ text, format text x ∧ input = text ++ rest

/-- Two records, one after the other. -/
def PairFormat (first : List UInt8 → α → Prop) (second : List UInt8 → β → Prop) (text : List UInt8) (x : α × β) :
    Prop :=
  ∃ a b, text = a ++ b ∧ first a x.1 ∧ second b x.2

def readPair (first : List UInt8 → Except ε (α × List UInt8)) (second : List UInt8 → Except ε (β × List UInt8))
    (input : List UInt8) : Except ε ((α × β) × List UInt8) := do
  let (x, input) ← first input
  let (y, input) ← second input
  return ((x, y), input)

@[mk_iff] inductive Sequence (format : List UInt8 → α → Prop) : List UInt8 → List α → Prop
  | nil : Sequence format [] []
  | cons {text input : List UInt8} {x : α} {xs : List α} (hx : format text x) (hxs : Sequence format input xs) :
    Sequence format (text ++ input) (x :: xs)

theorem encodes_ne {valid : α → Prop} {encode : α → List UInt8} (h : ∀ x, encode x ≠ []) (text : List UInt8) (x : α)
    (hx : valid x ∧ text = encode x) : text ≠ [] :=
  hx.2 ▸ h x

/-- A sequence of records that are written in one way each. -/
theorem sequence_encodes_iff {valid : α → Prop} {encode : α → List UInt8} {input : List UInt8} {xs : List α} :
    Sequence (fun text x => valid x ∧ text = encode x) input xs ↔ (∀ x ∈ xs, valid x) ∧ input = xs.flatMap encode := by
  constructor
  · intro h
    induction h with
    | nil => exact ⟨nofun, rfl⟩
    | cons hx _ ih =>
      grind
  · rintro ⟨hv, rfl⟩
    induction xs with
    | nil => exact .nil
    | cons x xs ih =>
      rw [forall_mem_cons] at hv
      exact .cons ⟨hv.1, rfl⟩ (ih hv.2)

/-- `while !input.is_empty()`: a record is read, and the state updated with it. No more rounds are
needed than there are bytes; `stuck` is the error without one. -/
def eachRecord (stuck : ε) (read : List UInt8 → Except ε (α × List UInt8)) (update : σ → α → Except ε σ) :
    (rounds : Nat) → σ → List UInt8 → Except ε σ
  | _, s, [] => .ok s
  | 0, _, _ :: _ => .error stuck
  | rounds + 1, s, byte :: bytes => do
    let (x, rest) ← read (byte :: bytes)
    eachRecord stuck read update rounds (← update s x) rest

theorem ReadsFormat.pair {first : List UInt8 → α → Prop} {second : List UInt8 → β → Prop}
    {readFirst : List UInt8 → Except ε (α × List UInt8)} {readSecond : List UInt8 → Except ε (β × List UInt8)}
    (h : ReadsFormat first readFirst) (h' : ReadsFormat second readSecond) :
    ReadsFormat (PairFormat first second) (readPair readFirst readSecond) := by
  intro input x rest
  constructor
  · intro hr
    obtain ⟨⟨a, input₁⟩, ha, hr⟩ := bind_eq_ok hr
    obtain ⟨⟨b, input₂⟩, hb, hr⟩ := bind_eq_ok hr
    cases hr
    obtain ⟨text₁, hf, rfl⟩ := (h _ _ _).mp ha
    obtain ⟨text₂, hs, rfl⟩ := (h' _ _ _).mp hb
    exact ⟨text₁ ++ text₂, ⟨text₁, text₂, rfl, hf, hs⟩, (append_assoc ..).symm⟩
  · rintro ⟨-, ⟨text₁, text₂, rfl, hf, hs⟩, rfl⟩
    rw [readPair, append_assoc, (h _ _ _).mpr ⟨text₁, hf, rfl⟩]
    simp only [bind, Except.bind, (h' _ _ _).mpr ⟨text₂, hs, rfl⟩]
    rfl

theorem readPair_ne_error {first : List UInt8 → Except ε (α × List UInt8)}
    {second : List UInt8 → Except ε (β × List UInt8)} {e : ε} (hf : ∀ input, first input ≠ .error e)
    (hs : ∀ input, second input ≠ .error e) (input : List UInt8) : readPair first second input ≠ .error e :=
  bind_ne_error (hf input) fun _ _ => bind_ne_error (hs _) fun _ _ => by simp [pure, Except.pure]

section Loop

variable {format : List UInt8 → α → Prop} {read : List UInt8 → Except ε (α × List UInt8)} {stuck : ε}
  {update : σ → α → Except ε σ} {rounds : Nat} {s s' : σ} (hne : ∀ txt x, format txt x → txt ≠ [])

include hne

theorem eachRecord_nil_iff : eachRecord stuck read update rounds s [] = .ok s' ↔
    ∃ xs, Sequence format [] xs ∧ xs.foldlM update s = .ok s' := by
  rw [eachRecord]
  constructor
  · intro h
    exact ⟨[], .nil, h⟩
  rintro ⟨xs, hxs, hf⟩
  obtain ⟨-, rfl⟩ | ⟨txt, rest, x, xs, ht, -, heq, -⟩ := (sequence_iff ..).mp hxs
  · exact hf
  · exact absurd (append_eq_nil_iff.mp heq.symm).1 (hne txt x ht)

theorem eachRecord_ok_iff (hr : ReadsFormat format read) {input : List UInt8}
    (hrn : input.length ≤ rounds) : eachRecord stuck read update rounds s input = .ok s' ↔
      ∃ xs, Sequence format input xs ∧ xs.foldlM update s = .ok s' := by
  induction rounds generalizing s input with
  | zero =>
    cases length_eq_zero_iff.mp (Nat.le_zero.mp hrn)
    exact eachRecord_nil_iff hne
  | succ rounds ih =>
    rcases input with _ | ⟨byte, bs⟩
    · exact eachRecord_nil_iff hne
    have hlt {txt rest : List UInt8} {x : α} (hx : format txt x) (heq : byte :: bs = txt ++ rest) :
        rest.length ≤ rounds := by
      have hp := length_pos_iff.mpr (hne txt x hx)
      grind
    constructor
    · intro h
      obtain ⟨⟨x, rest⟩, hx, h⟩ := bind_eq_ok h
      obtain ⟨next, hn, h⟩ := bind_eq_ok h
      obtain ⟨txt, ht, heq⟩ := (hr _ _ _).mp hx
      obtain ⟨xs, hxs, hf⟩ := (ih (hlt ht heq)).mp h
      refine ⟨x :: xs, heq ▸ .cons ht hxs, ?_⟩
      rw [foldlM_cons, hn]
      exact hf
    · rintro ⟨xs, hxs, hf⟩
      obtain ⟨hnl, -⟩ | ⟨txt, rest, x, xs, ht, hrs, heq, rfl⟩ := (sequence_iff ..).mp hxs
      · cases hnl
      obtain ⟨next, hn, hf⟩ := bind_eq_ok hf
      rw [eachRecord, (hr _ _ _).mpr ⟨txt, ht, heq⟩]
      simp only [bind, Except.bind, hn]
      grind

/-- The rounds are enough: a loop fails as its reader or an update does. -/
theorem eachRecord_ne_stuck (hr : ReadsFormat format read) (he : ∀ input, read input ≠ .error stuck)
    (hu : ∀ s x, update s x ≠ .error stuck) {input : List UInt8} (hrn : input.length ≤ rounds) :
    eachRecord stuck read update rounds s input ≠ .error stuck := by
  induction rounds generalizing s input with
  | zero =>
    cases length_eq_zero_iff.mp (Nat.le_zero.mp hrn)
    simp [eachRecord]
  | succ rounds ih =>
    rcases input with _ | ⟨byte, bs⟩
    · simp [eachRecord]
    refine bind_ne_error (he _) fun a ha => bind_ne_error (hu s a.1) fun next _ => ih ?_
    obtain ⟨txt, ht, heq⟩ := (hr _ _ _).mp ha
    have hp := length_pos_iff.mpr (hne txt a.1 ht)
    have hl := congrArg length heq
    rw [length_append] at hl
    omega

/-- A loop that only reads. -/
theorem eachRecord_unit_iff (hr : ReadsFormat format read) {input : List UInt8} (hrn : input.length ≤ rounds)
    {u : Unit} : eachRecord stuck read (fun () _ => .ok ()) rounds () input = .ok u ↔
      ∃ xs, Sequence format input xs := by
  rw [eachRecord_ok_iff hne hr hrn]
  have hf (xs : List α) : xs.foldlM (fun () _ => (.ok () : Except ε Unit)) () = .ok () := by
    induction xs with
    | nil => rfl
    | cons x xs ih => exact ih
  simp only [hf, and_true]

end Loop

end Framework
