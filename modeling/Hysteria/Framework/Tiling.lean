import Mathlib.Data.List.Pairwise

/-!
# Pieces of a string

Data is written at offsets, and the last write of an offset counts (`lastWritten`).
A `Listing` has what was written in the order of the offsets, and there is only one
(`Listing.unique`). Its pieces follow one another exactly if they tile a string
(`Tiles`); so do the pieces that a string was cut into (`tiles_cuts`).
-/

namespace Framework

open List

variable {α β : Type}
variable {writes pieces : List (Nat × β)} {k start : Nat} {data : β} {cs : List (List α)} {piece : Nat × List α}

/-! ## Writes -/

/-- The data that was last written at an offset. -/
def lastWritten : List (Nat × β) → Nat → Option β
  | [], _ => none
  | (offset, data) :: writes, k => (lastWritten writes k).or (if offset = k then some data else none)

theorem lastWritten_concat (writes : List (Nat × β)) (off : Nat) (data : β) (k : Nat) :
    lastWritten (writes ++ [(off, data)]) k = if off = k then some data else lastWritten writes k := by
  induction writes with
  | nil => simp [lastWritten]
  | cons write writes ih =>
    rw [cons_append, lastWritten, lastWritten, ih]
    split <;> simp

theorem mem_of_lastWritten (h : lastWritten writes k = some data) : (k, data) ∈ writes := by
  induction writes with
  | nil => cases h
  | cons write writes ih =>
    rw [lastWritten, Option.or_eq_some_iff] at h
    grind

theorem isSome_lastWritten (h : (k, data) ∈ writes) : (lastWritten writes k).isSome = true := by
  induction writes with
  | nil => cases h
  | cons write writes ih =>
    rw [lastWritten, Option.isSome_or]
    grind

/-! ## Listings -/

/-- What is stored, in the order of the offsets. -/
structure Listing (pieces : List (Nat × β)) (stored : Nat → Option β) : Prop where
  sorted : pieces.Pairwise (·.1 < ·.1)
  mem_iff : ∀ k data, (k, data) ∈ pieces ↔ stored k = some data

theorem Listing.unique {pieces' : List (Nat × β)} {stored : Nat → Option β} (h : Listing pieces stored)
    (h' : Listing pieces' stored) : pieces = pieces' := by
  have hn : ∀ {pieces : List (Nat × β)}, Listing pieces stored → pieces.Nodup := by
    intro pieces h
    refine h.sorted.imp fun {a b} hlt heq => ?_
    grind
  have hp : pieces.Perm pieces' := by
    rw [perm_ext_iff_of_nodup (hn h) (hn h')]
    intro piece
    rw [h.mem_iff, h'.mem_iff]
  exact hp.eq_of_pairwise (fun a b _ _ hab hba => absurd hab (Nat.lt_asymm hba)) h.sorted h'.sorted

theorem listing_of_writes (hs : pieces.Pairwise (·.1 < ·.1))
    (hm : ∀ write, write ∈ writes ↔ write ∈ pieces) : Listing pieces (lastWritten writes) where
  sorted := hs
  mem_iff k data := by
    constructor
    · intro h
      obtain ⟨last, hl⟩ := Option.isSome_iff_exists.mp (isSome_lastWritten ((hm _).mpr h))
      have hp := (hm _).mp (mem_of_lastWritten hl)
      -- Two pieces at one offset are the same one.
      by_cases heq : (k, last) = (k, data)
      · rw [hl, (Prod.mk.inj heq).2]
      have hne : pieces.Pairwise (·.1 ≠ ·.1) := hs.imp fun {a b} hlt => Nat.ne_of_lt hlt
      have : Std.Symm fun a b : Nat × β => a.1 ≠ b.1 := ⟨fun _ _ hab => hab.symm⟩
      exact (hne.forall hp h heq rfl).elim
    · exact fun h => (hm _).mp (mem_of_lastWritten h)

/-! ## Tilings -/

/-- The pieces are those of `s`, from `start` on. -/
def Tiles (start : Nat) : List (Nat × List α) → (s : List α) → Prop
  | [], s => s = []
  | (offset, piece) :: pieces, s =>
    offset = start ∧ ∃ rest, s = piece ++ rest ∧ Tiles (start + piece.length) pieces rest

/-- The pieces of a string that is cut into chunks. -/
def cuts (start : Nat) : List (List α) → List (Nat × List α)
  | [] => []
  | chunk :: chunks => (start, chunk) :: cuts (start + chunk.length) chunks

theorem tiles_cuts (start : Nat) (cs : List (List α)) : Tiles start (cuts start cs) cs.flatten := by
  induction cs generalizing start with
  | nil => rfl
  | cons chunk cs ih => exact ⟨rfl, cs.flatten, rfl, ih _⟩

theorem le_of_mem_cuts (h : piece ∈ cuts start cs) : start ≤ piece.1 := by
  induction cs generalizing start with
  | nil => cases h
  | cons chunk cs ih =>
    rcases mem_cons.mp h with rfl | h
    · exact Nat.le_refl _
    grind

theorem mem_of_mem_cuts (h : piece ∈ cuts start cs) : piece.2 ∈ cs := by
  induction cs generalizing start with
  | nil => cases h
  | cons chunk cs ih =>
    rcases mem_cons.mp h with rfl | h
    · exact mem_cons_self
    · exact mem_cons_of_mem _ (ih h)

theorem pairwise_cuts (start : Nat) (h : ∀ chunk ∈ cs, chunk ≠ []) : (cuts start cs).Pairwise (·.1 < ·.1) := by
  induction cs generalizing start with
  | nil => exact .nil
  | cons chunk cs ih =>
    obtain ⟨hch, hcs⟩ := forall_mem_cons.mp h
    refine .cons (fun piece hp => ?_) (ih _ hcs)
    have hps := length_pos_iff.mpr hch
    have hle := le_of_mem_cuts hp
    omega

end Framework
