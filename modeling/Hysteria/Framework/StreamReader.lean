import Hysteria.Framework.Decoder

/-!
# Readers of a byte stream

Code that awaits bytes from a stream: `readExact` suspends it until so many have
come. `feed` runs a reader on what has come so far, `Progress.more` resumes it,
and `Progress.finish` is the end of the stream. How the bytes were cut into
chunks makes no difference (`readChunks_eq`), so a reader is compared with a
decoder of a byte string (`Agrees`) on the whole stream.
-/

namespace Framework

open List

variable {rest : List UInt8}

inductive StreamReader (ε α : Type) where
  | pure (a : α)
  | fail (e : ε)
  /-- Awaits `n` bytes; `early m` if the stream ends after `m` of them. -/
  | readExact (n : Nat) (early : Nat → ε) (next : List UInt8 → StreamReader ε α)

/-- A reader that is suspended with the bytes it has got, or its result and the
bytes that it has left in the stream. -/
inductive Progress (ε α : Type) where
  | waiting (n : Nat) (early : Nat → ε) (next : List UInt8 → StreamReader ε α) (got : List UInt8)
  | finished (result : Except ε α) (rest : List UInt8)

variable {ε ε' α β γ : Type}

namespace StreamReader

def bind : StreamReader ε α → (α → StreamReader ε β) → StreamReader ε β
  | .pure a, f => f a
  | .fail e, _ => .fail e
  | .readExact n early next, f => .readExact n early fun bytes => (next bytes).bind f

instance : Monad (StreamReader ε) where
  pure := .pure
  bind := .bind

/-- Runs until more bytes are needed. -/
def feed : StreamReader ε α → List UInt8 → Progress ε α
  | .pure a, input => .finished (.ok a) input
  | .fail e, input => .finished (.error e) input
  | .readExact n early next, input =>
    if n ≤ input.length then (next (input.take n)).feed (input.drop n) else .waiting n early next input

end StreamReader

namespace Progress

def more : Progress ε α → List UInt8 → Progress ε α
  | .waiting n early next got, bytes => (StreamReader.readExact n early next).feed (got ++ bytes)
  | .finished result rest, bytes => .finished result (rest ++ bytes)

/-- The stream has ended. -/
def finish : Progress ε α → Except ε (α × List UInt8)
  | .waiting _ early _ got => .error (early got.length)
  | .finished (.ok a) rest => .ok (a, rest)
  | .finished (.error e) _ => .error e

end Progress

namespace StreamReader

variable {r : StreamReader ε α} {f : α → StreamReader ε β} {d : Decoder ε' α} {s : List UInt8}

/-- The result on a stream that has come as a whole, and what is left of it. -/
def run (r : StreamReader ε α) (s : List UInt8) : Except ε (α × List UInt8) := (r.feed s).finish

/-- The result on a stream that comes in chunks. -/
def readChunks (r : StreamReader ε α) (chunks : List (List UInt8)) : Except ε (α × List UInt8) :=
  (chunks.foldl Progress.more (r.feed [])).finish

theorem more_feed (r : StreamReader ε α) (xs ys : List UInt8) : (r.feed xs).more ys = r.feed (xs ++ ys) := by
  induction r generalizing xs with
  | pure a => rfl
  | fail e => rfl
  | readExact n early next ih =>
    by_cases h : n ≤ xs.length
    · grind [feed, length_append]
    · rw [feed, if_neg h]
      rfl

theorem more_more (p : Progress ε α) (xs ys : List UInt8) : (p.more xs).more ys = p.more (xs ++ ys) := by
  cases p with
  | waiting n early next got =>
    show ((readExact n early next).feed (got ++ xs)).more ys = (readExact n early next).feed (got ++ (xs ++ ys))
    rw [more_feed, append_assoc]
  | finished res rest =>
    show Progress.finished res (rest ++ xs ++ ys) = Progress.finished res (rest ++ (xs ++ ys))
    rw [append_assoc]

theorem readChunks_eq (r : StreamReader ε α) (cs : List (List UInt8)) : r.readChunks cs = r.run cs.flatten := by
  have hf : ∀ xs, cs.foldl Progress.more (r.feed xs) = r.feed (xs ++ cs.flatten) := by
    induction cs with
    | nil =>
      simp
    | cons chunk cs ih =>
      intro xs
      rw [foldl_cons, more_feed, ih, flatten_cons, append_assoc]
  rw [readChunks, hf, nil_append]
  rfl

theorem run_readExact (n : Nat) (early : Nat → ε) (next : List UInt8 → StreamReader ε α) (s : List UInt8) :
    (readExact n early next).run s =
      if n ≤ s.length then (next (s.take n)).run (s.drop n) else .error (early s.length) := by
  rw [run, feed]
  split <;> rfl

theorem run_readExact_ok_iff {n : Nat} {early : Nat → ε} {next : List UInt8 → StreamReader ε α} {a : α} :
    (readExact n early next).run s = .ok (a, rest) ↔
      ∃ bs mid, bs.length = n ∧ s = bs ++ mid ∧ (next bs).run mid = .ok (a, rest) := by
  rw [run_readExact]
  constructor
  · grind [length_take_of_le, take_append_drop]
  grind

theorem run_readExact_pure {n : Nat} {early : Nat → ε} {bs : List UInt8} :
    (readExact n early .pure).run s = .ok (bs, rest) ↔ bs.length = n ∧ s = bs ++ rest := by
  rw [run_readExact_ok_iff]
  constructor
  · rintro ⟨bs, mid, hl, rfl, ⟨⟩⟩
    exact ⟨hl, rfl⟩
  · rintro ⟨hl, rfl⟩
    exact ⟨bs, rest, hl, rfl, rfl⟩

theorem run_pure {a b : α} : (Pure.pure a : StreamReader ε α).run s = .ok (b, rest) ↔ a = b ∧ s = rest := by
  constructor
  · rintro ⟨⟩
    exact ⟨rfl, rfl⟩
  · rintro ⟨rfl, rfl⟩
    rfl

theorem run_bind (r : StreamReader ε α) (f : α → StreamReader ε β) (s : List UInt8) :
    (r >>= f).run s = r.run s >>= fun (a, rest) => (f a).run rest := by
  induction r generalizing s with
  | pure a => rfl
  | fail e => rfl
  | readExact n early next ih =>
    show (readExact n early fun bs => next bs >>= f).run s = _
    rw [run_readExact, run_readExact]
    split
    · exact ih _ _
    · rfl

theorem run_bind_ok_iff {b : β} :
    (r >>= f).run s = .ok (b, rest) ↔ ∃ a mid, r.run s = .ok (a, mid) ∧ (f a).run mid = .ok (b, rest) := by
  rw [run_bind]
  rcases hr : r.run s with e | res
  · constructor
    · nofun
    · rintro ⟨a, mid, ⟨⟩, -⟩
  constructor
  · exact fun h => ⟨res.1, res.2, rfl, h⟩
  · rintro ⟨a, mid, ⟨⟩, h⟩
    exact h

theorem run_bind_ok {b : β} (h : (r >>= f).run s = .ok (b, rest)) :
    ∃ a mid, r.run s = .ok (a, mid) ∧ (f a).run mid = .ok (b, rest) :=
  run_bind_ok_iff.mp h

/-! ## Readers and decoders -/

theorem ok_iff_of_toOption {x : Except ε α} {y : Except ε' α} (h : x.toOption = y.toOption) {a : α} :
    x = .ok a ↔ y = .ok a := by
  cases x <;> cases y <;> cases h <;> simp

/-- The reader accepts what the decoder accepts, with the same value and the same
bytes left. -/
def Agrees (r : StreamReader ε α) (d : Decoder ε' α) : Prop := ∀ s, (r.run s).toOption = (d s).toOption

theorem Agrees.pure (a : α) : Agrees (Pure.pure a : StreamReader ε α) (Pure.pure a : Decoder ε' α) := fun _ => rfl

theorem Agrees.bind {g : α → Decoder ε' β} (h : Agrees r d) (hf : ∀ a, Agrees (f a) (g a)) :
    Agrees (r >>= f) (d >>= g) := by
  intro s
  have hs := h s
  rw [run_bind]
  rcases hd : d s with e | p
  · rw [hd] at hs
    rw [bind_of_error hd]
    rcases hr : r.run s with e' | p
    · rfl
    · rw [hr] at hs
      cases hs
  · rw [hd] at hs
    rw [bind_of_ok hd]
    rcases hr : r.run s with e' | q
    · rw [hr] at hs
      cases hs
    rw [hr] at hs
    cases hs
    exact hf _ _

theorem Agrees.check {c : Prop} [Decidable c] {e : ε} {e' : ε'} (h : ¬ c → Agrees r d) :
    Agrees (if c then .fail e else r) (if c then throw e' else d) := by
  split
  · exact fun _ => rfl
  · rename_i hc
    exact h hc

theorem Agrees.ok_iff (h : Agrees r d) {a : α} : r.run s = .ok (a, rest) ↔ d s = .ok (a, rest) :=
  ok_iff_of_toOption (h s)

end StreamReader

end Framework
