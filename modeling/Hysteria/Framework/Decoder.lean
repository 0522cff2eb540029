import Mathlib.Data.List.Basic

/-!
# Decoders

A decoder takes bytes from the front of its input: it is a computation on the
input that is left. `Decodes` says which bytes it takes for a value: these and
no more, whatever follows them, and on a part of them only it reports that the
input is short. Decoders that run one after the other take their bytes one after
the other (`Decodes.bind`).
-/

namespace Framework

open List

abbrev Decoder (ε α : Type) := StateT (List UInt8) (Except ε) α

variable {ε α β : Type} {short : ε}

structure Decodes (short : ε) (d : Decoder ε α) (bytes : List UInt8) (a : α) : Prop where
  whole : ∀ rest, d (bytes ++ rest) = .ok (a, rest)
  cut : ∀ front back, bytes = front ++ back → back ≠ [] → d front = .error short

section Bind

variable {d : Decoder ε α} {f : α → Decoder ε β} {input rest : List UInt8} {a : α}

theorem bind_of_ok (h : d input = .ok (a, rest)) : (d >>= f) input = f a rest := by
  show (d input).bind _ = _
  rw [h]
  rfl

theorem bind_of_error {e : ε} (h : d input = .error e) : (d >>= f) input = .error e := by
  show (d input).bind _ = _
  rw [h]
  rfl

/-- A check before the decoder is a check before all that follows. -/
theorem check_bind {c : Prop} [Decidable c] (e : ε) (d : Decoder ε α) (f : α → Decoder ε β) :
    (if c then throw e else d) >>= f = if c then throw e else d >>= f := by
  split <;> rfl

end Bind

theorem Decodes.pure (short : ε) (a : α) : Decodes short (pure a : Decoder ε α) [] a where
  whole _ := rfl
  cut _ _ h hback := absurd (append_eq_nil_iff.mp h.symm).2 hback

theorem Decodes.bind {d : Decoder ε α} {f : α → Decoder ε β} {bs bs' : List UInt8} {a : α} {b : β}
    (hd : Decodes short d bs a) (hf : Decodes short (f a) bs' b) :
    Decodes short (d >>= f) (bs ++ bs') b where
  whole rest := by
    rw [append_assoc, bind_of_ok (hd.whole (bs' ++ rest))]
    exact hf.whole rest
  cut front back h hback := by
    -- The cut is in the bytes of the second decoder, or in those of the first.
    rcases append_eq_append_iff.mp h with ⟨rest, rfl, hr⟩ | ⟨rest, hr, rfl⟩
    · rw [bind_of_ok (hd.whole rest)]
      exact hf.cut rest back hr hback
    by_cases hn : rest = []
    · subst hn
      rw [append_nil] at hr
      subst hr
      have hwh := hd.whole []
      rw [append_nil] at hwh
      rw [bind_of_ok hwh]
      exact hf.cut [] bs' rfl hback
    · exact bind_of_error (hd.cut front rest hr hn)

theorem Decodes.check {c : Prop} [Decidable c] {e : ε} {d : Decoder ε α} {bs : List UInt8} {a : α} (hc : ¬ c)
    (hd : Decodes short d bs a) : Decodes short (if c then throw e else d) bs a := by
  rwa [if_neg hc]

end Framework
