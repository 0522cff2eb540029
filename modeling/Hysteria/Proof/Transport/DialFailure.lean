import Mathlib.Data.Vector.Defs
import Hysteria.Proof.Transport.TcpStream

/-!
# The response to a failed dial

The text of the error is cut at a character (`truncateMessage_spec`), so that it fits in a
response, and so does the padding (`length_randomPadding`). The client reads this text.
-/

namespace Hysteria.Proof

open Framework Impl StreamReader
open List hiding Vector

/-- The loop stops at the last boundary. -/
theorem truncateBoundary_spec (msg : Str) (max : Nat) : ∃ a b, msg = a ++ b ∧ (utf8 a).length ≤ max ∧
    truncateBoundary msg max = some (utf8 a).length ∧
    ∀ n ≤ max, isCharBoundary msg n = true → n ≤ (utf8 a).length := by
  have hstop {n : Nat} (h : isCharBoundary msg n = true) : ∃ a b, msg = a ++ b ∧ (utf8 a).length ≤ n ∧
      some n = some (utf8 a).length ∧ ∀ k ≤ n, isCharBoundary msg k = true → k ≤ (utf8 a).length := by
    obtain ⟨a, b, rfl, rfl⟩ := isCharBoundary_iff.mp h
    grind
  induction max with
  | zero =>
    have h0 : isCharBoundary msg 0 = true := isCharBoundary_iff.mpr ⟨[], msg, rfl, rfl⟩
    rw [truncateBoundary, if_pos h0]
    exact hstop h0
  | succ max ih =>
    rw [truncateBoundary]
    split
    · next h => exact hstop h
    grind [Nat.eq_or_lt_of_le]

/-- What is kept is the longest front that fits. -/
theorem truncateMessage_spec (msg : Str) (max : Nat) : ∃ text, truncateMessage msg max = some text ∧
    text <+: msg ∧ (utf8 text).length ≤ max ∧
    ∀ front, front <+: msg → (utf8 front).length ≤ max → front <+: text := by
  unfold truncateMessage
  split
  · grind
  obtain ⟨a, b, rfl, hle, ht, hmax⟩ := truncateBoundary_spec msg max
  have hsl := byteSlice_append [] a b
  rw [nil_append, utf8_nil, length_nil, Nat.zero_add] at hsl
  refine ⟨a, by rw [ht]; exact hsl, prefix_append a b, hle, fun front hf hfl => ?_⟩
  obtain ⟨back, hs⟩ := hf
  have hl := hmax _ hfl (isCharBoundary_iff.mpr ⟨front, back, hs.symm, rfl⟩)
  obtain hfa | ⟨more, rfl⟩ := prefix_or_prefix_of_prefix ⟨back, hs⟩ (prefix_append a b)
  · exact hfa
  rw [utf8_append, length_append] at hl
  have hnil : utf8 more = [] := eq_nil_of_length_eq_zero (by omega)
  simp [utf8_eq_nil.mp hnil]

theorem length_randomPadding {random : (call n : Nat) → Except Str (Vector UInt8 n)} {pad : List UInt8}
    (h : randomPadding random tcpResponsePaddingMin tcpResponsePaddingMaxExclusive = .ok pad) :
    pad.length < tcpResponsePaddingMaxExclusive := by
  obtain ⟨bytes, -, h⟩ := bind_eq_ok_iff.mp h
  obtain ⟨pad, -, h⟩ := bind_eq_ok_iff.mp h
  cases h
  grind [tcpResponsePaddingMin, tcpResponsePaddingMaxExclusive]

/-- A client reads that its dial has failed, and the front of the error's text that fits in the response. -/
theorem dial_failure_reported (texts : StreamTexts) (message : Str) :
    ∃ text, truncateMessage message maxMessageLength = some text ∧
      text <+: message ∧ (utf8 text).length ≤ maxMessageLength ∧
      (∀ front, front <+: message → (utf8 front).length ≤ maxMessageLength → front <+: text) ∧
      ∀ random padding,
        randomPadding random tcpResponsePaddingMin tcpResponsePaddingMaxExclusive = .ok padding →
        ∃ bytes, TcpResponse.encode ⟨false, text⟩ padding = .ok bytes ∧
          writeTcpResponse random false text = .ok bytes ∧
          ∀ chunks rest, chunks.flatten = bytes ++ rest →
            (readTcpResponse texts).readChunks chunks = .ok (⟨false, text⟩, rest) := by
  obtain ⟨text, ht, hp, hl, hmax⟩ := truncateMessage_spec message maxMessageLength
  refine ⟨text, ht, hp, hl, hmax, fun random padding hpad => ?_⟩
  have hpl : padding.length ≤ maxPaddingLength :=
    Nat.le_of_lt (Nat.lt_of_lt_of_le (length_randomPadding hpad) (by decide))
  have hml : (utf8 (TcpResponse.mk false text).message).length ≤ maxMessageLength := hl
  obtain ⟨bytes, he, hd⟩ := decodes_responseText hml hpl
  refine ⟨bytes, he, ?_, fun chunks rest hc => ?_⟩
  · rw [writeTcpResponse, hpad]
    exact mapError_eq_ok_iff.mpr he
  rw [readChunks_eq, run_readTcpResponse_iff, hc]
  refine ⟨?_, fun txt rest' h => ?_⟩
  · rw [decodeResponse_eq_text, bind_of_ok (hd.whole rest), fromUtf8Lossy_utf8]
    rfl
  · cases (hd.whole rest).symm.trans h
    rw [fromUtf8_utf8]
    rfl

end Hysteria.Proof
