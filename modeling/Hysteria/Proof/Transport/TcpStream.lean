import Hysteria.Impl.Transport.TcpStream
import Hysteria.Proof.Protocol.Tcp

/-!
# The readers of a stream and the decoders of a slice

Step by step the readers agree with the decoders (`agrees_readVarint`,
`agrees_readExact`, `agrees_discardExact`), until the text of the frame: a reader
refuses what is not UTF-8, where a decoder puts in replacement characters.
-/

namespace Hysteria.Proof

open Framework Impl StreamReader

variable (texts : StreamTexts)

/-! ## The parts of a frame -/

theorem run_readU8_cons (b : UInt8) (s : List UInt8) : (readU8 texts).run (b :: s) = .ok (b, s) := rfl

/-- The bytes of a varint after the first, as the decoder takes them. -/
theorem run_readVarintRest (n : Nat) (val : UInt64) (s : List UInt8) : ((readVarintRest texts n val).run s).toOption =
      if n ≤ s.length then
        some ((s.take n).foldl (fun (val : UInt64) byte => val <<< 8 ||| byte.toUInt64) val, s.drop n)
      else none := by
  induction n generalizing val s with
  | zero => rfl
  | succ n ih =>
    rw [readVarintRest, run_bind]
    rcases s with _ | ⟨b, s⟩
    · rfl
    rw [run_readU8_cons]
    refine (ih _ _).trans ?_
    simp

theorem agrees_readVarint : Agrees (readVarint texts) Decode.varint := by
  intro s
  rw [readVarint, run_bind]
  rcases s with _ | ⟨first, s⟩
  · rfl
  rw [run_readU8_cons]
  refine (run_readVarintRest texts _ _ s).trans ?_
  have hp := one_shiftLeft_pos (first >>> 6).toNat
  obtain ⟨k, hk⟩ : ∃ k, 1 <<< (first >>> 6).toNat = k + 1 := ⟨1 <<< (first >>> 6).toNat - 1, by omega⟩
  rw [Decode.varint, decodeVarint]
  simp only [hk, Nat.add_sub_cancel, List.length_cons, List.drop_succ_cons]
  by_cases h : k ≤ s.length
  · rw [if_pos h, if_neg (by omega)]
    rfl
  · rw [if_neg h, if_pos (by omega)]
    rfl

theorem agrees_readExact (n : Nat) : Agrees (Impl.readExact texts n) (Decode.take n) := by
  intro s
  rw [Impl.readExact, run_readExact, Decode.take, take, takeBytes]
  by_cases h : n ≤ s.length
  · rw [if_pos h, if_neg (by omega)]
    rfl
  · rw [if_neg h, if_pos (by omega)]
    rfl

theorem run_discardExact (n : Nat) (s : List UInt8) :
    ((discardExact texts n).run s).toOption = if n ≤ s.length then some ((), s.drop n) else none := by
  induction n using Nat.strongRecOn generalizing s with
  | ind n ih =>
    rw [discardExact]
    split
    · rename_i hp
      rw [run_bind, Impl.readExact, run_readExact]
      by_cases h : min n 1024 ≤ s.length
      · rw [if_pos h]
        refine (ih (n - min n 1024) (by omega) _).trans ?_
        simp_all
      · rw [if_neg h, if_neg (by omega)]
        rfl
    · rw [if_pos (by omega), show n = 0 by omega]
      rfl

theorem agrees_discardExact (n : Nat) : Agrees (discardExact texts n) (do let _ ← Decode.take n; return ()) := by
  intro s
  rw [run_discardExact]
  by_cases h : n ≤ s.length
  · rw [if_pos h, bind_of_ok (show Decode.take n s = .ok (s.take n, s.drop n) by
      rw [Decode.take, take, takeBytes, if_neg (by omega)])]
    rfl
  rw [if_neg h, bind_of_error (show Decode.take n s = .error .unexpectedEnd by
    rw [Decode.take, take, takeBytes, if_pos (by omega)])]
  rfl

/-- A length is checked as the decoder checks it. -/
theorem agrees_checkedLength {α ε : Type} {bad : UInt64 → Prop} [DecidablePred bad] {e : ε} {hi : Nat}
    {allowEmpty : Bool} {f : Nat → ReadStream α} {d : Decoder ε α} (val : UInt64)
    (hbd : bad val ↔ (allowEmpty = false ∧ val = 0) ∨ val > UInt64.ofNat hi) (h : Agrees (f val.toNat) d) :
    Agrees (checkedLength val hi allowEmpty >>= f) (if bad val then throw e else d) := by
  rw [checkedLength]
  by_cases hb : bad val
  · rw [if_pos hb, if_pos (hbd.mp hb)]
    exact fun _ => rfl
  · rw [if_neg hb, if_neg (mt hbd.mpr hb)]
    exact h

/-! ## Frames -/

/-- The text of a request as it stands in the frame. -/
def requestText : Decode (List UInt8) := do
  let frameType ← .varint
  if frameType ≠ frameTypeTcpRequest then throw (.invalidFrameType frameType) else
  let addressBytes ← field badAddress .invalidAddressLength
  let _ ← field badPadding .invalidPaddingLength
  return addressBytes

theorem decodeRequest_eq_text : TcpRequest.decode = (do
    let addressBytes ← requestText
    return { address := fromUtf8Lossy addressBytes }) := by
  unfold TcpRequest.decode requestText
  rw [decodeBody_eq]
  simp only [bind_assoc, check_bind, pure_bind]

/-- The same, but for texts that are not UTF-8. -/
def strictText (bytes : List UInt8) : Decode Str :=
  match fromUtf8 bytes with
  | some text => return text
  | none => throw .unexpectedEnd

theorem agrees_stringFromUtf8 (bs : List UInt8) : Agrees (stringFromUtf8 texts bs) (strictText bs) := by
  unfold stringFromUtf8 strictText
  cases fromUtf8 bs <;> exact fun _ => rfl

theorem agrees_readTcpRequest : Agrees (readTcpRequest texts) (do
    let addressBytes ← requestText
    let addr ← strictText addressBytes
    return { address := addr }) := by
  unfold readTcpRequest requestText field
  simp only [bind_assoc, check_bind, pure_bind]
  refine (agrees_readVarint texts).bind fun frameType => .check fun _ => ?_
  refine (agrees_readVarint texts).bind fun addressLen => agrees_checkedLength addressLen ?_ ?_
  · simp [badAddress]
  refine (agrees_readExact texts _).bind fun addr => ?_
  refine (agrees_readVarint texts).bind fun plen => agrees_checkedLength plen ?_ ?_
  · simp [badPadding]
  have hd := (agrees_discardExact texts plen.toNat).bind fun _ =>
    (agrees_stringFromUtf8 texts addr).bind fun addr => Agrees.pure (TcpRequest.mk addr)
  simpa only [bind_assoc, pure_bind] using hd

theorem agrees_readU8 : Agrees (readU8 texts) statusByte := by
  intro s
  rcases s with _ | ⟨b, s⟩
  · rfl
  rfl

theorem agrees_readTcpResponse : Agrees (readTcpResponse texts) (do
    let text ← responseText
    let msg ← strictText text.2
    return { ok := text.1 == 0, message := msg }) := by
  unfold readTcpResponse responseText field
  simp only [bind_assoc, check_bind, pure_bind]
  refine (agrees_readU8 texts).bind fun status => ?_
  refine (agrees_readVarint texts).bind fun messageLen => agrees_checkedLength messageLen ?_ ?_
  · simp [badMessage]
  refine (agrees_readExact texts _).bind fun msg => ?_
  refine (agrees_readVarint texts).bind fun plen => agrees_checkedLength plen ?_ ?_
  · simp [badPadding]
  have hd := (agrees_discardExact texts plen.toNat).bind fun _ =>
    (agrees_stringFromUtf8 texts msg).bind fun msg => Agrees.pure (TcpResponse.mk (status == 0) msg)
  simpa only [bind_assoc, pure_bind] using hd

/-- A decoder that refuses texts that are not UTF-8, and one that repairs them. -/
theorem strict_ok_iff {α β : Type} {raw : Decode α} {txt : α → List UInt8} {make : α → Str → β}
    {s rest : List UInt8} {b : β} :
    (raw >>= fun a => strictText (txt a) >>= fun t => (return make a t : Decode β)) s = .ok (b, rest) ↔
      (raw >>= fun a => (return make a (fromUtf8Lossy (txt a)) : Decode β)) s = .ok (b, rest) ∧
        ∀ a rest, raw s = .ok (a, rest) → (fromUtf8 (txt a)).isSome = true := by
  rcases hr : raw s with e | p
  · rw [bind_of_error hr, bind_of_error hr]
    simp
  obtain ⟨a, rest'⟩ := p
  rw [bind_of_ok hr, bind_of_ok hr]
  rcases ht : fromUtf8 (txt a) with _ | t
  · refine iff_of_false ?_ fun h => ?_
    · rw [bind_of_error (show strictText (txt a) rest' = .error .unexpectedEnd by rw [strictText, ht]; rfl)]
      intro h
      cases h
    grind
  · rw [bind_of_ok (show strictText (txt a) rest' = .ok (t, rest') by rw [strictText, ht]; rfl),
      fromUtf8Lossy_of_fromUtf8 ht]
    grind

theorem run_readTcpResponse_iff {s rest : List UInt8} {resp : TcpResponse} :
    (readTcpResponse texts).run s = .ok (resp, rest) ↔ TcpResponse.decode s = .ok (resp, rest) ∧
      ∀ txt rest, responseText s = .ok (txt, rest) → (fromUtf8 txt.2).isSome = true := by
  rw [(agrees_readTcpResponse texts).ok_iff, decodeResponse_eq_text]
  exact strict_ok_iff

/-- However a stream is cut into chunks, its reader accepts exactly what the
decoder accepts and whose text is UTF-8, with the same value and the same bytes
left. -/
theorem stream_readers_agree (chunks : List (List UInt8)) :
    (∀ request rest, (readTcpRequest texts).readChunks chunks = .ok (request, rest) ↔
      TcpRequest.decode chunks.flatten = .ok (request, rest) ∧
        ∀ text rest, requestText chunks.flatten = .ok (text, rest) → (fromUtf8 text).isSome = true) ∧
    ∀ response rest, (readTcpResponse texts).readChunks chunks = .ok (response, rest) ↔
      TcpResponse.decode chunks.flatten = .ok (response, rest) ∧
        ∀ text rest, responseText chunks.flatten = .ok (text, rest) → (fromUtf8 text.2).isSome = true := by
  refine ⟨fun request rest => ?_, fun response rest => ?_⟩
  · rw [readChunks_eq, (agrees_readTcpRequest texts).ok_iff, decodeRequest_eq_text]
    exact strict_ok_iff
  · rw [readChunks_eq]
    exact run_readTcpResponse_iff texts

/-- An address that is not UTF-8 is read from a slice, not from a stream. -/
theorem lossy_address_refused : TcpRequest.decode [0x44, 0x01, 1, 0xff, 0] = .ok (⟨['\uFFFD']⟩, []) ∧
      ∀ texts request rest, (readTcpRequest texts).readChunks [[0x44, 0x01, 1, 0xff, 0]] ≠ .ok (request, rest) := by
  refine ⟨rfl, fun texts request rest h => ?_⟩
  rw [readChunks_eq, (agrees_readTcpRequest texts).ok_iff] at h
  cases h

end Hysteria.Proof
