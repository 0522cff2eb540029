import Hysteria.Impl.Realm.EventStream

/-!
# The results of an event stream

`eventResults` reads a whole byte string by the grammar of server-sent events: its
complete lines, the events that its empty lines dispatch, and what the calls of `next`
return for these. Whatever chunks the bytes arrive in, and however often the waiting call
is dropped, the calls return what the grammar says (`run_expected`), up to how the data
lines of an event are put together: the code puts no LF after what is still empty, so
that empty lines at the start of the data are lost (`joinData`).
-/

namespace Hysteria.Proof

open Framework Impl List

variable {lib : EventLibrary} {s t : EventStream} {ret : List NextResult} {error : RealmClientError}
  {event : Option PunchEvent} {data : List Str}
variable {a : List UInt8} {first last : List NextResult} {txt : Str} {rounds : Nat}

/-- The lines that an LF or a CRLF ends; the bytes of `line` are already read. -/
def completeLines (line : List UInt8) : List UInt8 → List (List UInt8)
  | [] => []
  | b :: bs => if b = 10 then EventStream.dropCr line :: completeLines [] bs else completeLines (line ++ [b]) bs

/-- The value of a field is what follows the first colon, and a space after it if there is one. -/
def lineField (text : Str) : Option (Str × Str) :=
  (splitOnce ':' text).map fun (field, value) => (field, (stripStart [' '] value).getD value)

/-- The name and the data lines of the events, each dispatched by an empty line, up to the first
line that is not UTF-8. -/
def dispatches (lib : EventLibrary) :
    List (List UInt8) → Str → List Str → List (Except RealmClientError (Str × List Str))
  | [], _, _ => []
  | line :: lines, name, data =>
    match fromUtf8 line with
    | none => [.error (.response (lib.utf8Error line))]
    | some [] => .ok (name, data) :: dispatches lib lines [] []
    | some text =>
      match lineField text with
      | none => dispatches lib lines name data
      | some (field, value) =>
        if field = "event".toList then dispatches lib lines value data
        else if field = "data".toList then dispatches lib lines name (data ++ [value])
        else dispatches lib lines name data

/-- What is returned for the events, up to the first error or the end. -/
def eventResults (lib : EventLibrary) (join : List Str → Str) :
    List (Except RealmClientError (Str × List Str)) → List NextResult
  | [] => [.ok none]
  | .error error :: _ => [.error error]
  | .ok (name, data) :: events =>
    if name = "punch".toList then
      match lib.fromStr (join data) with
      | .error text => [.error (.response text)]
      | .ok event => .ok (some event) :: eventResults lib join events
    else eventResults lib join events

/-- The data as the code puts it together. -/
def joinData (data : List Str) : Str :=
  data.foldl (fun text line => (if text = [] then text else text ++ ['\n']) ++ line) []

/-- What a line does to the name and the data lines of the event that is still open. -/
def openStep (held : Str × List Str) (text : Str) : Str × List Str :=
  if text = [] then ([], [])
  else match lineField text with
    | none => held
    | some (field, value) =>
      if field = "event".toList then (value, held.2)
      else if field = "data".toList then (held.1, held.2 ++ [value])
      else held

/-- The chunks, each after as many dropped calls, and then the end of the stream. -/
def deliveries (chunks : List (Nat × List UInt8)) (drops : Nat) : List (Nat × Option (Except Str (List UInt8))) :=
  chunks.map (fun chunk => (chunk.1, some (.ok chunk.2))) ++ [(drops, none)]

/-! ## Lines -/

theorem completeLines_append (ha : 10 ∉ a) (line rest : List UInt8) :
    completeLines line (a ++ 10 :: rest) = EventStream.dropCr (line ++ a) :: completeLines [] rest := by
  induction a generalizing line with
  | nil => simp [completeLines]
  | cons b a ih =>
    simp only [mem_cons, not_or] at ha
    rw [cons_append, completeLines, if_neg (Ne.symm ha.1), ih ha.2, append_assoc, singleton_append]

theorem completeLines_eq_nil (ha : 10 ∉ a) (line : List UInt8) : completeLines line a = [] := by
  induction a generalizing line with
  | nil => rfl
  | cons b a ih =>
    simp only [mem_cons, not_or] at ha
    rw [completeLines, if_neg (Ne.symm ha.1), ih ha.2]

theorem takeLine_append (ha : 10 ∉ a) (rest : List UInt8) :
    EventStream.takeLine (a ++ 10 :: rest) = some (EventStream.dropCr a, rest) := by
  have hne : ∀ b ∈ a, (b != 10) = true := fun b hb => bne_iff_ne.mpr fun heq => ha (heq ▸ hb)
  simp_all [EventStream.takeLine]

theorem takeLine_split (input : List UInt8) : (EventStream.takeLine input = none ∧ 10 ∉ input) ∨
    ∃ a rest, 10 ∉ a ∧ input = a ++ 10 :: rest ∧ EventStream.takeLine input = some (EventStream.dropCr a, rest) := by
  by_cases h : 10 ∈ input
  · obtain ⟨a, rest, rfl, ha⟩ := eq_append_cons_of_mem h
    exact .inr ⟨a, rest, ha, rfl, takeLine_append ha rest⟩
  · have hne : ∀ b ∈ input, (b != 10) = true := fun b hb => bne_iff_ne.mpr fun heq => h (heq ▸ hb)
    exact .inl ⟨by simp [EventStream.takeLine, dropWhile_eq_nil_iff.mpr hne], h⟩

/-- The first line of the input is the first one of the input with what will arrive. -/
theorem takeLine_cases (input : List UInt8) : (EventStream.takeLine input = none ∧ 10 ∉ input) ∨
      ∃ line rest, EventStream.takeLine input = some (line, rest) ∧ rest.length < input.length ∧
        ∀ future, completeLines [] (input ++ future) = line :: completeLines [] (rest ++ future) := by
  rcases takeLine_split input with h | ⟨a, rest, ha, rfl, hl⟩
  · exact .inl h
  · refine .inr ⟨EventStream.dropCr a, rest, hl, by simp; omega, fun future => ?_⟩
    rw [append_assoc, cons_append, completeLines_append ha, nil_append]

/-! ## What the calls return -/

/-- What the grammar says of the input and the bytes that will arrive, after the data lines. -/
def expected (lib : EventLibrary) (s : EventStream) (data : List Str) (future : List UInt8) : List NextResult :=
  eventResults lib joinData (dispatches lib (completeLines [] (s.input ++ future)) s.eventName data)

/-- From `s` to `t` the calls return what the grammar says, whatever will arrive. -/
structure Advances (lib : EventLibrary) (returned : List NextResult) (s t : EventStream) : Prop where
  ended : t.ended = s.ended
  shorter : t.input.length ≤ s.input.length
  expected : ∀ data, s.data = joinData data → ∃ data', t.data = joinData data' ∧
    ∀ future, expected lib s data future = returned ++ expected lib t data' future

/-- The grammar says that the call returns the error. -/
def EndsWith (lib : EventLibrary) (returned : List NextResult) (s : EventStream) : Prop :=
  ∀ data, s.data = joinData data → ∀ future, expected lib s data future = returned

theorem Advances.refl (lib : EventLibrary) (s : EventStream) : Advances lib [] s s :=
  ⟨rfl, Nat.le_refl _, fun data h => ⟨data, h, fun _ => rfl⟩⟩

theorem Advances.trans {u : EventStream} (h : Advances lib first s t)
    (h' : Advances lib last t u) : Advances lib (first ++ last) s u := by
  refine ⟨h'.ended.trans h.ended, Nat.le_trans h'.shorter h.shorter, fun data hd => ?_⟩
  obtain ⟨data', hdata', hf⟩ := h.expected data hd
  grind [h'.expected]

theorem Advances.endsWith (h : Advances lib first s t) (h' : EndsWith lib last t) : EndsWith lib (first ++ last) s := by
  intro data hd future
  obtain ⟨data', hdata', hf⟩ := h.expected data hd
  rw [hf, h' data' hdata']

theorem joinData_concat (data : List Str) (line : Str) : joinData (data ++ [line]) =
      (if joinData data = [] then joinData data else joinData data ++ ['\n']) ++ line := by
  rw [joinData, foldl_append]
  rfl

theorem dispatches_text {line : List UInt8} (ht : fromUtf8 line = some txt) (hn : txt ≠ []) (lines : List (List UInt8))
    (name : Str) (data : List Str) : dispatches lib (line :: lines) name data =
      dispatches lib lines (openStep (name, data) txt).1 (openStep (name, data) txt).2 := by
  obtain ⟨c, txt, rfl⟩ := exists_cons_of_ne_nil hn
  simp only [dispatches, ht, openStep, if_neg hn]
  split
  · rfl
  split_ifs <;> rfl

/-- A line that is not empty. A comment is a field without a name, which is ignored. -/
theorem processLine_text (hn : txt ≠ []) (hd : s.data = joinData data) : s.processLine lib txt =
    (.ok none, { s with
      eventName := (openStep (s.eventName, data) txt).1, data := joinData (openStep (s.eventName, data) txt).2 }) := by
  rw [EventStream.processLine, if_neg hn, openStep, if_neg hn, lineField]
  rcases hs : splitOnce ':' txt with _ | ⟨fld, val⟩
  · simp [← hd]
  simp only [Option.map_some]
  split
  · next hc =>
    obtain ⟨rest, rfl⟩ := isPrefixOf_iff_prefix.mp hc
    cases hs.symm.trans (splitOnce_append (show ':' ∉ [] from not_mem_nil))
    simp [← hd]
  · by_cases he : fld = "event".toList
    · simp only [he, ↓reduceIte, ← hd]
    by_cases hd' : fld = "data".toList
    · simp_all [joinData_concat]
    · simp only [he, hd', ↓reduceIte, ← hd]

/-- What the inner loop or one of its lines returns is what the grammar says. An event takes a
line. -/
def Conforms (lib : EventLibrary) (s : EventStream) : NextResult × EventStream → Prop
  | (.error error, _) => EndsWith lib [.error error] s
  | (.ok event, t) =>
    Advances lib (event.toList.map (.ok ∘ some)) s t ∧ (event.isSome → t.input.length < s.input.length)

theorem processLine_conforms {line rest : List UInt8}
    (hl : ∀ future, completeLines [] (s.input ++ future) = line :: completeLines [] (rest ++ future))
    (hr : rest.length < s.input.length) (ht : fromUtf8 line = some txt) :
    Conforms lib s (EventStream.processLine lib { s with input := rest } txt) := by
  have hs : ∀ {ret : List NextResult} {t : EventStream}, t.input = rest → t.ended = s.ended →
      (∀ data, s.data = joinData data → ∃ data', t.data = joinData data' ∧ ∀ lines,
        eventResults lib joinData (dispatches lib (line :: lines) s.eventName data) =
          ret ++ eventResults lib joinData (dispatches lib lines t.eventName data')) →
      Advances lib ret s t := by
    rintro ret t rfl he h
    refine ⟨he, Nat.le_of_lt hr, fun data hd => ?_⟩
    grind [expected]
  by_cases hn : txt = []
  · subst hn
    simp only [EventStream.processLine, ↓reduceIte]
    split
    · next hp =>
      split
      · next _ he =>
        intro data hd future
        simp only [expected, hl, dispatches, ht, eventResults, hp, ↓reduceIte, ← hd, he]
      next _ hok =>
      refine ⟨hs rfl rfl fun data hd => ⟨[], rfl, fun lines => ?_⟩, fun _ => hr⟩
      simp only [dispatches, ht, eventResults, hp, ↓reduceIte, ← hd, hok]
      rfl
    · next hp =>
      refine ⟨hs rfl rfl fun data _ => ⟨[], rfl, fun lines => ?_⟩, by simp⟩
      simp only [dispatches, ht, eventResults, hp, ↓reduceIte]
      rfl
  · have hp (data : List Str) (hd : s.data = joinData data) :=
      @processLine_text lib { s with input := rest } data txt hn hd
    rw [hp [s.data] rfl]
    refine ⟨hs rfl rfl fun data hd =>
      ⟨_, congrArg (·.2.data) ((hp [s.data] rfl).symm.trans (hp data hd)), fun lines => ?_⟩, by simp⟩
    rw [dispatches_text ht hn, congrArg (·.2.eventName) ((hp [s.data] rfl).symm.trans (hp data hd))]
    rfl

theorem Advances.conforms {ans : NextResult × EventStream} (h : Advances lib [] s t) (h' : Conforms lib t ans) :
    Conforms lib s ans := by
  obtain ⟨res, u⟩ := ans
  rcases res with error | event
  · exact h.endsWith h'
  · exact ⟨h.trans h'.1, fun hev => Nat.lt_of_lt_of_le (h'.2 hev) h.shorter⟩

/-- The inner loop ends without an event only when no complete line is left. -/
theorem drainLines_conforms (h : s.input.length ≤ rounds) : Conforms lib s (s.drainLines lib rounds) ∧
      ((s.drainLines lib rounds).1 = .ok none → 10 ∉ (s.drainLines lib rounds).2.input) := by
  induction rounds generalizing s with
  | zero =>
    rw [Nat.le_zero, length_eq_zero_iff] at h
    exact ⟨⟨.refl lib s, by simp⟩, fun _ => by simp [EventStream.drainLines, h]⟩
  | succ rounds ih =>
    rw [EventStream.drainLines]
    obtain ⟨hl, hm⟩ | ⟨line, rest, hl, hr, hln⟩ := takeLine_cases s.input
    · simp only [hl]
      exact ⟨⟨.refl lib s, by simp⟩, fun _ => hm⟩
    simp only [hl]
    rcases ht : fromUtf8 line with _ | txt
    · exact ⟨fun data _ future => by simp [expected, hln, dispatches, ht, eventResults], by simp⟩
    have hc : Conforms lib s _ := processLine_conforms hln hr ht
    have hi : (EventStream.processLine lib { s with input := rest } txt).2.input = rest := by
      unfold EventStream.processLine
      repeat' split
      all_goals rfl
    simp only
    generalize EventStream.processLine lib { s with input := rest } txt = answer at hc hi ⊢
    rcases answer with ⟨error | _ | event, t⟩
    · exact ⟨hc, by simp⟩
    · have hsh : t.input.length ≤ rounds := by
        grind
      obtain ⟨h, hm⟩ := ih hsh
      exact ⟨hc.1.conforms h, hm⟩
    · exact ⟨hc, by simp⟩

theorem drainLines_of_not_mem (h : 10 ∉ s.input) (rounds : Nat) : s.drainLines lib rounds = (.ok none, s) := by
  rcases rounds with _ | rounds
  · rfl
  rw [EventStream.drainLines]
  obtain ⟨hln, -⟩ | ⟨line, rest, -, -, hl⟩ := takeLine_cases s.input
  · rw [hln]
  have := hl []
  rw [append_nil, completeLines_eq_nil h] at this
  cases this

theorem poll_of_not_mem (h : 10 ∉ s.input) : s.poll lib = (if s.ended then some (.ok none) else none, s) := by
  rw [EventStream.poll, drainLines_of_not_mem h]

/-- Calls of a stream that has not ended: one of them returns an error, or one waits when it has
taken all complete lines. -/
theorem calls_cases (lib : EventLibrary) (he : s.ended = false) (h : s.input.length < rounds) :
    (∃ ret, s.calls lib rounds = (ret, none) ∧ EndsWith lib ret s) ∨
      ∃ ret t, s.calls lib rounds = (ret, some t) ∧ Advances lib ret s t ∧ 10 ∉ t.input := by
  induction rounds generalizing s with
  | zero => omega
  | succ rounds ih =>
    have hd : Conforms lib s _ ∧ _ := drainLines_conforms (Nat.le_refl s.input.length)
    rw [EventStream.calls, EventStream.poll]
    generalize s.drainLines lib s.input.length = answer at hd ⊢
    obtain ⟨hc, hm⟩ := hd
    match answer with
    | (.error error, t) => exact .inl ⟨[.error error], rfl, hc⟩
    | (.ok none, t) =>
      have ht : t.ended = false := hc.1.ended.trans he
      simp only [ht]
      exact .inr ⟨[], t, rfl, hc.1, hm rfl⟩
    | (.ok (some event), t) =>
      obtain ⟨ha, hsh⟩ := hc
      have hsh := hsh rfl
      obtain ⟨ret, hcl, hen⟩ | ⟨ret, u, hcl, hadv', hu⟩ := ih (ha.ended.trans he) (by omega)
      · simp only [hcl]
        exact .inl ⟨_, rfl, ha.endsWith hen⟩
      · simp only [hcl]
        exact .inr ⟨_, u, rfl, ha.trans hadv', hu⟩

/-- The chunks that arrive are read as if they had been there before. -/
theorem run_expected (drops : Nat) (cs : List (Nat × List UInt8)) (hen : s.ended = false)
    (hd : s.data = joinData data) (hs : s.input.length + (cs.map (·.2)).flatten.length ≤ maxEventBufferSize) :
    s.run lib (deliveries cs drops) = expected lib s data (cs.map (·.2)).flatten := by
  induction cs generalizing s data with
  | nil =>
    show s.run lib [(drops, none)] = expected lib s data []
    rw [EventStream.run]
    obtain ⟨ret, hc, he⟩ | ⟨ret, t, hc, ha, hm⟩ := calls_cases lib hen (Nat.lt_succ_self _)
    · rw [hc, he data hd]
    obtain ⟨data', -, h⟩ := ha.expected data hd
    have hdr : (fun s => (EventStream.poll lib s).2)^[drops] t = t :=
      Function.iterate_fixed (by rw [poll_of_not_mem hm]) drops
    have hp : EventStream.poll lib { t with ended := true } = (some (.ok none), { t with ended := true }) :=
      poll_of_not_mem hm
    rw [hc, h, expected, append_nil, completeLines_eq_nil hm]
    simp only [hdr, EventStream.receive, EventStream.run, EventStream.calls, hp]
    rfl
  | cons chunk cs ih =>
    simp only [map_cons, flatten_cons, length_append] at hs ⊢
    show s.run lib ((chunk.1, some (.ok chunk.2)) :: deliveries cs drops) = _
    rw [EventStream.run]
    obtain ⟨ret, hc, he⟩ | ⟨ret, t, hc, ha, hm⟩ := calls_cases lib hen (Nat.lt_succ_self _)
    · rw [hc, he data hd]
    obtain ⟨data', hdata', h⟩ := ha.expected data hd
    have hdr : (fun s => (EventStream.poll lib s).2)^[chunk.1] t = t :=
      Function.iterate_fixed (by rw [poll_of_not_mem hm]) chunk.1
    have hsh := ha.shorter
    have hr : ¬ t.input.length + chunk.2.length > maxEventBufferSize := by omega
    simp only [hc, hdr, EventStream.receive, hr, ↓reduceIte]
    have hl := ih (s := { t with input := t.input ++ chunk.2 }) (ha.ended.trans hen) hdata'
      (by simp only [length_append]; omega)
    rw [hl, h, expected, expected, append_assoc]

/-! ## Data lines -/

theorem foldl_data (ht : txt ≠ []) (data : List Str) :
    data.foldl (fun txt line => (if txt = [] then txt else txt ++ ['\n']) ++ line) txt =
      txt ++ data.flatMap ('\n' :: ·) := by
  induction data generalizing txt with
  | nil => simp
  | cons line data ih =>
    simp_all

theorem intercalate_cons (line : Str) (rest : List Str) :
    ['\n'].intercalate (line :: rest) = line ++ rest.flatMap ('\n' :: ·) := by
  induction rest generalizing line with
  | nil => simp
  | cons next rest ih => simp_all

/-- The empty lines at the start are lost. -/
theorem joinData_eq (data : List Str) : joinData data = ['\n'].intercalate (data.dropWhile (· = [])) := by
  induction data with
  | nil => rfl
  | cons line rest ih =>
    by_cases hl : line = []
    · rw [dropWhile_cons_of_pos (by simpa using hl), ← ih, hl]
      rfl
    · rw [dropWhile_cons_of_neg (by simpa using hl), joinData, foldl_cons, if_pos rfl, nil_append, foldl_data hl,
        intercalate_cons]

theorem joinData_eq_intercalate (h : ∀ rest, data = [] :: rest → rest = []) :
    joinData data = ['\n'].intercalate data := by
  rw [joinData_eq]
  rcases data with _ | ⟨line, rest⟩
  · rfl
  by_cases hl : line = []
  · rw [h rest (by rw [hl]), hl]
    rfl
  · rw [dropWhile_cons_of_neg (by simpa using hl)]

/-! ## Where the results are those of the grammar -/

/-- A `punch` event that is read after others without an error is read alike with the empty
lines at the start of its data and without them. -/
def ReadAlike (lib : EventLibrary) (events : List (Except RealmClientError (Str × List Str))) : Prop :=
  ∀ before data after, events = before ++ .ok ("punch".toList, data) :: after →
    (∀ event ∈ before, ∃ name lines, event = .ok (name, lines) ∧
      (name = "punch".toList → ∃ punch, lib.fromStr (['\n'].intercalate lines) = .ok punch)) →
    lib.fromStr (['\n'].intercalate (data.dropWhile (· = []))) = lib.fromStr (['\n'].intercalate data)

variable {evs : List (Except RealmClientError (Str × List Str))} {name : Str}

theorem readAlike_cons_error : ReadAlike lib (.error error :: evs) := by
  rintro (_ | ⟨first, before⟩) data after heq hb
  · cases heq
  · obtain ⟨rfl, -⟩ := cons.inj heq
    obtain ⟨name, lines, he, -⟩ := hb _ mem_cons_self
    cases he

/-- An event that is read without an error leads on to the next. -/
theorem readAlike_cons_of_ok
    (h : name = "punch".toList → ∃ punch, lib.fromStr (['\n'].intercalate data) = .ok punch)
    (hs : name = "punch".toList →
      lib.fromStr (['\n'].intercalate (data.dropWhile (· = []))) = lib.fromStr (['\n'].intercalate data)) :
    ReadAlike lib (.ok (name, data) :: evs) ↔ ReadAlike lib evs := by
  constructor
  · intro ha before data' after heq hb
    exact ha (.ok (name, data) :: before) data' after (by rw [heq]; rfl)
      (forall_mem_cons.mpr ⟨⟨name, data, rfl, h⟩, hb⟩)
  · rintro ha (_ | ⟨first, before⟩) data' after heq hb
    · obtain ⟨he, -⟩ := cons.inj heq
      cases he
      exact hs rfl
    · obtain ⟨-, heq⟩ := cons.inj heq
      exact ha before data' after heq (forall_mem_cons.mp hb).2

theorem readAlike_cons_of_error {err : Str} (h : lib.fromStr (['\n'].intercalate data) = .error err)
    (hs : lib.fromStr (['\n'].intercalate (data.dropWhile (· = []))) = lib.fromStr (['\n'].intercalate data)) :
    ReadAlike lib (.ok ("punch".toList, data) :: evs) := by
  rintro (_ | ⟨first, before⟩) data' after heq hb
  · obtain ⟨he, -⟩ := cons.inj heq
    cases he
    exact hs
  · obtain ⟨rfl, -⟩ := cons.inj heq
    obtain ⟨name, lines, he, hok⟩ := hb _ mem_cons_self
    cases he
    obtain ⟨punch, hp⟩ := hok rfl
    cases h.symm.trans hp

theorem eventResults_eq_iff (evs : List (Except RealmClientError (Str × List Str))) :
    eventResults lib joinData evs = eventResults lib ['\n'].intercalate evs ↔ ReadAlike lib evs := by
  induction evs with
  | nil => exact iff_of_true rfl (by simp [ReadAlike])
  | cons event evs ih =>
    rcases event with error | ⟨name, data⟩
    · exact iff_of_true rfl readAlike_cons_error
    by_cases hn : name = "punch".toList
    · subst hn
      simp only [eventResults, ↓reduceIte, joinData_eq data]
      by_cases hs : lib.fromStr (['\n'].intercalate (data.dropWhile (· = []))) =
          lib.fromStr (['\n'].intercalate data)
      · rcases hf : lib.fromStr (['\n'].intercalate data) with err | punch
        · rw [hs, hf]
          exact iff_of_true rfl (readAlike_cons_of_error hf hs)
        · rw [readAlike_cons_of_ok (fun _ => ⟨punch, hf⟩) fun _ => hs, ← ih, hs, hf]
          simp only [cons.injEq, true_and]
      · refine iff_of_false (fun h => hs ?_) fun h => hs (h [] data evs rfl (by simp))
        split at h <;> split at h <;> simp_all
    · rw [readAlike_cons_of_ok (fun h => absurd h hn) (fun h => absurd h hn), ← ih]
      simp only [eventResults, hn, ↓reduceIte]

theorem eventStream_results (lib : EventLibrary) (bytes : List UInt8) (hsize : bytes.length ≤ maxEventBufferSize) :
    (∃ results, ∀ chunks drops, (chunks.map (·.2)).flatten = bytes →
      EventStream.new.run lib (deliveries chunks drops) = results) ∧
    ((∀ rest, .ok ("punch".toList, [] :: rest) ∈ dispatches lib (completeLines [] bytes) [] [] → rest = []) →
      ∀ chunks drops, (chunks.map (·.2)).flatten = bytes → EventStream.new.run lib (deliveries chunks drops) =
          eventResults lib ['\n'].intercalate (dispatches lib (completeLines [] bytes) [] [])) ∧
    ∀ chunks drops, (chunks.map (·.2)).flatten = bytes → (EventStream.new.run lib (deliveries chunks drops) =
        eventResults lib ['\n'].intercalate (dispatches lib (completeLines [] bytes) [] []) ↔
      ReadAlike lib (dispatches lib (completeLines [] bytes) [] [])) := by
  have hr : ∀ chunks drops, (chunks.map (·.2)).flatten = bytes →
      EventStream.new.run lib (deliveries chunks drops) = expected lib .new [] bytes := by
    rintro chunks drops rfl
    exact run_expected drops chunks rfl rfl (by rw [EventStream.new, length_nil]; omega)
  refine ⟨⟨_, hr⟩, fun hf chunks drops hbs => ?_, fun chunks drops hbs => ?_⟩
  · rw [hr chunks drops hbs]
    refine (eventResults_eq_iff _).mpr fun before data after heq _ => ?_
    rw [← joinData_eq, joinData_eq_intercalate fun rest hrs => hf rest ?_]
    rw [← hrs]
    exact heq ▸ mem_append_right _ mem_cons_self
  · rw [hr chunks drops hbs]
    exact eventResults_eq_iff _

/-- A library that reads no data, with the text of `serde_json` for an object that is not closed. -/
def unclosedObject : EventLibrary where
  fromStr data :=
    .error ("EOF while parsing an object at line ".toList ++ showNat (data.count '\n' + 1) ++ " column 1".toList)
  utf8Error _ := "invalid utf-8 sequence".toList

/-- The CR and the LF of a line arrive apart, and the call that waits between them is dropped. -/
theorem eventStream_results_cut : EventStream.new.run unclosedObject
        (deliveries [(0, utf8 "event: punch\r".toList), (2, []), (1, utf8 "\ndata:\x7b\n\n".toList)] 1) =
      [.error (.response "EOF while parsing an object at line 1 column 1".toList)] := by
  have hevents : dispatches unclosedObject (completeLines [] (utf8 "event: punch\r\ndata:\x7b\n\n".toList)) [] [] =
      [.ok ("punch".toList, ["\x7b".toList])] := by decide +kernel
  rw [(eventStream_results unclosedObject (utf8 "event: punch\r\ndata:\x7b\n\n".toList) (by decide +kernel)).2.1
    (fun rest h => by rw [hevents] at h; simp at h), hevents] <;> decide +kernel

/-- The LF of an empty first data line is lost, and with it the line of the error. -/
theorem eventStream_results_emptyLine : let bytes := utf8 "event: punch\ndata:\ndata:\x7b\n\n".toList
    bytes.length ≤ maxEventBufferSize ∧ EventStream.new.run unclosedObject (deliveries [(0, bytes)] 0) =
        [.error (.response "EOF while parsing an object at line 1 column 1".toList)] ∧
      eventResults unclosedObject ['\n'].intercalate (dispatches unclosedObject (completeLines [] bytes) [] []) =
        [.error (.response "EOF while parsing an object at line 2 column 1".toList)] := by
  decide +kernel

end Hysteria.Proof
