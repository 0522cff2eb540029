import Hysteria.Proof.Realm.EventStream

/-!
# The memory of an event stream

The limit is on the input, which is what the lines have not been taken from yet. Next to it
stand the name and the data of the event that is still open (`openEvent`): as many lines as
the server sends, each of them short enough to pass. What a run has taken are the first lines of
the stream, up to one with an error (`StreamReaches.taken`), and it can stop after any of these
(`reaches_lines`).
-/

namespace Hysteria.Proof

open Framework Impl List

variable {lib : EventLibrary} {s t : EventStream} {txt : Str} {data : List Str} {bs : List UInt8}
  {event : Option PunchEvent} {rounds : Nat}

/-- The states of a stream that has delivered `bytes`, while the calls return no error. -/
inductive StreamReaches (lib : EventLibrary) : List UInt8 → EventStream → Prop
  | new : StreamReaches lib [] .new
  /-- Some lines of the input, or all up to an event. -/
  | lines {bytes : List UInt8} {s t : EventStream} {rounds : Nat} {event : Option PunchEvent}
    (hs : StreamReaches lib bytes s) (hl : s.drainLines lib rounds = (.ok event, t)) : StreamReaches lib bytes t
  /-- A chunk, or the end. -/
  | item {bytes : List UInt8} {s t : EventStream} {chunk : Option (List UInt8)} (hs : StreamReaches lib bytes s)
    (hw : s.poll lib = (none, s)) (hr : s.receive (chunk.map .ok) = .ok t) :
    StreamReaches lib (bytes ++ chunk.getD []) t

/-- The input, the name of the event and its data. -/
def bufferedBytes (s : EventStream) : Nat := s.input.length + ((utf8 s.eventName).length + (utf8 s.data).length)

/-- The name and the data lines of the event that is open after the lines. -/
def openEvent (lines : List (List UInt8)) : Str × List Str :=
  lines.foldl (fun held line => (fromUtf8 line).elim held (openStep held)) ([], [])

def openBytes (lines : List (List UInt8)) : Nat :=
  (utf8 (openEvent lines).1).length + (utf8 (joinData (openEvent lines).2)).length

/-- The lines of the stream that are not in the input any more. -/
def takenLines (bytes : List UInt8) (s : EventStream) : List (List UInt8) :=
  (completeLines [] bytes).take ((completeLines [] bytes).length - (completeLines [] s.input).length)

/-- The complete lines with their ends; the bytes of `line` are already read. -/
def rawLines (line : List UInt8) : List UInt8 → List (List UInt8)
  | [] => []
  | b :: bs => if b = 10 then (line ++ [10]) :: rawLines [] bs else rawLines (line ++ [b]) bs

def lineText (raw : List UInt8) : List UInt8 := EventStream.dropCr raw.dropLast

/-- No line is longer than the input may be or is not UTF-8, and no empty line dispatches a `punch`
event that cannot be read. -/
structure LinesRead (lib : EventLibrary) (raws : List (List UInt8)) : Prop where
  limit : ∀ raw ∈ raws, raw.length ≤ maxEventBufferSize
  read : ∀ before raw after, raws = before ++ raw :: after → ∃ text, fromUtf8 (lineText raw) = some text ∧
    (text = [] → (openEvent (before.map lineText)).1 = "punch".toList →
      ∃ event, lib.fromStr (joinData (openEvent (before.map lineText)).2) = .ok event)

theorem LinesRead.nil : LinesRead lib [] := ⟨by simp, by simp⟩

theorem linesRead_concat {raws : List (List UInt8)} {raw : List UInt8} : LinesRead lib (raws ++ [raw]) ↔
    LinesRead lib raws ∧ raw.length ≤ maxEventBufferSize ∧ ∃ text, fromUtf8 (lineText raw) = some text ∧
      (text = [] → (openEvent (raws.map lineText)).1 = "punch".toList →
        ∃ event, lib.fromStr (joinData (openEvent (raws.map lineText)).2) = .ok event) := by
  constructor
  · intro h
    refine ⟨⟨fun r hr => h.limit r (mem_append_left _ hr), fun before r after heq => ?_⟩,
      h.limit raw (by simp), h.read raws raw [] rfl⟩
    exact h.read before r (after ++ [raw]) (by rw [heq]; simp)
  · rintro ⟨h, hl, hr⟩
    refine ⟨by simpa [or_imp, forall_and] using ⟨h.limit, hl⟩, fun before r after heq => ?_⟩
    rcases eq_nil_or_concat after with rfl | ⟨after, last, rfl⟩
    · obtain ⟨rfl, he⟩ := append_inj' heq rfl
      cases he
      exact hr
    · rw [concat_eq_append, ← cons_append, ← append_assoc] at heq
      exact h.read before r after (append_inj' heq rfl).1

/-! ## Runs -/

/-- The lines are those that were taken from the stream, and their open event is the one of the state. -/
structure Taken (lib : EventLibrary) (raws : List (List UInt8)) (bytes : List UInt8) (s : EventStream) : Prop where
  limit : s.input.length ≤ maxEventBufferSize
  split : ∀ future, rawLines [] (bytes ++ future) = raws ++ rawLines [] (s.input ++ future)
  read : LinesRead lib raws
  name : s.eventName = (openEvent (raws.map lineText)).1
  data : s.data = joinData (openEvent (raws.map lineText)).2

theorem rawLines_append {a : List UInt8} (ha : 10 ∉ a) (line rest : List UInt8) :
    rawLines line (a ++ 10 :: rest) = (line ++ a ++ [10]) :: rawLines [] rest := by
  induction a generalizing line with
  | nil => simp [rawLines]
  | cons b a ih =>
    simp only [mem_cons, not_or] at ha
    rw [cons_append, rawLines, if_neg (Ne.symm ha.1), ih ha.2, append_assoc line, singleton_append]

theorem completeLines_eq_map (line bytes : List UInt8) :
    completeLines line bytes = (rawLines line bytes).map lineText := by
  induction bytes generalizing line with
  | nil => rfl
  | cons b bytes ih =>
    rw [completeLines, rawLines]
    split
    · rw [ih, map_cons, lineText, dropLast_concat]
    · exact ih _

/-- A line is processed without an error, unless it dispatches an event that cannot be read. -/
theorem processLine_ok_iff : (∃ event t, s.processLine lib txt = (.ok event, t)) ↔
    (txt = [] → s.eventName = "punch".toList → ∃ event, lib.fromStr s.data = .ok event) := by
  by_cases hn : txt = []
  · subst hn
    by_cases hp : s.eventName = "punch".toList
    · rcases hf : lib.fromStr s.data with err | event <;> simp [EventStream.processLine, hp, hf]
    · simp only [EventStream.processLine, hp, ↓reduceIte]
      simp
  · have ht : s.processLine lib txt = _ := processLine_text hn (show s.data = joinData [s.data] from rfl)
    simp [ht, hn]

theorem processLine_open (hd : s.data = joinData data) (h : s.processLine lib txt = (.ok event, t)) : t = { s with
    eventName := (openStep (s.eventName, data) txt).1, data := joinData (openStep (s.eventName, data) txt).2 } := by
  by_cases hn : txt = []
  · subst hn
    simp only [EventStream.processLine, ↓reduceIte] at h
    split at h
    · split at h <;> cases h
      rfl
    · cases h
      rfl
  · cases (processLine_text hn hd).symm.trans h
    rfl

theorem openEvent_concat {raws : List (List UInt8)} {raw : List UInt8} (ht : fromUtf8 (lineText raw) = some txt) :
    openEvent ((raws ++ [raw]).map lineText) = openStep (openEvent (raws.map lineText)) txt := by
  simp [openEvent, foldl_append, ht]

/-- One line that is taken from the input. -/
theorem Taken.line {raws : List (List UInt8)} {a rest : List UInt8} (hs : Taken lib raws bs s) (ha : 10 ∉ a)
    (hin : s.input = a ++ 10 :: rest) (ht : fromUtf8 (EventStream.dropCr a) = some txt)
    (hp : EventStream.processLine lib { s with input := rest } txt = (.ok event, t)) :
    Taken lib (raws ++ [a ++ [10]]) bs t := by
  have hlt : lineText (a ++ [10]) = EventStream.dropCr a := by rw [lineText, dropLast_concat]
  rw [← hlt] at ht
  have hl := hs.limit
  rw [hin, length_append, length_cons] at hl
  rw [processLine_open (s := { s with input := rest }) hs.data hp]
  refine ⟨by dsimp only; omega, fun future => ?_, linesRead_concat.mpr ⟨hs.read, ?_, txt, ht, ?_⟩, ?_, ?_⟩
  · rw [hs.split, hin, append_assoc a, cons_append, rawLines_append ha, nil_append, append_assoc raws]
    rfl
  · rw [length_append, length_singleton]
    omega
  · rw [← hs.name, ← hs.data]
    exact (processLine_ok_iff (s := { s with input := rest })).mp ⟨event, t, hp⟩
  · rw [openEvent_concat ht, hs.name]
  · rw [openEvent_concat ht, hs.name]

theorem drainLines_taken {raws : List (List UInt8)} (hs : Taken lib raws bs s)
    (h : s.drainLines lib rounds = (.ok event, t)) : ∃ raws', Taken lib raws' bs t := by
  induction rounds generalizing s raws with
  | zero =>
    cases h
    exact ⟨raws, hs⟩
  | succ rounds ih =>
    rw [EventStream.drainLines] at h
    obtain ⟨hl, -⟩ | ⟨a, rest, ha, hin, hl⟩ := takeLine_split s.input
    · rw [hl] at h
      cases h
      exact ⟨raws, hs⟩
    simp only [hl] at h
    rcases ht : fromUtf8 (EventStream.dropCr a) with _ | txt
    · rw [ht] at h
      cases h
    simp only [ht] at h
    split at h
    · next u hp => exact ih (hs.line ha hin ht hp) h
    · exact ⟨_, hs.line ha hin ht h⟩

theorem StreamReaches.taken (h : StreamReaches lib bs s) : ∃ raws, Taken lib raws bs s := by
  induction h with
  | new => exact ⟨[], Nat.zero_le _, fun _ => rfl, .nil, rfl, rfl⟩
  | lines _ hl ih =>
    obtain ⟨raws, hs⟩ := ih
    exact drainLines_taken hs hl
  | @item bs s t chunk _ _ hr ih =>
    obtain ⟨raws, hs⟩ := ih
    rcases chunk with _ | chunk
    · cases hr
      refine ⟨raws, hs.limit, fun future => ?_, hs.read, hs.name, hs.data⟩
      rw [Option.getD_none, append_nil, hs.split]
    · simp only [Option.map_some, EventStream.receive] at hr
      split at hr <;> cases hr
      next hle =>
      refine ⟨raws, ?_, fun future => ?_, hs.read, hs.name, hs.data⟩
      · rw [length_append]
        omega
      · rw [Option.getD_some, append_assoc, hs.split, append_assoc]

theorem Taken.lines_eq {raws : List (List UInt8)} (h : Taken lib raws bs s) : takenLines bs s = raws.map lineText := by
  have hl := h.split []
  rw [append_nil, append_nil] at hl
  rw [takenLines, completeLines_eq_map, completeLines_eq_map, hl, map_append, length_append, Nat.add_sub_cancel,
    take_left]

/-! ## A chunk for each line -/

theorem rawLines_flatten {line : List UInt8} (hl : 10 ∉ line) (bytes : List UInt8) :
    (rawLines line bytes).flatten <+: line ++ bytes ∧ ∀ raw ∈ rawLines line bytes, ∃ a, 10 ∉ a ∧ raw = a ++ [10] := by
  induction bytes generalizing line with
  | nil => simp [rawLines]
  | cons b bytes ih =>
    rw [rawLines]
    split
    · next hb =>
      obtain ⟨hf, hr⟩ := @ih [] not_mem_nil
      refine ⟨?_, forall_mem_cons.mpr ⟨⟨line, hl, rfl⟩, hr⟩⟩
      rw [flatten_cons, hb, append_assoc]
      exact (prefix_append_right_inj line).mpr ((prefix_append_right_inj [10]).mpr hf)
    · next hb =>
      have hs := @ih (line ++ [b]) (by simpa [eq_comm] using ⟨hl, hb⟩)
      rwa [append_assoc, singleton_append] at hs

/-- Lines that can be read are read, if each is a chunk. -/
theorem reaches_lines {raws : List (List UInt8)} (hr : LinesRead lib raws)
    (hl : ∀ raw ∈ raws, ∃ a, 10 ∉ a ∧ raw = a ++ [10]) : StreamReaches lib raws.flatten
      ⟨[], (openEvent (raws.map lineText)).1, joinData (openEvent (raws.map lineText)).2, false⟩ := by
  induction raws using reverseRecOn with
  | nil => exact .new
  | append_singleton raws raw ih =>
    obtain ⟨a, ha, rfl⟩ := hl raw (by simp)
    obtain ⟨hrs, hle, txt, ht, hp⟩ := linesRead_concat.mp hr
    have hs := ih hrs fun raw hm => hl raw (mem_append_left _ hm)
    rw [openEvent_concat ht]
    generalize openEvent (raws.map lineText) = held at hs hp ⊢
    rw [lineText, dropLast_concat] at ht
    have hw : EventStream.poll lib ⟨[], held.1, joinData held.2, false⟩ =
        (none, ⟨[], held.1, joinData held.2, false⟩) := poll_of_not_mem not_mem_nil
    have hrc : EventStream.receive ⟨[], held.1, joinData held.2, false⟩ ((some (a ++ [10])).map .ok) =
        .ok ⟨a ++ [10], held.1, joinData held.2, false⟩ := by
      rw [Option.map_some, EventStream.receive, if_neg (by rw [length_nil]; omega)]
      rfl
    obtain ⟨event, t, hp⟩ :=
      (processLine_ok_iff (s := ⟨[], held.1, joinData held.2, false⟩)).mpr hp
    have hd : EventStream.drainLines lib 1 ⟨a ++ [10], held.1, joinData held.2, false⟩ = (.ok event, t) := by
      simp only [EventStream.drainLines, takeLine_append ha [], ht, hp]
      cases event <;> rfl
    have hst := (hs.item hw hrc).lines hd
    rw [processLine_open rfl hp] at hst
    rwa [flatten_append, flatten_singleton]

/-- Next to an input within the limit stands the open event, so that there is a bound for the streams
of a server exactly if there is one for the events that are open after some of their lines. -/
theorem event_memory (lib : EventLibrary) (streams : Set (List UInt8)) :
    (∀ bytes s, StreamReaches lib bytes s → s.input.length ≤ maxEventBufferSize ∧
      bufferedBytes s = s.input.length + openBytes (takenLines bytes s)) ∧
    ((∃ c, ∀ stream ∈ streams, ∀ bytes s, bytes <+: stream → StreamReaches lib bytes s →
        bufferedBytes s ≤ maxEventBufferSize + c) ↔
      ∃ c, ∀ stream ∈ streams, ∀ raws, raws <+: rawLines [] stream → LinesRead lib raws →
        openBytes (raws.map lineText) ≤ c) := by
  have hsize : ∀ bytes s, StreamReaches lib bytes s → s.input.length ≤ maxEventBufferSize ∧
      bufferedBytes s = s.input.length + openBytes (takenLines bytes s) := by
    intro bytes s h
    obtain ⟨raws, ht⟩ := h.taken
    refine ⟨ht.limit, ?_⟩
    rw [ht.lines_eq, bufferedBytes, openBytes, ht.name, ht.data]
  refine ⟨hsize, ?_, ?_⟩
  · rintro ⟨c, h⟩
    refine ⟨maxEventBufferSize + c, fun stream hs raws hp hr => ?_⟩
    obtain ⟨hf, hl⟩ := rawLines_flatten not_mem_nil stream
    have hpf : raws.flatten <+: stream := by
      obtain ⟨more, heq⟩ := hp
      exact .trans ⟨more.flatten, by rw [← flatten_append, heq]⟩ hf
    have hb := h stream hs raws.flatten _ hpf (reaches_lines hr fun raw hm => hl raw (hp.mem hm))
    simpa [bufferedBytes, openBytes] using hb
  · rintro ⟨c, h⟩
    refine ⟨c, ?_⟩
    rintro stream hs bytes s ⟨rest, rfl⟩ hr
    obtain ⟨raws, ht⟩ := hr.taken
    obtain ⟨hl, hb⟩ := hsize bytes s hr
    have hc := h _ hs raws ⟨_, (ht.split rest).symm⟩ ht.read
    rw [hb, ht.lines_eq]
    omega

/-- A server that sends `data:x` again and again. -/
theorem reaches_data (lib : EventLibrary) (n : Nat) :
    ∃ bytes data, StreamReaches lib bytes ⟨[], [], data, false⟩ ∧ n ≤ (utf8 data).length := by
  induction n with
  | zero => exact ⟨[], [], .new, Nat.zero_le _⟩
  | succ n ih =>
    obtain ⟨bytes, data, hs, hl⟩ := ih
    have hw : EventStream.poll lib ⟨[], [], data, false⟩ = (none, ⟨[], [], data, false⟩) :=
      poll_of_not_mem not_mem_nil
    have hr : EventStream.receive ⟨[], [], data, false⟩ ((some (utf8 "data:x\n".toList)).map .ok) =
        .ok ⟨utf8 "data:x\n".toList, [], data, false⟩ := rfl
    have hd : EventStream.drainLines lib 1 ⟨utf8 "data:x\n".toList, [], data, false⟩ =
        (.ok none, ⟨[], [], (if data = [] then data else data ++ ['\n']) ++ ['x'], false⟩) := rfl
    refine ⟨_, _, (hs.item hw hr).lines hd, ?_⟩
    rw [utf8_append, length_append]
    split
    · exact Nat.add_le_add_right hl 1
    · rw [utf8_append, length_append]
      exact Nat.add_le_add_right (Nat.le_add_right_of_le hl) 1

theorem event_memory_unbounded : ¬ ∃ c, ∀ bytes s, StreamReaches unclosedObject bytes s →
    bufferedBytes s ≤ maxEventBufferSize + c := by
  rintro ⟨c, h⟩
  obtain ⟨bytes, data, hs, hl⟩ := reaches_data unclosedObject (maxEventBufferSize + c + 1)
  have hc := h bytes _ hs
  simp only [bufferedBytes] at hc
  omega

end Hysteria.Proof
