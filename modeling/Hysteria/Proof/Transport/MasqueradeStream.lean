import Hysteria.Spec.Masquerade

/-!
# Streaming through the masquerade handler

`Follows`: the handler in an exchange does what it does when its whole input is
there, step by step (`Follows.perform`); and it can do there what it can do with
its whole input, as far as it need not wait (`Follows.enabled`).
-/

namespace Hysteria.Proof

open Framework Impl Spec Relation List

variable {η : Type} {hdl : Handler η} {now : Str} {req : HttpRequest}
variable {head : ResponseHead} {suppressBody : Bool} {item : Except Str Chunk} {sent : HttpResponse} {m : MainState}

/-! ## The response -/

theorem sendBodyStream_append (cs : List Chunk) (rest : List (Except Str Chunk)) :
    sendBodyStream (cs.map .ok ++ rest) = (cs ++ (sendBodyStream rest).1, (sendBodyStream rest).2) := by
  induction cs with
  | nil => rfl
  | cons chunk cs ih => simp [sendBodyStream, ih]

theorem send_data (head : ResponseHead) (now : Str) (suppressBody : Bool) : (head.send now suppressBody).data =
      if bodyAllowed head.status suppressBody && head.body ≠ [] then [head.body] else [] := by
  cases hs : head.streams <;>
    simp [ResponseHead.send, sendMasqueradeResponse, ResponseHead.response, sendBodyStream, hs]

/-- A response whose stream is sent: its head first, then the items. -/
theorem sendMasqueradeResponse_streams (now : Str) (items : List (Except Str Chunk))
    (ha : bodyAllowed head.status suppressBody = true) (hs : head.streams = true) :
    sendMasqueradeResponse now (head.response items) suppressBody =
      ({ head.send now suppressBody with
          data := (head.send now suppressBody).data ++ (sendBodyStream items).1
          finished := (sendBodyStream items).2.isOk }, (sendBodyStream items).2) := by
  simp [ResponseHead.send, sendMasqueradeResponse, ResponseHead.response, sendBodyStream, ha, hs]

theorem sendMasqueradeResponse_whole (now : Str)
    (items : List (Except Str Chunk)) (h : (bodyAllowed head.status suppressBody && head.streams) = false) :
    sendMasqueradeResponse now (head.response items) suppressBody =
      ({ head.send now suppressBody with finished := true }, .ok ()) := by
  cases ha : bodyAllowed head.status suppressBody <;> cases hs : head.streams <;>
    simp_all [ResponseHead.send, sendMasqueradeResponse, ResponseHead.response, sendBodyStream, Except.isOk,
      Except.toBool]

/-- The function has returned, with what `send_masquerade_response` makes of the handler's response, which is
complete. -/
def Responded (now : Str) (request : HttpRequest) (s : Exchange η) (i : Supplied η) : Prop :=
  ∃ head sent result, s.main = .returned head sent result ∧ i.head = some head ∧
    sendMasqueradeResponse now (head.response i.written) (request.method = .head) = (sent, result) ∧
    (bodyAllowed head.status (request.method = .head) = true → head.streams = true → i.Settled) ∧
    s.written = i.written ∧ s.finished = i.finished

/-- It has also offered every chunk; and the response is one that the handler gives when its whole input is there. -/
def Answered (handler : Handler η) (now : Str) (request : HttpRequest) (s : Exchange η) : Prop :=
  s.offered = request.body ∧
    ∃ i, ReflTransGen (SuppliedStep handler) (.init handler request) i ∧ Responded now request s i

theorem Answered.complete {s : Exchange η} (h : Answered hdl now req s) : Complete req s := by
  obtain ⟨ho, i, -, head, sent, res, hm, -, hs, hwh, hwr, hf⟩ := h
  refine ⟨head, sent, res, hm, ho, ?_⟩
  rw [hwr, hf]
  have hd := send_data head now (req.method = .head)
  split
  · rename_i ha
    refine ⟨?_, hwh ha⟩
    unfold output
    cases hst : head.streams with
    | true =>
      rw [sendMasqueradeResponse_streams now i.written ha hst] at hs
      grind
    | false =>
      rw [sendMasqueradeResponse_whole now i.written (by rw [hst, Bool.and_false])] at hs
      grind
  · rename_i ha
    rw [Bool.not_eq_true] at ha
    rw [sendMasqueradeResponse_whole now i.written (by rw [ha, Bool.false_and])] at hs
    cases hs
    rw [hd, ha]
    rfl

/-! ## Actions -/

variable {s t : Exchange η} {i j : Supplied η} {act : HandlerAction} {cap : Nat}

theorem sender_perform (h : s.perform cap act = some t) : t.sender = s.sender := by
  unfold Exchange.perform at h
  grind

theorem main_perform (h : s.perform cap act = some t) (ha : ∀ head, act ≠ .answer head) : t.main = s.main := by
  unfold Exchange.perform at h
  grind

theorem body_perform (h : s.perform cap act = some t) (hb : s.body.tail = [])
    (hr : s.body = [] ∨ ∃ chunk, act = .read (some chunk)) : t.body = [] := by
  rcases hr with he | ⟨chunk, rfl⟩
  · unfold Exchange.perform at h
    grind
  · obtain ⟨-, ⟨⟩⟩ := Option.ite_none_right_eq_some.mp h
    exact hb

theorem perform_chunk {chunk : Chunk} (h : i.perform cap (.read (some chunk)) = some j) :
    ∃ later, i.dropped = false ∧ i.rest = chunk :: later ∧ j = { i with rest := later } := by
  obtain ⟨⟨hd, hch⟩, ⟨⟩⟩ := Option.ite_none_right_eq_some.mp h
  obtain ⟨later, hr⟩ := head?_eq_some_iff.mp hch
  exact ⟨later, hd, hr, by rw [hr]; rfl⟩

theorem perform_end (h : i.perform cap (.read none) = some j) :
    i.dropped = false ∧ i.rest = [] ∧ j = { i with ended := true } := by
  obtain ⟨⟨hd, hr⟩, ⟨⟩⟩ := Option.ite_none_right_eq_some.mp h
  exact ⟨hd, hr, rfl⟩

theorem perform_answer (h : i.perform cap (.answer head) = some j) :
    i.head = none ∧ j = { i with head := some head } := by
  obtain ⟨hh, ⟨⟩⟩ := Option.ite_none_right_eq_some.mp h
  simp_all

theorem perform_write (h : i.perform cap (.write item) = some j) :
    (i.head = none → i.written.length < cap) ∧ j = { i with written := i.written ++ [item] } := by
  obtain ⟨hr, ⟨⟩⟩ := Option.ite_none_right_eq_some.mp h
  grind

theorem written_perform (h : i.perform cap act = some j) : i.written <+: j.written := by
  unfold Supplied.perform at h
  grind

theorem rest_perform (h : i.perform cap act = some j) (hr : i.rest = []) : j.rest = [] := by
  unfold Supplied.perform at h
  grind

theorem read_or_rest (h : i.perform cap act = some j) :
    (∃ item, act = .read item) ∨ (∀ item, act ≠ .read item) ∧ j.rest = i.rest := by
  unfold Supplied.perform at h
  grind

theorem ended_perform (h : i.perform cap act = some j) (he : i.ended = true) : j.ended = true := by
  unfold Supplied.perform at h
  grind

theorem answered_perform (h : i.perform cap act = some j) (hh : i.head = some head) : j.head = some head := by
  unfold Supplied.perform at h
  grind

theorem unanswered_perform (h : i.perform cap act = some j) (hh : j.head = none) : i.head = none := by
  rcases Option.eq_none_or_eq_some i.head with hn | ⟨head, hs⟩
  · exact hn
  · cases hh.symm.trans (answered_perform h hs)

theorem head_perform (h : i.perform cap act = some j)
    (ha : j.head = some head) : i.head = some head ∨ i.head = none ∧ act = .answer head ∧
      j = { i with head := some head } := by
  unfold Supplied.perform at h
  split at h <;> (try split at h) <;> cases h <;> first | exact .inl ha | skip
  simp_all

/-! ## Following the handler -/

/-- The chunks that `receive` has not offered yet. -/
def pending : Receive → List Chunk
  | .receiving rest => rest
  | .sending chunk rest => chunk :: rest

/-- Where the function is, for a handler with this answer; the chunks `rest` were not offered. -/
inductive MainFollows (now : Str) (request : HttpRequest) (answer : Option ResponseHead) (rest : List Chunk)
    (s : Exchange η) : MainState → Prop
  | selecting {receive : Receive} (hanswer : answer = none) (hsender : s.sender = true)
    (hrest : rest = pending receive) (hresponse : s.response = s.written) :
    MainFollows now request answer rest s (.selecting receive)
  | awaiting (hanswer : answer = none) (hsender : s.sender = false) (hresponse : s.response = s.written) :
    MainFollows now request answer rest s .awaiting
  | responding {head : ResponseHead} (hanswer : answer = some head) (hresponse : s.response = s.written) :
    MainFollows now request answer rest s (.responding head)
  | streaming {head : ResponseHead} {sent : HttpResponse} (chunks : List Chunk) (hanswer : answer = some head)
    (hallowed : bodyAllowed head.status (request.method = .head) = true) (hstreams : head.streams = true)
    (hwritten : s.written = chunks.map .ok ++ s.response)
    (hsent : sent = { head.send now (request.method = .head) with
      data := (head.send now (request.method = .head)).data ++ chunks }) :
    MainFollows now request answer rest s (.streaming head sent)

/-- The handler in the exchange has done what it did in `i`. While `body_sender` is alive it has not read the end;
after that, all chunks were offered unless it had dropped the body. -/
structure Follows (handler : Handler η) (now : Str) (request : HttpRequest) (s : Exchange η) (i : Supplied η)
    (rest : List Chunk) : Prop where
  run : ReflTransGen (SuppliedStep handler) (.init handler request) i
  state : s.handler = i.handler
  finished : s.finished = i.finished
  dropped : s.dropped = i.dropped
  written : s.written = i.written
  offered : s.offered ++ rest = request.body
  unread : rest.length ≤ i.rest.length
  body : s.dropped = false → s.body ++ rest = i.rest
  ended : s.sender = true → i.ended = false
  all : s.sender = false → s.dropped = false → rest = []
  main : MainFollows now request i.head rest s s.main

theorem follows_init (hdl : Handler η) (now : Str) (req : HttpRequest) :
    Follows hdl now req (.init hdl req) (.init hdl req) req.body where
  run := .refl
  state := rfl
  finished := rfl
  dropped := rfl
  written := rfl
  offered := rfl
  unread := Nat.le_refl _
  body _ := rfl
  ended _ := rfl
  all h := by cases h
  main := .selecting rfl rfl rfl rfl

variable {rest : List Chunk} {ans : Option ResponseHead} {next : η}

theorem MainFollows.not_returned {res : Except TransportError Unit} :
    ¬MainFollows now req ans rest s (.returned head sent res) := by
  intro h
  cases h

theorem MainFollows.keep (h : MainFollows now req ans rest s m)
    (hs : t.sender = s.sender) (items : List (Except Str Chunk)) (hr : t.response = s.response ++ items)
    (hwr : t.written = s.written ++ items) : MainFollows now req ans rest t m := by
  cases h with
  | selecting ha hsnd' hrs hresp' =>
    exact .selecting ha (hs.trans hsnd') hrs (by rw [hr, hwr, hresp'])
  | awaiting ha hsnd' hresp' =>
    exact .awaiting ha (hs.trans hsnd') (by rw [hr, hwr, hresp'])
  | responding ha hresp' =>
    exact .responding ha (by rw [hr, hwr, hresp'])
  | streaming cs ha hal hst hwr' hsn =>
    refine .streaming cs ha hal hst ?_ hsn
    rw [hr, hwr, hwr', append_assoc]

theorem MainFollows.same (h : MainFollows now req ans rest s m) (hs : t.sender = s.sender)
    (hr : t.response = s.response) (hwr : t.written = s.written) : MainFollows now req ans rest t m :=
  h.keep hs [] (by rw [hr, append_nil]) (by rw [hwr, append_nil])

/-- Before the answer, what was written is still in the channel. -/
theorem MainFollows.of_unanswered (h : MainFollows now req ans rest s m)
    (ha : ans = none) : s.response = s.written ∧ ((∃ receive, m = .selecting receive) ∨ m = .awaiting) := by
  cases h with
  | selecting _ _ _ hr => exact ⟨hr, .inl ⟨_, rfl⟩⟩
  | awaiting _ _ hr => exact ⟨hr, .inr rfl⟩
  | responding hs => cases ha.symm.trans hs
  | streaming _ hs => cases ha.symm.trans hs

theorem MainFollows.of_answer (h : MainFollows now req ans rest s s.main) {cap : Nat}
    (hp : s.perform cap (.answer head) = some t) :
    ans = none ∧ t = { s with main := .responding head } ∧ s.response = s.written := by
  simp only [Exchange.perform] at hp
  generalize s.main = m at h hp
  cases h with
  | selecting ha _ _ hr =>
    cases hp
    exact ⟨ha, rfl, hr⟩
  | awaiting ha _ hr =>
    cases hp
    exact ⟨ha, rfl, hr⟩
  | responding => cases hp
  | streaming => cases hp

theorem MainFollows.of_write (h : MainFollows now req ans rest s s.main) {cap : Nat}
    (hp : s.perform cap (.write item) = some t) :
    s.response.length < cap ∧
      t = { s with response := s.response ++ [item], written := s.written ++ [item] } := by
  simp only [Exchange.perform] at hp
  split at hp
  · rename_i hm
    rw [hm] at h
    exact absurd h MainFollows.not_returned
  grind

/-- Every step of the handler in the exchange is one that it takes with its whole input. -/
theorem Follows.perform (h : Follows hdl now req s i rest) (hrn : s.finished = false)
    (hst : hdl.step s.handler act next) (hp : s.perform hdl.capacity act = some t) :
    ∃ j, i.perform hdl.capacity act = some j ∧
      Follows hdl now req { t with handler := next } { j with handler := next } rest := by
  have hr : ∀ {j}, i.perform hdl.capacity act = some j →
      ReflTransGen (SuppliedStep hdl) (.init hdl req) { j with handler := next } := by
    intro j hj
    exact h.run.tail (.mk (h.finished ▸ hrn) (h.state ▸ hst) hj)
  cases act with
  | internal =>
    cases hp
    exact ⟨i, rfl, hr rfl, rfl, h.finished, h.dropped, h.written, h.offered, h.unread, h.body, h.ended, h.all,
      h.main.same rfl rfl rfl⟩
  | read item =>
    cases item with
    | some chunk =>
      obtain ⟨⟨hd, hch⟩, ⟨⟩⟩ := Option.ite_none_right_eq_some.mp hp
      obtain ⟨body, hb⟩ : ∃ body, s.body = chunk :: body := head?_eq_some_iff.mp hch
      have hrs : i.rest = chunk :: (body ++ rest) := by
        rw [← h.body hd, hb]
        rfl
      have hj : i.perform hdl.capacity (.read (some chunk)) = some { i with rest := body ++ rest } := by
        simp [Supplied.perform, ← h.dropped, hd, hrs]
      refine ⟨_, hj, hr hj, rfl, h.finished, h.dropped, h.written, h.offered, ?_, ?_, h.ended, h.all,
        h.main.same rfl rfl rfl⟩
      · simp
      grind
    | none =>
      obtain ⟨⟨hd, hb, hs⟩, ⟨⟩⟩ := Option.ite_none_right_eq_some.mp hp
      have hrs : i.rest = [] := by
        rw [← h.body hd, hb, h.all hs hd]
        rfl
      have hj : i.perform hdl.capacity (.read none) = some { i with ended := true } := by
        simp [Supplied.perform, ← h.dropped, hd, hrs]
      refine ⟨_, hj, hr hj, rfl, h.finished, h.dropped, h.written, h.offered, h.unread, h.body, ?_, h.all,
        h.main.same rfl rfl rfl⟩
      intro ho
      cases hs.symm.trans ho
  | drop =>
    obtain ⟨hd, ⟨⟩⟩ := Option.ite_none_left_eq_some.mp hp
    have hj : i.perform hdl.capacity .drop = some { i with dropped := true } := if_neg (h.dropped ▸ hd)
    refine ⟨_, hj, hr hj, rfl, h.finished, rfl, h.written, h.offered, h.unread, ?_, h.ended, ?_,
      h.main.same rfl rfl rfl⟩
    · intro ho
      cases ho
    · intro _ ho
      cases ho
  | answer head =>
    obtain ⟨han, rfl, hrp⟩ := h.main.of_answer hp
    have hj : i.perform hdl.capacity (.answer head) = some { i with head := some head } := by
      simp [Supplied.perform, han]
    exact ⟨_, hj, hr hj, rfl, h.finished, h.dropped, h.written, h.offered, h.unread, h.body, h.ended, h.all,
      .responding rfl hrp⟩
  | write item =>
    obtain ⟨hrm, rfl⟩ := h.main.of_write hp
    have ha : (i.head.isSome || decide (i.written.length < hdl.capacity)) = true := by
      rcases Option.eq_none_or_eq_some i.head with hn | ⟨head, hsm⟩
      · rw [← h.written, ← (h.main.of_unanswered hn).1, decide_eq_true hrm, Bool.or_true]
      · rw [hsm]
        rfl
    exact ⟨_, if_pos ha, hr (if_pos ha), rfl, h.finished, h.dropped, congrArg (· ++ [item]) h.written,
      h.offered, h.unread, h.body, h.ended, h.all, h.main.keep rfl [item] rfl rfl⟩
  | finish =>
    cases hp
    refine ⟨_, rfl, hr rfl, rfl, rfl, rfl, h.written, h.offered, h.unread, ?_, h.ended, ?_, h.main.same rfl rfl rfl⟩
    · intro ho
      cases ho
    · intro _ ho
      cases ho

/-- What the handler can do with its whole input it can do in the exchange, when it need not wait there. -/
theorem Follows.enabled (h : Follows hdl now req s i rest) (hp : i.perform hdl.capacity act = some j)
    (hch : ∀ chunk, act = .read (some chunk) → s.dropped = false → s.body ≠ [])
    (he : act = .read none → s.body = [] ∧ s.sender = false)
    (hrm : ∀ item, act = .write item → i.head.isSome → s.response.length < hdl.capacity) :
    ∃ t, s.perform hdl.capacity act = some t := by
  cases act with
  | internal => exact ⟨s, rfl⟩
  | read item =>
    cases item with
    | some chunk =>
      obtain ⟨later, hd, hr, -⟩ := perform_chunk hp
      rw [← h.dropped] at hd
      refine ⟨_, if_pos ⟨hd, ?_⟩⟩
      rw [← h.body hd] at hr
      rcases hb : s.body with _ | ⟨c, body⟩
      · exact absurd hb (hch chunk rfl hd)
      grind
    | none =>
      exact ⟨s, if_pos ⟨h.dropped.trans (perform_end hp).1, he rfl⟩⟩
  | drop =>
    exact ⟨_, if_neg (h.dropped ▸ (Option.ite_none_left_eq_some.mp hp).1)⟩
  | answer head =>
    rcases (h.main.of_unanswered (perform_answer hp).1).2 with ⟨receive, hm⟩ | hm <;>
      simp [Exchange.perform, hm]
  | write item =>
    have hl : s.response.length < hdl.capacity := by
      rcases Option.eq_none_or_eq_some i.head with hn | ⟨head, hs⟩
      · rw [(h.main.of_unanswered hn).1, h.written]
        exact (perform_write hp).1 hn
      · exact hrm item rfl (by rw [hs]; rfl)
    simp only [Exchange.perform]
    split
    · exact ⟨s, rfl⟩
    · exact ⟨_, if_pos hl⟩
  | finish => exact ⟨_, rfl⟩

/-- One step of `receive`; the handler stays where it is. -/
theorem Follows.receive (h : Follows hdl now req s i rest) (hr : s.receive = some t) :
    ∃ rest, Follows hdl now req t i rest ∧ i.head = none := by
  have hm := h.main
  unfold Exchange.receive at hr
  split at hr
  · rename_i chunk later heq
    cases hr
    rw [heq] at hm
    cases hm with
    | selecting ha hs hrt hrs =>
      exact ⟨rest, { h with main := .selecting ha hs hrt hrs }, ha⟩
  · rename_i heq
    cases hr
    rw [heq] at hm
    cases hm with
    | selecting ha hs hrt hrs =>
      refine ⟨rest, { h with ended := ?_, all := ?_, main := .awaiting ha rfl hrs }, ha⟩
      · intro ho
        cases ho
      · intro _ _
        exact hrt
  · rename_i chunk later heq
    rw [heq] at hm
    cases hm with
    | selecting ha hs hrt hrs =>
      split at hr
      · rename_i hd
        cases hr
        refine ⟨rest, { h with ended := ?_, all := ?_, main := .awaiting ha rfl hrs }, ha⟩
        · intro ho
          cases ho
        grind
      · simp only [Option.ite_none_right_eq_some] at hr
        obtain ⟨-, ⟨⟩⟩ := hr
        have hof := h.offered
        have hu := h.unread
        have hb := h.body
        rw [hrt] at hof hu hb
        refine ⟨later, { h with
          offered := ?_, unread := Nat.le_of_succ_le hu, body := ?_, all := ?_
          main := .selecting ha hs rfl hrs }, ha⟩
        · rw [append_assoc]
          exact hof
        · intro ho
          rw [append_assoc]
          exact hb ho
        grind
  · cases hr

/-- Everything was offered once the handler has read everything. -/
theorem Follows.offered_eq (h : Follows hdl now req s i rest) (hr : i.rest = []) : s.offered = req.body := by
  have hu := h.unread
  rw [hr] at hu
  rw [← h.offered, eq_nil_of_length_eq_zero (Nat.le_zero.mp hu), append_nil]

/-- The stream of the response, at an item or at its end. -/
theorem MainFollows.stream (h : MainFollows now req ans rest s s.main) (hm : s.main = .streaming head sent) :
    ∃ cs, s.written = cs.map .ok ++ s.response ∧ ans = some head ∧
      bodyAllowed head.status (req.method = .head) = true ∧ head.streams = true ∧
      sent = { head.send now (req.method = .head) with
        data := (head.send now (req.method = .head)).data ++ cs } := by
  rw [hm] at h
  cases h with
  | streaming cs ha hal hst hwr hs =>
    exact ⟨cs, hwr, ha, hal, hst, hs⟩

/-- One step of `send_masquerade_response`; the handler stays where it is. -/
theorem Follows.respond (h : Follows hdl now req s i rest) (hr : s.respond now (req.method = .head) = some t) :
    Responded now req t i ∧ t.offered = s.offered ∨ Follows hdl now req t i rest := by
  have hm := h.main
  unfold Exchange.respond at hr
  split at hr
  · rename_i head heq
    rw [heq] at hm
    cases hm with
    | responding ha hrs =>
      split at hr
      · rename_i hs
        cases hr
        obtain ⟨hal, hs⟩ := Bool.and_eq_true_iff.mp hs
        refine .inr { h with main := .streaming [] ha hal hs hrs.symm ?_ }
        rw [append_nil]
      · rename_i hwh
        cases hr
        rw [Bool.not_eq_true] at hwh
        refine .inl ⟨⟨head, _, _, rfl, ha, sendMasqueradeResponse_whole now i.written hwh, ?_, h.written,
          h.finished⟩, rfl⟩
        grind
  · rename_i head sent heq
    obtain ⟨cs, hwr, ha, hal, hs, hsn⟩ := h.main.stream heq
    have hrs := sendMasqueradeResponse_streams now i.written hal hs
    have hitems : i.written = cs.map .ok ++ s.response := h.written.symm.trans hwr
    rw [hitems, sendBodyStream_append] at hrs
    split at hr
    · rename_i chunk later hc
      cases hr
      refine .inr { h with main := .streaming (cs ++ [chunk]) ha hal hs ?_ ?_ }
      · grind
      · rw [hsn]
        simp only [append_assoc]
    · rename_i err later hc
      cases hr
      rw [hc] at hrs hitems
      refine .inl ⟨⟨head, _, _, rfl, ha, ?_, ?_, h.written, h.finished⟩, rfl⟩
      · rw [hitems, hrs, hsn]
        simp [sendBodyStream, ResponseHead.send, Except.isOk, Except.toBool]
      intro _ _
      refine .inr ⟨err, ?_⟩
      grind
    · rename_i hc
      simp only [Option.ite_none_right_eq_some] at hr
      obtain ⟨hf, ⟨⟩⟩ := hr
      rw [hc] at hrs hitems
      refine .inl ⟨⟨head, _, _, rfl, ha, ?_, fun _ _ => .inl (h.finished ▸ hf), h.written, h.finished⟩, rfl⟩
      rw [hitems, hrs, hsn]
      simp [sendBodyStream, Except.isOk, Except.toBool]
  · cases hr

/-- What the function holds is dropped only when it returns. -/
theorem Follows.frame_respond (h : Follows hdl now req t i rest)
    (hr : s.respond now suppressBody = some t) : t.sender = s.sender ∧ t.body = s.body := by
  have hm := h.main
  unfold Exchange.respond at hr
  grind [MainFollows.not_returned]

end Hysteria.Proof
