import Hysteria.Proof.Transport.MasqueradeWhole

/-!
# When streaming is complete

The function can offer each chunk just when the handler reads it (`Lockstep`),
and offers nothing any more once the handler has answered (`Relays`). So
exchanges are complete for the handlers that answer after the body, and for no
others: `masquerade_complete`.
-/

namespace Hysteria.Proof

open Framework Impl Spec Relation

variable {η : Type} {handler : Handler η} {now : Str} {req : HttpRequest} {s t : Exchange η} {i j : Supplied η}
  {rest : List Chunk} {action : HandlerAction} {next : η}

/-! ## Chunks on demand -/

def isSelecting : MainState → Bool
  | .selecting _ => true
  | _ => false

/-- Every run from here becomes complete. -/
abbrev Completes (handler : Handler η) (now : Str) (request : HttpRequest) (s : Exchange η) : Prop :=
  Inevitable (ExchangeStep handler now request) (Complete request) s

theorem Follows.not_complete (h : Follows handler now req s i rest) : ¬Complete req s := by
  rintro ⟨head, sent, res, hm, -⟩
  have hf := h.main
  rw [hm] at hf
  exact MainFollows.not_returned hf

/-- The handler has not answered, and no chunk was offered before it was read. -/
structure Lockstep (handler : Handler η) (now : Str) (request : HttpRequest) (s : Exchange η) (i : Supplied η) :
    Prop extends Follows handler now request s i i.rest where
  empty : s.body = []
  unanswered : i.head = none
  idle : s.main = .selecting (.receiving i.rest) ∨ s.main = .awaiting
  closed : s.sender = false → i.ended = true

theorem lockstep_init (handler : Handler η) (now : Str) (req : HttpRequest) :
    Lockstep handler now req (.init handler req) (.init handler req) where
  toFollows := follows_init handler now req
  empty := rfl
  unanswered := rfl
  idle := .inl rfl
  closed h := by cases h

/-- The handler takes its step, once the exchange is ready for it. -/
theorem Lockstep.of_ready (h : Follows handler now req s i j.rest) (hs : Completes handler now req s)
    (hrn : i.finished = false) (hst : handler.step i.handler action next)
    (hp : i.perform handler.capacity action = some j) (hh : i.head = none) (hhead' : j.head = none)
    (hch : ∀ chunk, action = .read (some chunk) → s.dropped = false → s.body ≠ [])
    (he : action = .read none → s.body = [] ∧ s.sender = false) (hb : s.body.tail = [])
    (hr : s.body = [] ∨ ∃ chunk, action = .read (some chunk))
    (hi : s.main = .selecting (.receiving j.rest) ∨ s.main = .awaiting) (hcl : s.sender = false → j.ended = true) :
    ∃ t, Lockstep handler now req t { j with handler := next } ∧ Completes handler now req t := by
  have hrm : ∀ item, action = .write item → i.head.isSome → s.response.length < handler.capacity := by
    grind
  have ha : ∀ head, action ≠ .answer head := by
    rintro head rfl
    obtain ⟨-, rfl⟩ := perform_answer hp
    cases hhead'
  obtain ⟨t, ht, hn, hf⟩ := h.act hrn hst hp hch he hrm
  have hbody' : t.body = [] := body_perform ht hb hr
  refine ⟨_, ⟨hf, hbody', hhead', ?_, ?_⟩, hs.step h.not_complete hn⟩
  · grind [main_perform]
  grind [sender_perform]

theorem Lockstep.offer (h : Lockstep handler now req s i) (hs : Completes handler now req s) {chunk : Chunk}
    {later : List Chunk} (hr : i.rest = chunk :: later) (hd : i.dropped = false) :
    ∃ t, Follows handler now req t i later ∧ Completes handler now req t ∧ t.body = [chunk] ∧
      t.main = .selecting (.receiving later) ∧ t.sender = true := by
  have hdrop' : s.dropped = false := h.dropped.trans hd
  have hm : s.main = .selecting (.receiving (chunk :: later)) ∧ s.sender = true := by
    have hf := h.main
    rcases h.idle with hm | hm
    · rw [hm, hr] at hf
      cases hf with
      | selecting _ hsn => exact ⟨hm.trans (by rw [hr]), hsn⟩
    rw [hm] at hf
    cases hf with
    | awaiting _ hsn => cases hr.symm.trans (h.all hsn hdrop')
  have hrc : s.receive = some { s with main := .selecting (.sending chunk later) } := by
    simp only [Exchange.receive, hm.1]
  obtain ⟨_, hf, -⟩ := h.receive hrc
  have hst : Exchange.receive { s with main := .selecting (.sending chunk later) } = some { s with
      main := .selecting (.receiving later), body := [chunk], offered := s.offered ++ [chunk] } := by
    simp [Exchange.receive, hdrop', h.empty, masqueradeBodyChannelSize]
  have hc := (hs.step h.not_complete (.receive hrc)).step hf.not_complete (.receive hst)
  obtain ⟨rest, ho, -⟩ := hf.receive hst
  have hl : rest = later := by
    cases ho.main with
    | selecting _ _ hl => exact hl
  exact ⟨_, hl ▸ ho, hc, rfl, rfl, hm.2⟩

/-- `receive` comes to the end of the body, if it has not yet. -/
theorem Lockstep.close (h : Lockstep handler now req s i) (hs : Completes handler now req s) (hr : i.rest = []) :
    ∃ t, Follows handler now req t i [] ∧ Completes handler now req t ∧ t.body = [] ∧ t.main = .awaiting ∧
      t.sender = false := by
  have hf := h.main
  rcases h.idle with hm | hm
  · have hrc : s.receive = some { s with main := .awaiting, sender := false } := by
      simp only [Exchange.receive, hm, hr]
    obtain ⟨rest, ht, -⟩ := h.receive hrc
    have hn : rest = [] := by
      have hl := ht.unread
      simp_all
    exact ⟨_, hn ▸ ht, hs.step h.not_complete (.receive hrc), h.empty, rfl, rfl⟩
  · rw [hm] at hf
    cases hf with
    | awaiting _ hsn => exact ⟨s, hr ▸ h.toFollows, hs, h.empty, hm, hsn⟩

/-- Every step of the handler before it answers. -/
theorem Lockstep.step (h : Lockstep handler now req s i) (hs : Completes handler now req s)
    (step : SuppliedStep handler i j) (hh : j.head = none) :
    ∃ t, Lockstep handler now req t j ∧ Completes handler now req t := by
  obtain ⟨hrn, hst, hp⟩ := step
  rcases read_or_rest hp with ⟨item, rfl⟩ | ⟨hrd, hr⟩
  · cases item with
    | some chunk =>
      obtain ⟨later, hd, hr, rfl⟩ := perform_chunk hp
      obtain ⟨t, ht, hc, hb, hm, hsn⟩ := h.offer hs hr hd
      refine Lockstep.of_ready (j := { i with rest := later }) ht hc hrn hst
        hp h.unanswered hh ?_ ?_ ?_ (.inr ⟨chunk, rfl⟩) (.inl hm) ?_
      · grind
      · intro hen
        cases hen
      · rw [hb]
        rfl
      grind
    | none =>
      obtain ⟨-, hr, rfl⟩ := perform_end hp
      obtain ⟨t, ht, hc, hb, hm, hsn⟩ := h.close hs hr
      refine Lockstep.of_ready (j := { i with ended := true }) (hr.symm ▸ ht) hc hrn hst hp
        h.unanswered hh ?_ (fun _ => ⟨hb, hsn⟩) ?_ (.inl hb) (.inr hm) (fun _ => rfl)
      · intro chunk hrd
        cases hrd
      · rw [hb]
        rfl
  · refine Lockstep.of_ready (hr.symm ▸ h.toFollows) hs hrn hst hp h.unanswered hh
      (fun chunk heq => absurd heq (hrd _)) (fun heq => absurd heq (hrd _)) ?_ (.inl h.empty)
      (hr.symm ▸ h.idle) (fun hsn => ended_perform hp (h.closed hsn))
    rw [h.empty]
    rfl

theorem lockstep_run (hs : Completes handler now req (.init handler req))
    (run : ReflTransGen (SuppliedStep handler) (.init handler req) i) (hh : i.head = none) :
    ∃ s, Lockstep handler now req s i ∧ Completes handler now req s := by
  induction run with
  | refl => exact ⟨_, lockstep_init handler now req, hs⟩
  | @tail i j _ step ih =>
    have hu : i.head = none := by
      obtain ⟨-, -, hp⟩ := step
      exact unanswered_perform hp hh
    obtain ⟨s, h, hs⟩ := ih hu
    exact h.step hs step hh

/-! ## After the answer -/

theorem offered_step (hm : isSelecting s.main = false) (step : ExchangeStep handler now req s t) :
    isSelecting t.main = false ∧ t.offered = s.offered := by
  cases step with
  | receive h =>
    unfold Exchange.receive at h
    grind [isSelecting]
  | respond h =>
    unfold Exchange.respond at h
    repeat' split at h
    all_goals cases h
    all_goals exact ⟨rfl, rfl⟩
  | handler hr hs h =>
    rename_i action next
    cases action <;> simp only [Exchange.perform] at h <;> (repeat' split at h) <;> cases h <;>
      first | exact ⟨hm, rfl⟩ | exact ⟨rfl, rfl⟩

theorem offered_of_completes (h : Completes handler now req s) (hm : isSelecting s.main = false) :
    s.offered = req.body := by
  obtain ⟨t, run, _, _, _, -, ho, -⟩ := h.exists_run
  have hk : isSelecting t.main = false ∧ t.offered = s.offered := by
    refine invariant_run (I := fun t => isSelecting t.main = false ∧ t.offered = s.offered) ?_ ⟨hm, rfl⟩ run
    grind [offered_step]
  exact hk.2.symm.trans ho

/-- The response is on its way, and the handler gets no more than the end it has read. -/
structure Relays (handler : Handler η) (now : Str) (request : HttpRequest) (head : ResponseHead) (s : Exchange η)
    (i : Supplied η) : Prop extends Follows handler now request s i i.rest where
  empty : s.body = []
  read : i.rest = []
  answered : i.head = some head
  closed : s.sender = false → i.ended = true

variable {head : ResponseHead}

/-- A step that the handler can take without more of the body. -/
theorem Relays.follow (h : Relays handler now req head s i) (he : s.response = []) (step : CutOffStep handler i j) :
    ∃ t, ExchangeStep handler now req s t ∧ Relays handler now req head t j := by
  obtain ⟨hrn, hrd, hst, hp⟩ := step
  rename_i j action next
  have hen : action = .read none → s.sender = false := by
    grind [h.ended]
  obtain ⟨t, ht, hn, hf⟩ := h.act_answered h.read he hrn hst hp hen
  have hr : j.rest = [] := rest_perform hp h.read
  rw [h.read, ← hr] at hf
  refine ⟨_, hn, hf, ?_, hr, ?_, ?_⟩
  · show t.body = []
    exact body_perform ht (by rw [h.empty]; rfl) (.inl h.empty)
  · show j.head = some head
    exact answered_perform hp h.answered
  intro hs
  show j.ended = true
  exact ended_perform hp (h.closed ((sender_perform ht).symm.trans hs))

/-- While the function waits for the response's body, only the handler goes on. -/
theorem Relays.cutOffStep (h : Relays handler now req head s i) (hrs : s.respond now (req.method = .head) = none)
    (hn : ∃ t, ExchangeStep handler now req s t) : ∃ j, CutOffStep handler i j := by
  obtain ⟨t, step⟩ := hn
  cases step with
  | receive hrc =>
    obtain ⟨_, -, hnn⟩ := h.receive hrc
    cases hnn.symm.trans h.answered
  | respond hsm => cases hrs.symm.trans hsm
  | handler hr hs hp =>
    obtain ⟨j, hj, -⟩ := h.perform hr hs hp
    exact ⟨_, .mk (h.finished ▸ hr) (fun item => h.ended_of_read h.read h.closed hp)
      (h.state ▸ hs) hj⟩

/-- A response that is always completed is completed by the handler alone. -/
theorem Relays.settles (ha : bodyAllowed head.status (req.method = .head) = true)
    (hsr : head.streams = true) (h : Relays handler now req head s i)
    (hs : Completes handler now req s) : Inevitable (CutOffStep handler) Supplied.Settled i := by
  refine Inevitable.reflect (R := Relays handler now req head) ?_ ?_ hs h
  · intro s i h
    exact h.not_complete
  intro s i h hn
  rcases hr : s.respond now (req.method = .head) with _ | t
  · obtain ⟨-, he, -⟩ := h.main.waiting h.answered hr
    exact .inr (.inr ⟨h.cutOffStep hr hn, fun j => h.follow he⟩)
  rcases h.respond hr with ⟨⟨head', _, _, -, hh, -, hst, -⟩, -⟩ | ht
  · cases h.answered.symm.trans hh
    exact .inl (hst ha hsr)
  obtain ⟨hsn, hb⟩ := ht.frame_respond hr
  refine .inr (.inl ⟨t, .respond hr, ht, hb.trans h.empty, h.read, h.answered, ?_⟩)
  intro hcl
  exact h.closed (hsn.symm.trans hcl)

/-- A handler whose exchanges all become complete answers after the body. -/
theorem answersAfterBody_of_completes (hs : Completes handler now req (.init handler req)) :
    AnswersAfterBody handler req := by
  intro i j head run hh step ha
  obtain ⟨s, h, hs⟩ := lockstep_run hs run hh
  obtain ⟨hrn, hst, hp⟩ := step
  rename_i next
  rcases head_perform hp ha with hsm | ⟨-, rfl, rfl⟩
  · cases hh.symm.trans hsm
  obtain ⟨t, ht, hn, hf⟩ := h.act hrn hst hp (fun _ heq => by cases heq)
    (fun heq => by cases heq) (fun _ heq => by cases heq)
  have hr := hs.step h.not_complete hn
  obtain ⟨-, rfl, -⟩ := h.main.of_answer ht
  -- What was not offered by now never will be.
  have hrs : i.rest = [] := by
    have ho := offered_of_completes hr rfl
    exact List.append_right_eq_self.mp (hf.offered.trans ho.symm)
  refine ⟨hrs, ?_⟩
  intro hal hsr
  refine Relays.settles hal hsr ?_ hr
  exact ⟨hf, h.empty, hrs, rfl, h.closed⟩

/-- For a handler that comes to its end with its whole input, every exchange becomes complete if and only if the
handler has read every chunk when it answers, and needs no more input then. -/
theorem masquerade_complete (handler : Handler η) (now : Str) (request : HttpRequest)
    (hfinishes : Finishes handler request) :
    Inevitable (ExchangeStep handler now request) (Complete request) (.init handler request) ↔
      AnswersAfterBody handler request := by
  constructor
  · exact answersAfterBody_of_completes
  · intro ha
    exact (inevitable_answered now hfinishes ha).mono fun _ => Answered.complete

/-! An upload, at a handler that sends back what it has collected and at one
that sends back each chunk as it comes, as a reverse proxy in front of such a
server does. -/

def upload : HttpRequest where
  method := .post
  uri := { scheme := some "https", authority := some "example.com", path := "/", query := none }
  headers := []
  body := [[1], [2, 3]]

theorem masquerade_complete_collecting :
    let handler := wholeBody fun body => { status := 200, headers := [], body := [], bodyStream := some [.ok body] }
    Finishes handler upload ∧
      Inevitable (ExchangeStep handler [] upload) (Complete upload) (.init handler upload) := by
  intro handler
  have hf : Finishes handler upload := wholeBody_finishes _ upload
  exact ⟨hf, (masquerade_complete handler [] upload hf).mpr (wholeBody_answersAfterBody _ upload)⟩

inductive EchoState where
  | start
  | reading
  | holding (chunk : Chunk)
  | done

def echoHead : ResponseHead where
  status := 200
  headers := []
  body := []
  streams := true

inductive EchoStep : EchoState → HandlerAction → EchoState → Prop
  | answer : EchoStep .start (.answer echoHead) .reading
  | read (chunk : Chunk) : EchoStep .reading (.read (some chunk)) (.holding chunk)
  | write (chunk : Chunk) : EchoStep (.holding chunk) (.write (.ok chunk)) .reading
  | done : EchoStep .reading (.read none) .done
  | finish : EchoStep .done .finish .done

def echoHandler : Handler EchoState where
  init := .start
  step := EchoStep
  capacity := 2
  capacity_pos := by decide

/-- Where it is when its whole input is there. -/
def EchoInv (i : Supplied EchoState) : Prop :=
  match i.handler with
  | .start => i.head = none ∧ i.dropped = false ∧ i.finished = false
  | .reading => i.head = some echoHead ∧ i.dropped = false ∧ i.finished = false
  | .holding _ => i.head = some echoHead ∧ i.dropped = false ∧ i.finished = false
  | .done => i.head = some echoHead

def echoSteps (i : Supplied EchoState) : Nat :=
  match i.handler with
  | .start => 2 * i.rest.length + 3
  | .reading => 2 * i.rest.length + 2
  | .holding _ => 2 * i.rest.length + 3
  | .done => if i.finished then 0 else 1

theorem echoInv_step {i j : Supplied EchoState} (h : EchoInv i) (step : SuppliedStep echoHandler i j) :
    EchoInv j ∧ echoSteps j < echoSteps i := by
  obtain ⟨hr, hs, hp⟩ := step
  unfold EchoInv at h ⊢
  unfold echoSteps
  generalize i.handler = state at h hs
  cases hs with
  | answer =>
    obtain ⟨-, rfl⟩ := perform_answer hp
    grind
  | read chunk =>
    obtain ⟨later, -, hrs, rfl⟩ := perform_chunk hp
    grind
  | write chunk =>
    obtain ⟨-, rfl⟩ := perform_write hp
    exact ⟨h, Nat.lt_succ_self _⟩
  | done =>
    grind [perform_end]
  | finish =>
    cases hp
    exact ⟨h, by simp [hr]⟩

theorem echoInv_progress {i : Supplied EchoState} (h : EchoInv i) (he : ¬i.Ended) :
    ∃ j, SuppliedStep echoHandler i j := by
  unfold EchoInv at h
  generalize hst : i.handler = st at h
  have hs : ∀ {action next j}, i.finished = false → EchoStep st action next →
      i.perform 2 action = some j → ∃ j, SuppliedStep echoHandler i j := by
    intro action next j hrn hs hp
    exact ⟨_, .mk hrn (hst ▸ hs) hp⟩
  cases st with
  | start => exact hs h.2.2 .answer (if_pos (by rw [h.1]; rfl))
  | reading =>
    rcases hr : i.rest with _ | ⟨chunk, later⟩
    · exact hs h.2.2 .done (if_pos ⟨h.2.1, hr⟩)
    · exact hs h.2.2 (.read chunk) (if_pos ⟨h.2.1, by rw [hr]; rfl⟩)
  | holding chunk => exact hs h.2.2 (.write chunk) (if_pos (by rw [h.1]; rfl))
  | done =>
    refine hs ?_ .finish rfl
    rw [← Bool.not_eq_true]
    intro hf
    exact he ⟨hf, by rw [h]; rfl⟩

theorem echoHandler_finishes (req : HttpRequest) : Finishes echoHandler req := by
  refine .of_measure (R := EchoInv) echoSteps ?_ ?_ ⟨rfl, rfl, rfl⟩
  · intro i h he
    exact echoInv_progress h he
  · intro i j h step
    exact .inr (echoInv_step h step)

/-- It answers at once, and then waits for a chunk that is never offered, as the function waits for its output. -/
def echoDeadlock : Exchange EchoState :=
  { Exchange.init echoHandler upload with
    main := .streaming echoHead (echoHead.send [] false)
    handler := .reading }

theorem echoDeadlock_run :
    ReflTransGen (ExchangeStep echoHandler [] upload) (.init echoHandler upload) echoDeadlock := by
  have ha : ExchangeStep echoHandler [] upload (.init echoHandler upload) _ := .handler rfl EchoStep.answer rfl
  exact (ReflTransGen.single ha).tail (.respond rfl)

theorem echoDeadlock_stuck (t : Exchange EchoState) : ¬ExchangeStep echoHandler [] upload echoDeadlock t := by
  intro step
  cases step with
  | receive h => cases h
  | respond h => cases h
  | handler _ hs h =>
    generalize hst : echoDeadlock.handler = state at hs
    cases hs with
    | read chunk => cases h
    | done => cases h
    | answer => cases hst
    | write chunk => cases hst
    | finish => cases hst

theorem masquerade_complete_deadlock : Finishes echoHandler upload ∧
    (∃ s, ReflTransGen (ExchangeStep echoHandler [] upload) (.init echoHandler upload) s ∧
      (∀ t, ¬ExchangeStep echoHandler [] upload s t) ∧ s.offered = [] ∧ ¬Complete upload s) ∧
    ¬Inevitable (ExchangeStep echoHandler [] upload) (Complete upload) (.init echoHandler upload) := by
  refine ⟨echoHandler_finishes upload, ⟨echoDeadlock, echoDeadlock_run, echoDeadlock_stuck, rfl, ?_⟩, ?_⟩
  · rintro ⟨head, sent, res, hm, -⟩
    cases hm
  intro hs
  -- It answers before it has read anything.
  have ha : SuppliedStep echoHandler (.init echoHandler upload) _ := .mk rfl EchoStep.answer rfl
  cases (answersAfterBody_of_completes hs _ _ echoHead .refl rfl ha rfl).1

end Hysteria.Proof
