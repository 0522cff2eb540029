import Hysteria.Framework.Transition
import Hysteria.Impl.Transport.ServerConnection
import Hysteria.Proof.Transport.MasqueradeAnswer

/-!
# Handlers that are functions of the whole request

`wholeBody`: the process that reads the body to its end and then gives its
response. `handleMasqueradeRequest_exchange`: with it, every exchange comes to
what the model of the connection says of a request.
-/

namespace Hysteria.Proof

open Framework Impl Spec Relation List

inductive WholeState where
  | reading (body : List UInt8)
  | answering (response : MasqueradeResponse)
  | writing (items : List (Except Str Chunk))

/-- The response before its stream. -/
def responseHead (response : MasqueradeResponse) : ResponseHead where
  status := response.status
  headers := response.headers
  body := response.body
  streams := response.bodyStream.isSome

inductive WholeStep (answer : List UInt8 → MasqueradeResponse) : WholeState → HandlerAction → WholeState → Prop
  | read (body : List UInt8) (chunk : Chunk) :
    WholeStep answer (.reading body) (.read (some chunk)) (.reading (body ++ chunk))
  | done (body : List UInt8) : WholeStep answer (.reading body) (.read none) (.answering (answer body))
  | answer (response : MasqueradeResponse) :
    WholeStep answer (.answering response) (.answer (responseHead response)) (.writing (response.bodyStream.getD []))
  | write (item : Except Str Chunk) (items : List (Except Str Chunk)) :
    WholeStep answer (.writing (item :: items)) (.write item) (.writing items)
  | finish : WholeStep answer (.writing []) .finish (.writing [])

def wholeBody (answer : List UInt8 → MasqueradeResponse) : Handler WholeState where
  init := .reading []
  step := WholeStep answer
  capacity := masqueradeBodyChannelSize
  capacity_pos := by decide

variable {ans : List UInt8 → MasqueradeResponse} {req : HttpRequest} {i j : Supplied WholeState}

/-! ## Its runs -/

/-- Where it is when its whole input is there. -/
def WholeInv (answer : List UInt8 → MasqueradeResponse) (request : HttpRequest) (i : Supplied WholeState) : Prop :=
  match i.handler with
  | .reading body =>
    body ++ i.rest.flatten = request.body.flatten ∧ i.head = none ∧ i.written = [] ∧ i.dropped = false ∧
      i.finished = false
  | .answering response =>
    response = answer request.body.flatten ∧ i.rest = [] ∧ i.ended = true ∧ i.head = none ∧ i.written = [] ∧
      i.finished = false
  | .writing items =>
    i.rest = [] ∧ i.head = some (responseHead (answer request.body.flatten)) ∧
      i.written ++ items = (answer request.body.flatten).bodyStream.getD [] ∧ (i.finished = true → items = [])

theorem wholeInv_init : WholeInv ans req (.init (wholeBody ans) req) := ⟨rfl, rfl, rfl, rfl, rfl⟩

theorem wholeInv_step (h : WholeInv ans req i) (step : SuppliedStep (wholeBody ans) i j) : WholeInv ans req j := by
  obtain ⟨hrn, hs, hp⟩ := step
  unfold WholeInv at h ⊢
  generalize i.handler = state at h hs
  cases hs with
  | read body chunk =>
    obtain ⟨later, -, hr, rfl⟩ := perform_chunk hp
    grind
  | done body =>
    obtain ⟨-, hr, rfl⟩ := perform_end hp
    grind
  | answer resp =>
    obtain ⟨-, rfl⟩ := perform_answer hp
    grind
  | write item items =>
    obtain ⟨-, rfl⟩ := perform_write hp
    grind
  | finish =>
    cases hp
    grind

theorem wholeInv_run (run : ReflTransGen (SuppliedStep (wholeBody ans)) (.init (wholeBody ans) req) i) :
    WholeInv ans req i :=
  invariant_run (I := WholeInv ans req) (fun _ _ => wholeInv_step) wholeInv_init run

/-- The steps it has still to take. -/
def wholeSteps (answer : List UInt8 → MasqueradeResponse) (request : HttpRequest) (i : Supplied WholeState) : Nat :=
  let items := (answer request.body.flatten).bodyStream.getD []
  match i.handler with
  | .reading _ => i.rest.length + items.length + 3
  | .answering _ => items.length + 2
  | .writing items => items.length + if i.finished then 0 else 1

theorem wholeSteps_lt (h : WholeInv ans req i) (step : SuppliedStep (wholeBody ans) i j) :
    wholeSteps ans req j < wholeSteps ans req i := by
  obtain ⟨hr, hs, hp⟩ := step
  unfold WholeInv at h
  unfold wholeSteps
  generalize i.handler = state at h hs
  cases hs with
  | read body chunk =>
    obtain ⟨later, -, hrs, rfl⟩ := perform_chunk hp
    simp [hrs]
  | done body =>
    grind
  | answer resp =>
    grind
  | write item items =>
    grind
  | finish =>
    cases hp
    simp [hr]

theorem wholeInv_progress (h : WholeInv ans req i) (he : ¬i.Ended) : ∃ j, SuppliedStep (wholeBody ans) i j := by
  unfold WholeInv at h
  generalize hst : i.handler = st at h
  have hs : ∀ {act next j}, i.finished = false → WholeStep ans st act next →
      i.perform masqueradeBodyChannelSize act = some j → ∃ j, SuppliedStep (wholeBody ans) i j := by
    intro act next j hr hs hp
    exact ⟨_, .mk hr (hst ▸ hs) hp⟩
  cases st with
  | reading body =>
    obtain ⟨-, -, -, hd, hr⟩ := h
    rcases hrs : i.rest with _ | ⟨chunk, later⟩
    · exact hs hr (.done body) (if_pos ⟨hd, hrs⟩)
    · exact hs hr (.read body chunk) (if_pos ⟨hd, by rw [hrs]; rfl⟩)
  | answering resp =>
    obtain ⟨-, -, -, hh, -, hr⟩ := h
    exact hs hr (.answer resp) (if_pos (by rw [hh]; rfl))
  | writing items =>
    obtain ⟨-, hh, -, -⟩ := h
    have hr : i.finished = false := by
      rw [← Bool.not_eq_true]
      intro hf
      exact he ⟨hf, by rw [hh]; rfl⟩
    rcases items with _ | ⟨item, items⟩
    · exact hs hr .finish rfl
    · exact hs hr (.write item items) (if_pos (by rw [hh]; rfl))

theorem wholeBody_finishes (ans : List UInt8 → MasqueradeResponse) (req : HttpRequest) :
    Finishes (wholeBody ans) req := by
  refine .of_measure (R := WholeInv ans req) (wholeSteps ans req) ?_ ?_ wholeInv_init
  · intro i h he
    exact wholeInv_progress h he
  · intro i j h step
    exact .inr ⟨wholeInv_step h step, wholeSteps_lt h step⟩

theorem wholeBody_settles {items : List (Except Str Chunk)} (h : WholeInv ans req i)
    (hst : i.handler = .writing items) : Inevitable (CutOffStep (wholeBody ans)) Supplied.Settled i := by
  refine .of_measure (R := fun i => WholeInv ans req i ∧ ∃ items, i.handler = .writing items)
    (wholeSteps ans req) ?_ ?_ ⟨h, items, hst⟩
  · rintro i ⟨h, items, hst⟩ hse
    obtain ⟨j, hr, hs, hp⟩ := wholeInv_progress h fun he => hse (.inl he.1)
    refine ⟨_, .mk hr ?_ hs hp⟩
    rintro item rfl
    rw [hst] at hs
    cases hs
  · rintro i j ⟨h, items, hst⟩ ⟨hr, -, hs, hp⟩
    have step := SuppliedStep.mk hr hs hp
    refine .inr ⟨⟨wholeInv_step h step, ?_⟩, wholeSteps_lt h step⟩
    rw [hst] at hs
    cases hs with
    | write item items => exact ⟨items, rfl⟩
    | finish => exact ⟨[], rfl⟩

theorem wholeBody_answersAfterBody (ans : List UInt8 → MasqueradeResponse) (req : HttpRequest) :
    AnswersAfterBody (wholeBody ans) req := by
  intro i j head run hh step ha
  have h := wholeInv_run run
  have hj := wholeInv_step h step
  obtain ⟨-, hs, hp⟩ := step
  rcases head_perform hp ha with hsm | ⟨-, rfl, rfl⟩
  · cases hh.symm.trans hsm
  unfold WholeInv at h
  generalize i.handler = state at h hs
  cases hs with
  | answer resp => exact ⟨h.2.1, fun _ _ => wholeBody_settles hj rfl⟩

/-! ## Its exchanges -/

theorem sendBodyStream_of_error {items more : List (Except Str Chunk)} (h : ∃ err, .error err ∈ items) :
    sendBodyStream (items ++ more) = sendBodyStream items := by
  induction items with
  | nil =>
    obtain ⟨_, hm⟩ := h
    cases hm
  | cons item items ih =>
    rcases item with err | chunk
    · rfl
    have hr : ∃ err, .error err ∈ items := by
      grind
    simp only [cons_append, sendBodyStream, ih hr]

theorem response_responseHead (resp : MasqueradeResponse) :
    (responseHead resp).response (resp.bodyStream.getD []) = resp := by
  obtain ⟨status, hdrs, body, _ | items⟩ := resp <;> rfl

/-- A response of `wholeBody` that was settled is sent as the whole one. -/
theorem sendMasqueradeResponse_settled {head : ResponseHead} {now : Str} (h : WholeInv ans req i)
    (hh : i.head = some head) (hst : bodyAllowed head.status (req.method = .head) = true →
      head.streams = true → i.Settled) :
    sendMasqueradeResponse now (head.response i.written) (req.method = .head) =
      sendMasqueradeResponse now (ans req.body.flatten) (req.method = .head) := by
  obtain ⟨items, han, hitems, hd⟩ : ∃ items, head = responseHead (ans req.body.flatten) ∧
      i.written ++ items = (ans req.body.flatten).bodyStream.getD [] ∧ (i.finished = true → items = []) := by
    unfold WholeInv at h
    grind
  rw [← response_responseHead (ans req.body.flatten), ← han, ← hitems]
  cases hs : bodyAllowed head.status (req.method = .head) && head.streams with
  | false => grind [sendMasqueradeResponse_whole]
  | true =>
    obtain ⟨ha, hs⟩ := Bool.and_eq_true_iff.mp hs
    have hsm : sendBodyStream (i.written ++ items) = sendBodyStream i.written := by
      rcases hst ha hs with hf | he
      · rw [hd hf, append_nil]
      · exact sendBodyStream_of_error he
    grind [sendMasqueradeResponse_streams]

/-- A handler that is a function of the whole request: every exchange with it ends as the connection's model has
it. -/
theorem handleMasqueradeRequest_exchange {σ τ κ : Type} (cfg : ConnectionConfig σ τ κ) (n : Nat) (req : HttpRequest) :
    let hdl := wholeBody fun body => cfg.masquerade { cfg.masqueradeRequest req with body }
    Inevitable (ExchangeStep hdl (cfg.now n) req)
      (fun s => ∃ head sent res, s.main = .returned head sent res ∧
        cfg.handleMasqueradeRequest n req = (sent, res)) (.init hdl req) := by
  intro hdl
  refine (inevitable_answered (cfg.now n) (wholeBody_finishes _ req)
    (wholeBody_answersAfterBody _ req)).mono ?_
  rintro s ⟨-, i, run, head, sent, res, hm, hh, hs, hst, -⟩
  refine ⟨head, sent, res, hm, ?_⟩
  rw [sendMasqueradeResponse_settled (wholeInv_run run) hh hst] at hs
  exact hs

end Hysteria.Proof
