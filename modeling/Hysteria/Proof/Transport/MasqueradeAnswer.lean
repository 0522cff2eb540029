import Hysteria.Proof.Transport.MasqueradeStream

/-!
# Handlers that answer after the body

`inevitable_answered`: when the handler answers after the body, the exchange
comes to what `send_masquerade_response` makes of its whole response. The
induction is on the handler's own end (`Finishes`); in between, the function and
`receive` take finitely many steps (`remaining`).
-/

namespace Hysteria.Proof

open Framework Impl Spec Relation List

variable {η : Type} {hdl : Handler η} {now : Str} {req : HttpRequest} {s t : Exchange η} {i j : Supplied η}
  {rest : List Chunk} {ans : Option ResponseHead} {action : HandlerAction} {next : η}
variable {suppressBody : Bool} {head : ResponseHead}

/-! ## The function by itself -/

/-- The steps that the function can take while the handler does nothing. -/
def remaining (s : Exchange η) : Nat :=
  match s.main with
  | .selecting (.receiving rest) => 2 * rest.length + 1
  | .selecting (.sending _ rest) => 2 * rest.length + 2
  | .responding _ => s.response.length + 2
  | .streaming _ _ => s.response.length + 1
  | _ => 0

theorem remaining_receive (h : s.receive = some t) : remaining t < remaining s := by
  unfold Exchange.receive at h
  split at h
  · rename_i chunk later hm
    grind [remaining, length_cons]
  · rename_i hm
    cases h
    simp [remaining, hm]
  · rename_i chunk later hm
    split at h
    · cases h
      simp [remaining, hm]
    grind [remaining]
  · cases h

theorem remaining_respond (h : s.respond now suppressBody = some t) : remaining t < remaining s := by
  unfold Exchange.respond at h
  split at h
  · rename_i head hm
    grind [remaining]
  · rename_i head sent hm
    split at h
    · rename_i chunk later hr
      cases h
      simp [remaining, hm, hr]
    · cases h
      simp [remaining, hm]
    grind [remaining]
  · cases h

/-- At the `select!`, `receive` waits only for room in the channel. -/
theorem full_of_receive_none {receive : Receive} (hm : s.main = .selecting receive) (h : s.receive = none) :
    s.dropped = false ∧ s.body ≠ [] := by
  rcases receive with (_ | ⟨chunk, later⟩) | ⟨chunk, later⟩ <;> simp only [Exchange.receive, hm] at h
  · cases h
  · cases h
  split at h
  · cases h
  rename_i hd
  refine ⟨Bool.not_eq_true _ ▸ hd, ?_⟩
  intro hb
  rw [if_pos (by rw [hb]; decide)] at h
  cases h

/-- After the answer, the function waits only for the response's body. -/
theorem MainFollows.waiting (h : MainFollows now req ans rest s s.main)
    (ha : ans = some head) (hr : s.respond now suppressBody = none) :
    (∃ sent, s.main = .streaming head sent) ∧ s.response = [] ∧ s.finished = false := by
  generalize hm : s.main = m at h
  cases h with
  | selecting hn => cases ha.symm.trans hn
  | awaiting hn => cases ha.symm.trans hn
  | responding =>
    grind [Exchange.respond]
  | @streaming head' sent _ hs =>
    cases ha.symm.trans hs
    refine ⟨⟨sent, rfl⟩, ?_⟩
    simp only [Exchange.respond, hm] at hr
    grind

/-! ## Progress -/

theorem exists_step_of_unanswered (h : Inevitable (SuppliedStep hdl) Supplied.Ended i) (hh : i.head = none) :
    ∃ j, SuppliedStep hdl i j := by
  rcases h with ⟨-, hs⟩ | ⟨hn, -⟩
  · rw [hh] at hs
    cases hs
  · exact hn

/-- A step of the handler for which it need not wait. -/
theorem Follows.act (h : Follows hdl now req s i rest) (hrn : i.finished = false)
    (hs : hdl.step i.handler action next) (hp : i.perform hdl.capacity action = some j)
    (hch : ∀ chunk, action = .read (some chunk) → s.dropped = false → s.body ≠ [])
    (he : action = .read none → s.body = [] ∧ s.sender = false)
    (hr : ∀ item, action = .write item → i.head.isSome → s.response.length < hdl.capacity) :
    ∃ t, s.perform hdl.capacity action = some t ∧ ExchangeStep hdl now req s { t with handler := next } ∧
      Follows hdl now req { t with handler := next } { j with handler := next } rest := by
  obtain ⟨t, ht⟩ := h.enabled hp hch he hr
  have hrun' : s.finished = false := h.finished.trans hrn
  have hstep' : hdl.step s.handler action next := h.state ▸ hs
  obtain ⟨j', hj', hf⟩ := h.perform hrun' hstep' ht
  cases hp.symm.trans hj'
  exact ⟨t, ht, .handler hrun' hstep' ht, hf⟩

/-- Before the answer, either `receive` goes on or the handler does. -/
theorem Follows.progress_unanswered (h : Follows hdl now req s i rest) (hh : i.head = none)
    (hi : Inevitable (SuppliedStep hdl) Supplied.Ended i) : ∃ t, ExchangeStep hdl now req s t := by
  rcases hrc : s.receive with _ | t
  · obtain ⟨j, hrn, hst, hp⟩ := exists_step_of_unanswered hi hh
    rename_i action next
    have hrm : ∀ item, action = .write item → i.head.isSome → s.response.length < hdl.capacity := by
      grind
    rcases (h.main.of_unanswered hh).2 with ⟨receive, hm⟩ | hm
    · obtain ⟨hd, hf⟩ := full_of_receive_none hm hrc
      have he : action = .read none → s.body = [] ∧ s.sender = false := by
        rintro rfl
        have hu := h.body hd
        rw [(perform_end hp).2.1] at hu
        exact absurd (append_eq_nil_iff.mp hu).1 hf
      obtain ⟨t, -, hn, -⟩ := h.act hrn hst hp (fun _ _ _ => hf) he hrm
      exact ⟨_, hn⟩
    · have hs : s.sender = false := by
        have hfl := h.main
        rw [hm] at hfl
        cases hfl with
        | awaiting _ hs => exact hs
      have hb : s.dropped = false → s.body = i.rest := by
        intro hd
        rw [← h.body hd, h.all hs hd, append_nil]
      have hch : ∀ chunk, action = .read (some chunk) → s.dropped = false → s.body ≠ [] := by
        rintro chunk rfl hd hem
        obtain ⟨later, -, hr, -⟩ := perform_chunk hp
        cases hem.symm.trans ((hb hd).trans hr)
      have he : action = .read none → s.body = [] ∧ s.sender = false := by
        grind [h.dropped, perform_end]
      obtain ⟨t, -, hn, -⟩ := h.act hrn hst hp hch he hrm
      exact ⟨_, hn⟩
  · exact ⟨t, .receive hrc⟩

/-! The handler has read everything when it has answered, and can do without the end while `body_sender` is alive. -/

theorem settled_cutOffStep (h : Inevitable (CutOffStep hdl) Supplied.Settled i) (step : CutOffStep hdl i j) :
    Inevitable (CutOffStep hdl) Supplied.Settled j := by
  by_cases hs : i.Settled
  · obtain ⟨hr, -, -, hp⟩ := step
    rcases hs with hf | ⟨err, he⟩
    · rw [hr] at hf
      cases hf
    · exact .now (.inr ⟨err, (written_perform hp).subset he⟩)
  · exact h.step hs step

/-- After the last chunk, the handler can read nothing but an end that it was given. -/
theorem Follows.ended_of_read (h : Follows hdl now req s i rest) (hr : i.rest = [])
    (hcl : s.sender = false → i.ended = true) (hp : s.perform hdl.capacity action = some t)
    {item : Option Chunk} (hrd : action = .read item) : i.ended = true := by
  rw [hrd] at hp
  cases item with
  | some chunk =>
    obtain ⟨⟨hd, hch⟩, -⟩ := Option.ite_none_right_eq_some.mp hp
    have hb := h.body hd
    simp_all
  | none =>
    exact hcl (Option.ite_none_right_eq_some.mp hp).1.2.2

def Kept (handler : Handler η) (request : HttpRequest) (s : Exchange η) (i : Supplied η) : Prop :=
  ∀ head, i.head = some head → i.rest = [] ∧ (s.sender = true →
    bodyAllowed head.status (request.method = .head) = true → head.streams = true →
      Inevitable (CutOffStep handler) Supplied.Settled i)

theorem Kept.perform (ha : AnswersAfterBody hdl req) (h : Follows hdl now req s i rest)
    (hk : Kept hdl req s i) (hrn : s.finished = false) (hs : hdl.step s.handler action next)
    (hp : s.perform hdl.capacity action = some t) (hj : i.perform hdl.capacity action = some j) :
    Kept hdl req { t with handler := next } { j with handler := next } := by
  intro head hh
  have hrun' : i.finished = false := h.finished ▸ hrn
  have hstep' : hdl.step i.handler action next := h.state ▸ hs
  rcases head_perform hj hh with hsm | ⟨hn, rfl, rfl⟩
  · obtain ⟨hr, hc⟩ := hk head hsm
    refine ⟨show j.rest = [] from rest_perform hj hr, ?_⟩
    intro hsn hal hst
    have ho : s.sender = true := (sender_perform hp).symm.trans hsn
    refine settled_cutOffStep (hc ho hal hst) (.mk hrun' ?_ hstep' hj)
    intro item
    refine h.ended_of_read hr ?_ hp
    intro hcl
    cases ho.symm.trans hcl
  · obtain ⟨hr, hc⟩ := ha i _ head h.run hn (.mk hrun' hstep' hj) rfl
    exact ⟨hr, fun _ => hc⟩

/-- A handler that has not completed its output goes on; while `body_sender` is alive, without reading. -/
theorem Follows.exists_step_of_waiting (h : Follows hdl now req s i rest) (hk : Kept hdl req s i)
    {sent : HttpResponse} (hh : i.head = some head) (hm : s.main = .streaming head sent) (hem : s.response = [])
    (hr : i.finished = false) (hi : Inevitable (SuppliedStep hdl) Supplied.Ended i) :
    ∃ action next j, hdl.step i.handler action next ∧ i.perform hdl.capacity action = some j ∧
      ∀ item, action = .read item → s.sender = false := by
  obtain ⟨cs, hwr, -, ha, hsr, -⟩ := h.main.stream hm
  cases hsn : s.sender with
  | true =>
    rcases (hk head hh).2 hsn ha hsr with hst | ⟨⟨_, ⟨-, hitem, hs, hp⟩⟩, -⟩
    · rcases hst with hf | ⟨err, he⟩
      · cases hr.symm.trans hf
      · rw [← h.written, hwr, hem] at he
        simp at he
    grind [h.ended]
  | false =>
    rcases hi with ⟨hf, -⟩ | ⟨⟨_, ⟨-, hs, hp⟩⟩, -⟩
    · cases hr.symm.trans hf
    grind

/-- A step of the handler after the last chunk, while the function waits for it. -/
theorem Follows.act_answered (h : Follows hdl now req s i rest) (hr : i.rest = [])
    (he : s.response = []) (hrn : i.finished = false) (hs : hdl.step i.handler action next)
    (hp : i.perform hdl.capacity action = some j) (hrd : action = .read none → s.sender = false) :
    ∃ t, s.perform hdl.capacity action = some t ∧ ExchangeStep hdl now req s { t with handler := next } ∧
      Follows hdl now req { t with handler := next } { j with handler := next } rest := by
  apply h.act hrn hs hp
  · grind [Supplied.perform]
  · rintro rfl
    have hb := h.body (h.dropped.trans (perform_end hp).1)
    simp_all
  intro _ _ _
  rw [he]
  exact hdl.capacity_pos

/-- After the answer, the function goes on or the handler does. -/
theorem Follows.progress_answered (h : Follows hdl now req s i rest) (hk : Kept hdl req s i) (hh : i.head = some head)
    (hi : Inevitable (SuppliedStep hdl) Supplied.Ended i) : ∃ t, ExchangeStep hdl now req s t := by
  rcases hr : s.respond now (req.method = .head) with _ | t
  · obtain ⟨⟨sent, hm⟩, he, hrn⟩ := h.main.waiting hh hr
    have hrs := (hk head hh).1
    have hrun' : i.finished = false := h.finished ▸ hrn
    obtain ⟨action, next, j, hs, hp, hrd⟩ := h.exists_step_of_waiting hk hh hm he hrun' hi
    obtain ⟨t, -, hn, -⟩ := h.act_answered hrs he hrun' hs hp (hrd none)
    exact ⟨_, hn⟩
  · exact ⟨t, .respond hr⟩

/-- An exchange comes to its end, with what `send_masquerade_response` makes of the whole response. -/
theorem inevitable_answered (now : Str) (hf : Finishes hdl req) (ha : AnswersAfterBody hdl req) :
    Inevitable (ExchangeStep hdl now req) (Answered hdl now req) (.init hdl req) := by
  refine Inevitable.simulate
    (R := fun s i => (∃ rest, Follows hdl now req s i rest) ∧ Kept hdl req s i) remaining ?_ ?_ ?_
    hf ⟨⟨_, follows_init hdl now req⟩, ?_⟩
  · rintro i j ⟨hfn, -⟩ ⟨hrn, -, -⟩
    cases hrn.symm.trans hfn
  · rintro s i ⟨⟨rest, h⟩, hk⟩ hi -
    rcases Option.eq_none_or_eq_some i.head with hn | ⟨head, hs⟩
    · exact h.progress_unanswered hn hi
    · exact h.progress_answered hk hs hi
  · rintro s i t ⟨⟨rest, h⟩, hk⟩ step
    cases step with
    | receive hrc =>
      obtain ⟨rest, ht, hn⟩ := h.receive hrc
      refine .inr (.inl ⟨⟨⟨rest, ht⟩, ?_⟩, remaining_receive hrc⟩)
      intro head hs
      cases hn.symm.trans hs
    | respond hrs =>
      rcases h.respond hrs with ⟨hr, ho⟩ | ht
      · obtain ⟨head, -, -, -, hs, -⟩ := id hr
        exact .inl ⟨ho.trans (h.offered_eq (hk head hs).1), i, h.run, hr⟩
      refine .inr (.inl ⟨⟨⟨rest, ht⟩, ?_⟩, remaining_respond hrs⟩)
      intro head hs
      obtain ⟨hrt, hc⟩ := hk head hs
      exact ⟨hrt, fun hsn => hc ((ht.frame_respond hrs).1.symm.trans hsn)⟩
    | handler hrn hst hp =>
      obtain ⟨j, hj, ht⟩ := h.perform hrn hst hp
      exact .inr (.inr ⟨_, .mk (h.finished ▸ hrn) (h.state ▸ hst) hj, ⟨rest, ht⟩, hk.perform ha h hrn hst hp hj⟩)
  · intro head hs
    cases hs

end Hysteria.Proof
