import Hysteria.Framework.Rows
import Hysteria.Framework.Transition
import Hysteria.Impl.Outbound.Acl
import Hysteria.Impl.Transport.ServerUdp
import Hysteria.Proof.Protocol.Fragment

/-!
# The session table

`UdpInv`: in every reachable state, task `i` has the token `i + 1`, every entry
of the table belongs to a task that has not run its `remove_server_session`,
and the dispatcher only enters a session that is not in the table. `set_task`,
`insert` and `remove` are its steps.
-/

namespace Hysteria.Proof

open Framework Relation Impl List

variable {σ τ κ : Type} {ctx : ServerUdpContext σ τ κ} {s : ServerUdp σ τ}

variable {i : Nat} {ent : ServerSessionEntry} {task : SessionTask τ}
variable {sid id : UInt32} {ev : SessionEvent} {w : σ} {token : UInt64} {s' : ServerUdp σ τ}

/-! ## Tasks and the table -/

/-- A task that has finished stays finished, and only `remove` finishes one. -/
theorem sessionStep_eq_finished {st : SessionState τ}
    (h : (sessionStep ctx sid st ev w).1 = .finished) : st = .finished := by
  revert h
  unfold sessionStep
  split
  · split
    · exact nofun
    unfold openSession
    grind
  · exact nofun
  · exact nofun
  · unfold relayClient
    grind
  · unfold relayRemote
    grind
  · exact nofun
  · exact nofun
  · exact nofun
  · exact id

theorem step_ne_finished (h : task.state.waiting = true) : (task.step ctx ev w).1.state ≠ .finished := by
  intro hf
  rw [sessionStep_eq_finished hf] at h
  cases h

theorem trySend_fields (task : SessionTask τ) (msg : UdpMessage) :
    (task.trySend msg).sessionId = task.sessionId ∧ (task.trySend msg).token = task.token ∧
      (task.trySend msg).state = task.state := by
  unfold SessionTask.trySend
  grind

theorem lookup_removeServerSession {sessions : ServerSessions} :
    (removeServerSession sessions sid token).lookup id = some ent ↔
      sessions.lookup id = some ent ∧ ¬ (id = sid ∧ ent.token = token) := by
  unfold removeServerSession
  by_cases hid : id = sid
  · subst hid
    rcases hl : sessions.lookup id with _ | e
    · simp [hl]
    by_cases ht : e.token = token
    · rw [if_pos (by simp [ht]), AList.lookup_erase]
      grind
    · rw [if_neg (by simp [ht]), hl]
      grind
  grind [AList.lookup_erase_ne]

/-! ## The invariant -/

structure UdpInv (s : ServerUdp σ τ) : Prop where
  token : ∀ (i : Nat) task, s.tasks[i]? = some task → task.token = UInt64.ofNat (i + 1)
  nextToken : s.nextToken = UInt64.ofNat (s.tasks.length + 1)
  entry : ∀ id entry, s.sessions.lookup id = some entry → ∃ task, s.tasks[entry.sender]? = some task ∧
    task.sessionId = id ∧ task.token = entry.token ∧ task.state ≠ .finished
  absent : ∀ message, s.dispatcher = .looked message none → s.sessions.lookup message.sessionId = none

theorem udpInv_init (w : σ) : UdpInv (.init w : ServerUdp σ τ) where
  token := by simp [ServerUdp.init]
  nextToken := rfl
  entry := by simp [ServerUdp.init]
  absent := by simp [ServerUdp.init]

theorem UdpInv.set_task (h : UdpInv s) {task' : SessionTask τ} {dispatcher : Dispatcher} (w : σ)
    (hts : s.tasks[i]? = some task) (hid : task'.sessionId = task.sessionId) (htk : task'.token = task.token)
    (hst : task.state ≠ .finished → task'.state ≠ .finished) (hd : dispatcher = s.dispatcher ∨ dispatcher = .reading) :
    UdpInv { s with tasks := s.tasks.set i task', dispatcher, world := w } := by
  refine ⟨?_, by rw [List.length_set]; exact h.nextToken, ?_, ?_⟩
  · grind [h.token]
  · intro id ent he
    obtain ⟨t, ht, hid', htoken', hl⟩ := h.entry id ent he
    by_cases hj : i = ent.sender
    · subst hj
      grind
    grind
  grind [h.absent]

theorem UdpInv.insert (h : UdpInv s) {msg : UdpMessage} :
    UdpInv { s with
      sessions := s.sessions.insert msg.sessionId ⟨s.nextToken, s.tasks.length⟩
      nextToken := s.nextToken + 1
      dispatcher := .inserted msg s.tasks.length
      tasks := s.tasks ++ [⟨msg.sessionId, s.nextToken, [], false, .first {}⟩] } := by
  refine ⟨?_, ?_, ?_, nofun⟩
  · grind [h.token, h.nextToken]
  · rw [h.nextToken, List.length_append, List.length_singleton]
    exact (UInt64.ofNat_add _ _).symm
  intro id ent he
  by_cases hid : id = msg.sessionId
  · subst hid
    rw [AList.lookup_insert] at he
    cases he
    simp
  rw [AList.lookup_insert_ne hid] at he
  grind [h.entry]

/-- A task runs its `remove_server_session`: its own entry is gone after that,
whatever the tokens are. -/
theorem UdpInv.remove (h : UdpInv s) (hts : s.tasks[i]? = some task) :
    UdpInv { s with
      sessions := removeServerSession s.sessions task.sessionId task.token
      tasks := s.tasks.set i { task with state := .finished } } := by
  refine ⟨?_, by rw [length_set]; exact h.nextToken, ?_, ?_⟩
  · grind [h.token]
  · intro id ent he
    obtain ⟨he, hk⟩ := lookup_removeServerSession.mp he
    obtain ⟨t, ht, hid, htk, hl⟩ := h.entry id ent he
    grind
  · intro msg hm
    have ha := h.absent msg hm
    rw [Option.eq_none_iff_forall_ne_some]
    intro ent he
    have := (lookup_removeServerSession.mp he).1
    rw [ha] at this
    cases this

theorem UdpInv.step (h : UdpInv s) (hs : UdpStep ctx s s') : UdpInv s' := by
  cases hs with
  | readError hd => exact ⟨h.token, h.nextToken, h.entry, nofun⟩
  | undecodable hd hbs => exact h
  | refused hd hbs hlg => exact ⟨h.token, h.nextToken, h.entry, nofun⟩
  | lookup hd hbs hlg =>
    refine ⟨h.token, h.nextToken, h.entry, ?_⟩
    simp
  | deliver hd ht =>
    obtain ⟨hid, htk, hst⟩ := trySend_fields _ _
    exact h.set_task s.world ht hid htk (fun hl => hst ▸ hl) (.inr rfl)
  | insert hd => exact h.insert
  | spawn hd ht =>
    obtain ⟨hid, htk, hst⟩ := trySend_fields _ _
    exact h.set_task s.world ht hid htk (fun hl => hst ▸ hl) (.inr rfl)
  | clear hd => exact ⟨h.token, h.nextToken, by simp, nofun⟩
  | abort hd => exact ⟨h.token, h.nextToken, h.entry, nofun⟩
  | receive ht hsp hw hq =>
    exact h.set_task _ ht rfl rfl (fun _ => step_ne_finished hw) (.inl rfl)
  | closed ht hsp hw hq hcl =>
    exact h.set_task _ ht rfl rfl (fun _ => step_ne_finished hw) (.inl rfl)
  | timeout ht hsp hw hq =>
    exact h.set_task _ ht rfl rfl (fun _ => step_ne_finished hw) (.inl rfl)
  | remote ht hsp hw =>
    exact h.set_task _ ht rfl rfl (fun _ => step_ne_finished hw) (.inl rfl)
  | remove ht hst => exact h.remove ht

/-- The invariant holds in every reachable state. -/
theorem udpInv_run (run : ReflTransGen (UdpStep ctx) (.init w) s) : UdpInv s :=
  invariant_run (fun _ _ h hs => h.step hs) (udpInv_init w) run

/-! ## Tokens -/

/-- Tokens repeat after `2 ^ 64` sessions, not before. -/
theorem UdpInv.token_inj (h : UdpInv s) (hb : s.issued.length ≤ 2 ^ 64) {j : Nat} {t t' : SessionTask τ}
    (hi : s.tasks[i]? = some t) (hj : s.tasks[j]? = some t') (he : t.token = t'.token) : i = j := by
  rw [ServerUdp.issued, List.length_map] at hb
  rw [h.token i t hi, h.token j t' hj] at he
  grind [UInt64.toNat_ofNat']

theorem UdpInv.issued_nodup (h : UdpInv s) (hb : s.issued.length ≤ 2 ^ 64) : s.issued.Nodup := by
  rw [nodup_iff_pairwise_ne, pairwise_iff_getElem]
  intro i j hi hj hij he
  rw [ServerUdp.issued, length_map] at hi hj
  simp only [ServerUdp.issued, getElem_map] at he
  have := h.token_inj hb (getElem?_eq_getElem hi) (getElem?_eq_getElem hj) he
  omega

/-- `remove_server_session` of one task leaves the entry of another. -/
theorem UdpInv.remove_other (h : UdpInv s) (hb : s.issued.length ≤ 2 ^ 64) (hts : s.tasks[i]? = some task)
    (he : s.sessions.lookup id = some ent) (hne : ent.sender ≠ i) :
    (removeServerSession s.sessions task.sessionId task.token).lookup id = some ent := by
  refine lookup_removeServerSession.mpr ⟨he, ?_⟩
  rintro ⟨-, htk⟩
  obtain ⟨t, ht, -, htoken', -⟩ := h.entry id ent he
  exact hne (h.token_inj hb ht hts (htoken'.trans htk))

/-- A step takes an entry out of the table only if it is the last step of the
session's own task, or clears the table. -/
theorem UdpInv.lookup_step (h : UdpInv s) (hb : s.issued.length ≤ 2 ^ 64)
    (hs : UdpStep ctx s s') (he : s.sessions.lookup id = some ent) :
    s'.sessions.lookup id = some ent ∨ (∃ task, s.tasks[ent.sender]? = some task ∧ task.state = .removing ∧
        s'.tasks[ent.sender]? = some { task with state := .finished }) ∨
      s.dispatcher = .leaving ∧ s'.dispatcher = .stopped := by
  cases hs with
  | insert hd =>
    grind [h.absent, AList.lookup_insert_ne]
  | clear hd => exact .inr (.inr ⟨hd, rfl⟩)
  | @remove i task ht hst =>
    by_cases hi : ent.sender = i
    · grind
    · exact .inl (h.remove_other hb ht he hi)
  | _ => exact .inl he

/-- The session table, in every state that the service can reach, as long as
`2 ^ 64` tokens were enough: one entry for each session ID, tokens that are all
distinct, and every entry that of a task that has not run its
`remove_server_session`. That step removes no entry of another task, so none
that was made after its own; and nothing else but the final clearing of the
table removes one. -/
theorem sessions_safe (context : ServerUdpContext σ τ κ) (world : σ) {s : ServerUdp σ τ}
    (run : ReflTransGen (UdpStep context) (.init world) s) (hbound : s.issued.length ≤ 2 ^ 64) :
    s.sessions.keys.Nodup ∧ s.issued.Nodup ∧
    (∀ id entry, s.sessions.lookup id = some entry → ∃ task, s.tasks[entry.sender]? = some task ∧
      task.sessionId = id ∧ task.token = entry.token ∧ task.state ≠ .finished) ∧
    (∀ (i : Nat) task, s.tasks[i]? = some task → ∀ id entry, s.sessions.lookup id = some entry → entry.sender ≠ i →
      (removeServerSession s.sessions task.sessionId task.token).lookup id = some entry) ∧
    ∀ s', UdpStep context s s' → ∀ id entry, s.sessions.lookup id = some entry → s'.sessions.lookup id = some entry ∨
      (∃ task, s.tasks[entry.sender]? = some task ∧ task.state = .removing ∧
        s'.tasks[entry.sender]? = some { task with state := .finished }) ∨
      s.dispatcher = .leaving ∧ s'.dispatcher = .stopped := by
  have h := udpInv_run run
  refine ⟨s.sessions.keys_nodup, h.issued_nodup hbound, h.entry, ?_, ?_⟩
  · intro i task ht id entry he hne
    exact h.remove_other hbound ht he hne
  · intro s' hs id entry he
    exact h.lookup_step hbound hs he

/-! ## Sessions that are refused at once -/

/-- A server whose ACL rejects everything. -/
def rejecting : ServerUdpContext Unit Unit Unit where
  trafficLogger := none
  authId := []
  outbound := rejectOutbound
  requestHook := none

/-- A task that was just entered for `sample`, up to its `remove_server_session`. -/
theorem rejected_task_run {s : ServerUdp Unit Unit} (hd : s.dispatcher = .inserted sample i)
    (ht : s.tasks[i]? = some ⟨sample.sessionId, token, [], false, .first {}⟩) :
    ReflTransGen (UdpStep rejecting) s { s with
      sessions := removeServerSession s.sessions sample.sessionId token
      dispatcher := .reading
      tasks := s.tasks.set i ⟨sample.sessionId, token, [], true, .finished⟩ } := by
  have hi := (List.getElem?_eq_some_iff.mp ht).1
  have hsp : (s.tasks.set i ⟨sample.sessionId, token, [sample], true, .first {}⟩)[i]? =
    some ⟨sample.sessionId, token, [sample], true, .first {}⟩ := List.getElem?_set_self hi
  have hr : (s.tasks.set i ⟨sample.sessionId, token, [], true, .removing⟩)[i]? =
    some ⟨sample.sessionId, token, [], true, .removing⟩ := List.getElem?_set_self hi
  have h1 : UdpStep rejecting s _ := .spawn hd ht
  have h2 : UdpStep rejecting { s with
      dispatcher := .reading
      tasks := s.tasks.set i ⟨sample.sessionId, token, [sample], true, .first {}⟩ } _ :=
    .receive hsp rfl rfl rfl
  have h3 : UdpStep rejecting { s with
      dispatcher := .reading
      tasks := s.tasks.set i ⟨sample.sessionId, token, [], true, .removing⟩ } _ := .remove hr rfl
  rw [List.set_set] at h2 h3
  exact .head h1 (.head h2 (.single h3))

/-- The session of `sample` is opened, rejected and removed. -/
theorem rejected_run {s : ServerUdp Unit Unit} (hd : s.dispatcher = .reading)
    (ha : s.sessions.lookup sample.sessionId = none) :
    ∃ s', ReflTransGen (UdpStep rejecting) s s' ∧ s'.dispatcher = .reading ∧
      s'.sessions.lookup sample.sessionId = none ∧ s'.tasks.length = s.tasks.length + 1 := by
  obtain ⟨bs, hen, -⟩ := UdpMessage.encode_ok (m := sample) (by decide)
  have hdc := UdpMessage.decode_encode hen (by decide) (by decide)
  have hl : UdpStep rejecting s _ := .lookup hd hdc rfl
  rw [ha] at hl
  have hi : UdpStep rejecting { s with dispatcher := .looked sample none } _ := .insert rfl
  refine ⟨_, .head hl (.head hi (rejected_task_run rfl getElem?_concat_length)), rfl, ?_, ?_⟩
  · rw [Option.eq_none_iff_forall_ne_some]
    intro ent he
    obtain ⟨he, hne⟩ := lookup_removeServerSession.mp he
    grind [AList.lookup_insert]
  · simp

theorem rejected_runs (n : Nat) : ∃ s, ReflTransGen (UdpStep rejecting) (.init ()) s ∧
    s.dispatcher = .reading ∧ s.sessions.lookup sample.sessionId = none ∧ s.tasks.length = n := by
  induction n with
  | zero => exact ⟨_, .refl, rfl, by simp [ServerUdp.init], rfl⟩
  | succ n ih =>
    obtain ⟨s, hr, hd, ha, hn⟩ := ih
    obtain ⟨s', hrun', hd', habs', hn'⟩ := rejected_run hd ha
    exact ⟨s', hr.trans hrun', hd', habs', by rw [hn', hn]⟩

/-- The token counter wraps: `2 ^ 64 + 1` sessions do not all have a token of
their own. -/
theorem sessions_token_repeats :
    ¬ ∀ s : ServerUdp Unit Unit, ReflTransGen (UdpStep rejecting) (.init ()) s → s.issued.Nodup := by
  intro h
  obtain ⟨s, hr, -, -, hn⟩ := rejected_runs (2 ^ 64 + 1)
  have hi := udpInv_run hr
  have h0 : 0 < s.tasks.length := by omega
  have h1 : 2 ^ 64 < s.tasks.length := by omega
  have hnd := h s hr
  rw [ServerUdp.issued, nodup_iff_pairwise_ne, pairwise_iff_getElem] at hnd
  refine hnd 0 (2 ^ 64) (by simpa using h0) (by simpa using h1) (by decide) ?_
  rw [getElem_map, getElem_map, hi.token 0 _ (getElem?_eq_getElem h0), hi.token (2 ^ 64) _ (getElem?_eq_getElem h1)]
  rfl

theorem sessions_safe_rejecting : ∃ s, ReflTransGen (UdpStep rejecting) (.init ()) s ∧ s.issued.length = 2 ∧
    s.issued.Nodup := by
  obtain ⟨s, hr, -, -, hn⟩ := rejected_runs 2
  have hl : s.issued.length = 2 := by simpa [ServerUdp.issued] using hn
  exact ⟨s, hr, hl, (sessions_safe rejecting () hr (by rw [hl]; decide)).2.1⟩

end Hysteria.Proof
