import Mathlib.Data.UInt
import Hysteria.Framework.Transition
import Hysteria.Impl.Realm.Session

/-!
# Heartbeats and the TTL

`run_session` makes its timer from the TTL of the registration and keeps it when a
heartbeat grants another TTL. `InSession` is what this leaves true along a session
(`inSession_step`, `inSession_run`); so the session is refreshed in time exactly
when no heartbeat grants less than half the TTL of the registration
(`session_refreshed`).
-/

namespace Hysteria.Proof

open Framework Impl List

/-- The TTL in an answer of the rendezvous server. -/
def SupervisorEvent.granted : SupervisorEvent → Option UInt64
  | .heartbeat (.ok response) => some response.ttl
  | .register (.ok registration) _ => some registration.ttl
  | _ => none

/-- The TTL most recently granted, at first `ttl`. -/
def lastGranted (ttl : UInt64) (es : List SupervisorEvent) : UInt64 :=
  es.foldl (fun ttl e => (SupervisorEvent.granted e).getD ttl) ttl

/-- Heartbeats are answered, and the event stream does not end. -/
def SupervisorEvent.Succeeds : SupervisorEvent → Prop
  | .heartbeat answer => answer.isOk = true
  | .event item => ∃ event, item = .ok (some event)
  | _ => True

/-- The next heartbeat is sent before `ttl` ends. -/
def Refreshed (ttl : UInt64) (s : Supervisor) : Prop :=
  ∃ timer, s.waiting = .session timer ∧ timer.deadline - s.now ≤ fromSecs ttl.toNat

/-- The session of a registration, `ttl` being the last that was granted. -/
structure InSession (registration ttl : UInt64) (s : Supervisor) (timer : Interval) : Prop where
  heartbeatInterval : s.heartbeatInterval = none
  waiting : s.waiting = .session timer
  period : timer.period = fromSecs (registration.toNat / 2)
  due : s.now ≤ timer.deadline
  near : timer.deadline ≤ s.now + timer.period
  ttl_eq : s.ttl = ttl

theorem fromSecs_le {a b : Nat} : fromSecs a ≤ fromSecs b ↔ a ≤ b := by
  unfold fromSecs
  omega

theorem interval_of_ttl {s : Supervisor} (hn : s.heartbeatInterval = none) (h : 2 ≤ s.ttl.toNat) :
    s.interval = fromSecs (s.ttl.toNat / 2) := by
  rw [Supervisor.interval, hn, Option.getD_none, Nat.max_eq_left h]
  exact Nat.max_eq_left (fromSecs_le.2 (by omega))

theorem start_session (now : Nat) {registration : RegisterResponse} (h : 2 ≤ registration.ttl.toNat) :
    Supervisor.start none now registration (.ok ()) =
      { heartbeatInterval := none, now, sessionId := registration.sessionId, ttl := registration.ttl
        waiting := .session
          ⟨fromSecs (registration.ttl.toNat / 2), now + fromSecs (registration.ttl.toNat / 2)⟩ } := by
  let s : Supervisor := ⟨none, now, registration.sessionId, registration.ttl, .register now⟩
  have hi : s.interval = fromSecs (registration.ttl.toNat / 2) := interval_of_ttl rfl h
  have hp : s.interval ≠ 0 := by
    rw [hi, fromSecs]
    omega
  change s.runSession (.ok ()) = _
  rw [Supervisor.runSession, if_neg hp, Interval.tick_start, hi]

theorem inSession_start (now : Nat) {registration : RegisterResponse} (h : 2 ≤ registration.ttl.toNat) :
    InSession registration.ttl registration.ttl (.start none now registration (.ok ()))
      ⟨fromSecs (registration.ttl.toNat / 2), now + fromSecs (registration.ttl.toNat / 2)⟩ := by
  rw [start_session now h]
  exact ⟨rfl, rfl, rfl, Nat.le_add_right _ _, Nat.le_refl _, rfl⟩

section Session

variable {registration ttl : UInt64} {s t : Supervisor} {timer : Interval} {e : SupervisorEvent}

/-- A step of a session leaves the timer, unless it is a heartbeat; then the next one
is a period away. -/
theorem inSession_step (h : InSession registration ttl s timer) (step : SupervisorStep s e t)
    (ho : SupervisorEvent.Succeeds e) (hg : ∀ ttl ∈ SupervisorEvent.granted e, 2 ≤ ttl.toNat) :
    ∃ next, InSession registration ((SupervisorEvent.granted e).getD ttl) t next ∧
      ∀ ttl ∈ SupervisorEvent.granted e, next.deadline = t.now + next.period := by
  cases step with
  | elapse time hd =>
    refine ⟨timer, { h with due := ?_, near := ?_ }, fun _ hm => by cases hm⟩
    · exact hd _ (by rw [h.waiting]; rfl)
    have := h.near
    dsimp only
    omega
  | @heartbeat _ next ans hw ht =>
    rw [h.waiting] at hw
    cases hw
    obtain ⟨-, hp, -, hn⟩ := Interval.tick_some ht
    have hn := hn h.due
    rcases ans with msg | resp
    · cases ho
    have hne : resp.ttl ≠ 0 := by
      intro hz
      have := hg _ rfl
      simp_all
    refine ⟨next, ⟨h.heartbeatInterval, rfl, hp.trans h.period, ?_, ?_, ?_⟩, fun _ _ => ?_⟩
    · rw [hn]
      exact Nat.le_add_right _ _
    · rw [hn, hp]
      exact Nat.le_refl _
    · change (if s.heartbeatInterval.isNone ∧ resp.ttl ≠ 0 then resp.ttl else s.ttl) = resp.ttl
      rw [if_pos ⟨by rw [h.heartbeatInterval]; rfl, hne⟩]
    · rw [hn, hp]
      rfl
  | event item hw =>
    obtain ⟨ev, rfl⟩ := ho
    exact ⟨timer, h, fun _ hm => by cases hm⟩
  | register ans stream hw =>
    rw [h.waiting] at hw
    cases hw

theorem inSession_run {es : List SupervisorEvent} (run : Trace SupervisorStep s es t)
    (h : InSession registration ttl s timer) (ho : ∀ e ∈ es, SupervisorEvent.Succeeds e)
    (hg : ∀ e ∈ es, ∀ ttl ∈ SupervisorEvent.granted e, 2 ≤ ttl.toNat) :
    ∃ timer, InSession registration (lastGranted ttl es) t timer := by
  induction run generalizing ttl timer with
  | nil => exact ⟨timer, h⟩
  | cons step _ ih =>
    rw [forall_mem_cons] at ho hg
    obtain ⟨next, hn, -⟩ := inSession_step h step ho.1 hg.1
    exact ih hn ho.2 hg.2

end Session

theorem lastGranted_mem (ttl : UInt64) (es : List SupervisorEvent) :
    lastGranted ttl es = ttl ∨ ∃ e ∈ es, lastGranted ttl es ∈ SupervisorEvent.granted e := by
  induction es generalizing ttl with
  | nil => exact .inl rfl
  | cons e es ih =>
    obtain heq | ⟨e', hm, hg⟩ := ih ((SupervisorEvent.granted e).getD ttl)
    · change lastGranted ttl (e :: es) = _ at heq
      rw [heq]
      rcases h : SupervisorEvent.granted e with _ | granted
      · exact .inl rfl
      · exact .inr ⟨e, mem_cons_self, h⟩
    · exact .inr ⟨e', mem_cons_of_mem _ hm, hg⟩

/-- A session is refreshed in time, at every moment, exactly when every heartbeat grants
at least half the TTL of the registration. -/
theorem session_refreshed (now : Nat) (registration : RegisterResponse) (httl : 2 ≤ registration.ttl.toNat)
    {es : List SupervisorEvent} {s : Supervisor}
    (run : Trace SupervisorStep (.start none now registration (.ok ())) es s)
    (hopen : ∀ e ∈ es, SupervisorEvent.Succeeds e)
    (hgranted : ∀ e ∈ es, ∀ ttl ∈ SupervisorEvent.granted e, 2 ≤ ttl.toNat) :
    (∀ before after moment, es = before ++ after →
        Trace SupervisorStep (.start none now registration (.ok ())) before moment →
        Refreshed (lastGranted registration.ttl before) moment) ↔
      ∀ e ∈ es, ∀ ttl ∈ SupervisorEvent.granted e, registration.ttl.toNat / 2 ≤ ttl.toNat := by
  have hb := inSession_start now httl
  constructor
  · intro hr e he ttl hmm
    obtain ⟨before, after, rfl⟩ := append_of_mem he
    obtain ⟨m, first, rest⟩ := run.split
    cases rest with
    | @cons _ m' _ _ _ step rest =>
    obtain ⟨timer, hm⟩ := inSession_run first hb (fun e h => hopen e (mem_append_left _ h))
      (fun e h => hgranted e (mem_append_left _ h))
    obtain ⟨next, hm', hn⟩ := inSession_step hm step (hopen e he) (hgranted e he)
    obtain ⟨timer', hw, hle⟩ := hr (before ++ [e]) after m' (by simp) (first.append (.single step))
    rw [hm'.waiting] at hw
    cases hw
    have hl : lastGranted registration.ttl (before ++ [e]) = ttl := by
      rw [lastGranted, foldl_concat, Option.mem_def.1 hmm, Option.getD_some]
    rw [hl, hn ttl hmm, Nat.add_sub_cancel_left, hm'.period] at hle
    exact fromSecs_le.1 hle
  · intro hh before after moment heq first
    subst heq
    obtain ⟨timer, hm⟩ := inSession_run first hb (fun e h => hopen e (mem_append_left _ h))
      (fun e h => hgranted e (mem_append_left _ h))
    have hl : registration.ttl.toNat / 2 ≤ (lastGranted registration.ttl before).toNat := by
      obtain heq | ⟨e, he, hmm⟩ := lastGranted_mem registration.ttl before
      · rw [heq]
        omega
      · exact hh e (mem_append_left _ he) _ hmm
    refine ⟨timer, hm.waiting, ?_⟩
    have hnr := hm.near
    rw [hm.period] at hnr
    have hs := fromSecs_le.2 hl
    omega

/-! ## Two sessions -/

/-- The heartbeat of a session of 60 seconds, after half of it. -/
theorem trace_heartbeat (ans : Except Str HeartbeatResponse) : Trace SupervisorStep (.start none 0 ⟨"s", 60⟩ (.ok ()))
      [.elapse (fromSecs 30), .heartbeat ans]
      (Supervisor.heartbeat ⟨none, fromSecs 30, "s", 60, .session ⟨fromSecs 30, fromSecs 30⟩⟩
        ⟨fromSecs 30, fromSecs 60⟩ ans) := by
  have hb : Supervisor.start none 0 ⟨"s", 60⟩ (.ok ()) =
      ⟨none, 0, "s", 60, .session ⟨fromSecs 30, fromSecs 30⟩⟩ := by
    rw [start_session 0 (by decide), Nat.zero_add]
    rfl
  have ht : (Interval.mk (fromSecs 30) (fromSecs 30)).tick (fromSecs 30) = some ⟨fromSecs 30, fromSecs 60⟩ := by
    simp [Interval.tick, fromSecs]
  rw [hb]
  refine .cons (.elapse (fromSecs 30) fun due hd => ?_) (.single (.heartbeat ans rfl ht))
  cases hd
  exact Nat.le_of_eq (Nat.zero_add _)

theorem session_refreshed_same : ∃ moment, Trace SupervisorStep (.start none 0 ⟨"s".toList, 60⟩ (.ok ()))
        [.elapse (fromSecs 30), .heartbeat (.ok ⟨60⟩)] moment ∧
      Refreshed (lastGranted 60 [.elapse (fromSecs 30), .heartbeat (.ok ⟨60⟩)]) moment :=
  ⟨_, trace_heartbeat (.ok ⟨60⟩), (session_refreshed 0 ⟨"s", 60⟩ (by decide) (trace_heartbeat (.ok ⟨60⟩))
      (by simp [SupervisorEvent.Succeeds, Except.isOk, Except.toBool])
      (by simp [SupervisorEvent.granted])).2 (by simp [SupervisorEvent.granted])
      _ [] _ (append_nil _).symm (trace_heartbeat (.ok ⟨60⟩))⟩

/-- A heartbeat that grants 10 seconds is followed by the next after 30. -/
theorem session_outlives_ttl : ∃ moment, Trace SupervisorStep (.start none 0 ⟨"s".toList, 60⟩ (.ok ()))
        [.elapse (fromSecs 30), .heartbeat (.ok ⟨10⟩)] moment ∧
      ¬ Refreshed (lastGranted 60 [.elapse (fromSecs 30), .heartbeat (.ok ⟨10⟩)]) moment := by
  refine ⟨_, trace_heartbeat (.ok ⟨10⟩), ?_⟩
  rintro ⟨timer, ⟨⟩, hle⟩
  exact absurd hle (by decide)

end Hysteria.Proof
