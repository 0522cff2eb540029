import Hysteria.Proof.Transport.SendQueue

/-!
# The send worker after the socket is gone

`Drop` sets `closed` and notifies the worker. The obfuscated and the Realm
socket use `notify_one`, whose permit the worker finds at its next poll. The
port hopping socket uses `notify_waiters`, which is lost on a worker that has
read `closed` and has not made its future yet (`DropLost`): it parks and nobody
notifies it again (`Stuck`).

`worker_stops_iff`: the worker of a dropped socket returns exactly when the
notification was not lost in this way.
-/

namespace Hysteria.Proof

open Framework Impl

variable {remote : SocketAddr} {kind : SocketKind} {s t : SendQueue} {ev : SendEvent} {evs : List SendEvent}

/-- The socket is gone, the worker is parked and there is no permit. -/
def Stuck (s : SendQueue) : Prop :=
  s.shared.closed = true ∧ s.worker = .waiting ∧ s.shared.queued = ⟨false, some .parked⟩

def byWorker : SendEvent → Bool
  | .pop | .sendError | .worker => true
  | _ => false

/-- However the others go on from `s`: the worker can take a step until it has
returned, it has returned after finitely many, and it is never stuck. -/
structure WorkerStops (remote : SocketAddr) (kind : SocketKind) (s : SendQueue) : Prop where
  notStuck : ∀ events t, Trace (QueueStep remote kind) s events t → ¬Stuck t
  runnable : ∀ events t, Trace (QueueStep remote kind) s events t → t.worker ≠ .returned → Runnable kind t
  returns : ∃ bound, ∀ events t, Trace (QueueStep remote kind) s events t → bound ≤ events.countP byWorker →
    t.worker = .returned

/-- The worker has read `closed` and goes on to park, and there is no permit. -/
def DropLost (s : SendQueue) : Prop :=
  s.shared.queued.permit = false ∧ (s.worker = .idle ∨ s.worker = .popping ∧ s.shared.queue = [])

/-! ## A worker that knows -/

/-- The socket is gone, and a worker on its way to the await will not park there. -/
structure Closing (s : SendQueue) : Prop where
  closed : s.shared.closed = true
  quiet : s.notifying = 0
  popping : s.worker = .popping → s.shared.queue = [] → s.shared.queued.permit = true
  idle : s.worker = .idle → s.shared.queued.permit = true
  waiting : s.worker = .waiting → ∃ permit, s.shared.queued.poll = (true, ⟨permit, none⟩)

/-- The steps a closing worker has left. -/
def stepsLeft (s : SendQueue) : Nat :=
  match s.worker with
  | .returned => 0
  | .checking => 1
  | .waiting | .failing _ => 2
  | .idle => 3
  | .sending _ packets => 3 + packets.length
  | .routing group => 4 + group.packets.length
  | .popping => 5 + (s.shared.queue.head?.elim 0 (·.packets.length))

theorem Closing.workerStep (h : Closing s) (step : WorkerStep kind s ev t) : Closing t ∧ stepsLeft t < stepsLeft s := by
  cases step with
  | goOn hw ho => simp [h.closed] at ho
  | empty hw hq =>
    refine ⟨⟨h.closed, h.quiet, by simp, fun _ => h.popping hw hq, by simp⟩, ?_⟩
    simp [stepsLeft, hw, hq]
  | pop hw hq =>
    refine ⟨⟨h.closed, h.quiet, by simp, by simp, by simp⟩, ?_⟩
    simp only [stepsLeft, hw, hq, List.head?_cons, Option.elim_some]
    omega
  | create hw =>
    have hpr := h.idle hw
    refine ⟨⟨h.closed, h.quiet, by simp, by simp, fun _ => ⟨false, ?_⟩⟩, ?_⟩
    · simp [Notify.notified, Notify.poll, hpr]
    · simp [stepsLeft, hw]
  | poll hw _ hp =>
    obtain ⟨permit, heq⟩ := h.waiting hw
    rw [heq] at hp
    cases hp
    exact ⟨⟨h.closed, h.quiet, by simp, by simp, by simp⟩, by simp [stepsLeft, hw]⟩
  | stop hw | route _ hw | send hw | fail _ hw | sendError hw | done hw =>
    refine ⟨⟨h.closed, h.quiet, by simp, by simp, by simp⟩, ?_⟩
    simp only [stepsLeft, hw, List.length_cons]
    omega

theorem Closing.callerStep (h : Closing s) (step : CallerStep remote kind s ev t) :
    Closing t ∧ stepsLeft t = stepsLeft s ∧ byWorker ev = false := by
  cases step with
  | trySend ho | drop ho => simp [h.closed] at ho
  | notify hn => simp [h.quiet] at hn
  | pollWritable waker =>
    obtain ⟨err, waiters, heq, -⟩ := pollWritable_cases waker s.shared
    rw [heq]
    exact ⟨⟨h.closed, h.quiet, h.popping, h.idle, h.waiting⟩, rfl, rfl⟩

theorem Closing.step (h : Closing s) (step : QueueStep remote kind s ev t) :
    Closing t ∧ stepsLeft t + (if byWorker ev then 1 else 0) ≤ stepsLeft s := by
  rcases step with step | step
  · obtain ⟨ht, hl⟩ := h.workerStep step
    refine ⟨ht, ?_⟩
    split <;> omega
  · obtain ⟨ht, hs, hev⟩ := h.callerStep step
    simp [ht, hs, hev]

theorem Closing.run (h : Closing s) (run : Trace (QueueStep remote kind) s evs t) :
    Closing t ∧ stepsLeft t + evs.countP byWorker ≤ stepsLeft s := by
  induction run with
  | nil => exact ⟨h, le_rfl⟩
  | cons step _ ih =>
    obtain ⟨hn, hl⟩ := h.step step
    grind

theorem Closing.notStuck (h : Closing s) : ¬Stuck s := by
  rintro ⟨-, hw, hq⟩
  obtain ⟨permit, hp⟩ := h.waiting hw
  simp [hq, Notify.poll] at hp

theorem Closing.runnable (h : Closing s) (hw : s.worker ≠ .returned) : Runnable kind s := by
  refine runnable_iff.2 ⟨hw, ?_⟩
  intro hwt hp
  obtain ⟨permit, hpl⟩ := h.waiting hwt
  simp [Notify.poll, hp] at hpl

theorem stepsLeft_eq_zero (h : stepsLeft s = 0) : s.worker = .returned := by
  unfold stepsLeft at h
  split at h <;> first | assumption | omega

theorem Closing.workerStops (h : Closing s) : WorkerStops remote kind s where
  notStuck _ _ run := (h.run run).1.notStuck
  runnable _ _ run := (h.run run).1.runnable
  returns := by
    refine ⟨stepsLeft s, ?_⟩
    intro evs t run hb
    have hl := (h.run run).2
    exact stepsLeft_eq_zero (by omega)

/-! ## The drop -/

theorem closing_notifyOne (ha : Awaits s) (hqt : s.notifying = 0) (hk : kind ≠ .hopping) :
    Closing (s.dropped kind) := by
  have hq : (s.dropped kind).shared.queued = s.shared.queued.notifyOne := by
    cases kind <;> first | rfl | exact absurd rfl hk
  have hp (hw : s.worker ≠ .waiting) : s.shared.queued.notifyOne.permit = true := by
    rcases Notify.notifyOne_kept s.shared.queued with hp | hwk
    · exact hp
    have hs := Notify.isSome_notifyOne s.shared.queued
    rw [hwk] at hs
    exact absurd (ha.future.2 hs.symm) hw
  refine ⟨rfl, hqt, fun hw _ => ?_, fun hw => ?_, fun hw => ?_⟩
  · rw [hq]
    exact hp (by simp [show s.worker = .popping from hw])
  · rw [hq]
    exact hp (by simp [show s.worker = .idle from hw])
  · rw [hq]
    exact Notify.poll_notifyOne (ha.future.1 hw)

theorem closing_notifyWaiters (ha : Awaits s) (hqt : s.notifying = 0) (hl : ¬DropLost s) :
    Closing (s.dropped .hopping) := by
  have hp (h : s.worker = .idle ∨ s.worker = .popping ∧ s.shared.queue = []) :
      s.shared.queued.notifyWaiters.permit = true := by
    rw [Notify.notifyWaiters_permit]
    by_contra hno
    exact hl ⟨by simpa using hno, h⟩
  exact ⟨rfl, hqt, fun hw hq => hp (.inr ⟨hw, hq⟩), fun hw => hp (.inl hw),
    fun hw => Notify.poll_notifyWaiters (ha.future.1 hw)⟩

/-- A worker that finds the queue empty parks when there is no permit. -/
theorem idle_parks (hw : s.worker = .idle) (hp : s.shared.queued.permit = false) :
    ∃ evs t, Trace (QueueStep remote kind) s evs t ∧ t.shared.closed = s.shared.closed ∧
      t.worker = .waiting ∧ t.shared.queued = ⟨false, some .parked⟩ := by
  have ha : s.shared.queued.notified.Awake := by simp [Notify.notified, Notify.Awake]
  have hpl : s.shared.queued.notified.poll = (false, ⟨false, some .parked⟩) := by
    simp [Notify.notified, Notify.poll, hp]
  exact ⟨[.worker, .worker], _, .cons (.worker (.create hw)) (.single (.worker (.poll rfl ha hpl))), rfl, rfl, rfl⟩

theorem dropLost_stuck (hl : DropLost s) :
    ∃ evs t, Trace (QueueStep remote .hopping) (s.dropped .hopping) evs t ∧ Stuck t := by
  obtain ⟨hp, hw⟩ := hl
  have hperm' := (Notify.notifyWaiters_permit _).trans hp
  rcases hw with hw | ⟨hw, hq⟩
  · obtain ⟨evs, t, run, hcl, ht⟩ := idle_parks (s := s.dropped .hopping) hw hperm'
    exact ⟨evs, t, run, hcl, ht⟩
  have step : QueueStep remote .hopping (s.dropped .hopping) .worker
      { s.dropped .hopping with worker := .idle } := .worker (.empty hw hq)
  obtain ⟨evs, t, run, hcl, ht⟩ := idle_parks (s := { s.dropped .hopping with worker := .idle }) rfl hperm'
  exact ⟨.worker :: evs, t, .cons step run, hcl, ht⟩

/-- The worker of a socket that is dropped in a reachable state. -/
theorem worker_stops_iff (remote : SocketAddr) (kind : SocketKind) (events : List SendEvent) (s : SendQueue)
    (run : Trace (QueueStep remote kind) .new events s) (hquiet : s.notifying = 0) :
    WorkerStops remote kind (s.dropped kind) ↔ kind ≠ .hopping ∨ ¬DropLost s := by
  have ha := (queueInvariant run).awaits
  constructor
  · intro hs
    by_contra hb
    simp only [ne_eq, not_or, not_not] at hb
    obtain ⟨rfl, hl⟩ := hb
    obtain ⟨events, t, run, hst⟩ := dropLost_stuck hl
    exact hs.notStuck events t run hst
  · intro h
    by_cases hk : kind = .hopping
    · subst hk
      have hl : ¬DropLost s := h.resolve_left (by simp)
      exact (closing_notifyWaiters ha hquiet hl).workerStops
    · exact (closing_notifyOne ha hquiet hk).workerStops

/-- A Realm socket is dropped when its worker has just found the queue empty. -/
theorem worker_stops_iff_realm : WorkerStops examplePeer .realm
      (SendQueue.dropped .realm ⟨⟨[], [], none, ⟨false, none⟩, false⟩, .idle, 0, [], [], []⟩) := by
  refine (worker_stops_iff examplePeer .realm [.worker, .worker] _ ?_ rfl).2 (.inl (by decide))
  exact .cons (.worker (.goOn rfl rfl)) (.single (.worker (.empty rfl rfl)))

/-- Nothing the pollers do gets the worker out of `Stuck`. -/
theorem Stuck.step (h : Stuck s ∧ s.notifying = 0) (step : QueueStep remote kind s ev t) :
    Stuck t ∧ t.notifying = 0 := by
  obtain ⟨⟨hcl, hw, hq⟩, hqt⟩ := h
  rcases step with step | step
  · have hr : Runnable kind s := ⟨ev, t, step⟩
    have ha := (runnable_iff.1 hr).2 hw
    simp [Notify.Awake, hq] at ha
  cases step with
  | trySend ho | drop ho => simp [hcl] at ho
  | notify hn => simp [hqt] at hn
  | pollWritable waker =>
    obtain ⟨err, waiters, heq, -⟩ := pollWritable_cases waker s.shared
    rw [heq]
    exact ⟨⟨hcl, hw, hq⟩, hqt⟩

/-- A hopping socket is dropped just after its worker has read `closed`: the
worker parks and, whatever comes, it never returns. -/
theorem hopping_worker_stuck :
    ∃ s, Trace (QueueStep examplePeer .hopping) .new [.worker, .drop, .worker, .worker, .worker] s ∧ Stuck s ∧
      ∀ events t, Trace (QueueStep examplePeer .hopping) s events t → t.worker ≠ .returned := by
  have ha : Notify.new.notified.Awake := by simp [Notify.Awake, Notify.notified]
  have hp : Notify.new.notified.poll = (false, ⟨false, some .parked⟩) := rfl
  refine ⟨⟨⟨[], [], none, ⟨false, some .parked⟩, true⟩, .waiting, 0, [], [], []⟩, ?_, ⟨rfl, rfl, rfl⟩, ?_⟩
  · refine .cons (.worker (.goOn rfl rfl)) ?_
    refine .cons (.caller (.drop rfl rfl)) ?_
    refine .cons (.worker (.empty rfl rfl)) ?_
    refine .cons (.worker (.create rfl)) ?_
    exact .single (.worker (@WorkerStep.poll _ _ false _ rfl ha hp))
  · intro events t run
    have hs := run.invariant (I := fun s => Stuck s ∧ s.notifying = 0) (fun _ _ _ h step => Stuck.step h step)
      ⟨⟨rfl, rfl, rfl⟩, rfl⟩
    simp [hs.1.2.1]

end Hysteria.Proof
