import Mathlib.Data.List.Forall2
import Hysteria.Impl.Transport.SendQueue

/-!
# The discipline of the send queue

What holds in every state of every run of a socket, its pollers and its worker.
`call_cases` and `pollWritable_cases` say once what a call can do to
the shared state; the invariants are read off them step by step:

* `Bounded`: the queue keeps to its capacity;
* `InOrder`: what went to the UDP socket is, group by group, a beginning of the
  accepted groups;
* `Covered`: a group in the queue is noticed by the worker.

`queue_disciplined` puts them together with the fate of a task that waits to
write.
-/

namespace Hysteria.Proof

open Framework Impl List

variable {remote : SocketAddr} {kind : SocketKind} {s t : SendQueue} {ev : SendEvent}

/-! ## What a call does -/

/-- A refused call changes the error slot at most; an accepted one adds the group of its transmit. -/
theorem trySend_cases (codec : Option Encoder) (dst : SocketAddr) (tr : Transmit) (st : SharedSendState) :
    (∃ e err, st.trySend codec dst tr = (.error e, { st with error := err })) ∨
    ∃ group, tr.group codec dst = some group ∧ st.queue.length < sendQueueCapacity ∧
      st.trySend codec dst tr = (.ok (), { st with queue := st.queue ++ [group] }) := by
  unfold SharedSendState.trySend Transmit.group
  split
  case h_1 err _ => exact .inl ⟨err, none, rfl⟩
  case h_2 =>
    split
    case isTrue => exact .inl ⟨.wouldBlock, st.error, rfl⟩
    case isFalse hs =>
      split
      case h_1 err _ => exact .inl ⟨err, st.error, rfl⟩
      case h_2 packets hp => exact .inr ⟨⟨dst, packets⟩, by rw [hp]; rfl, Nat.lt_of_not_le hs, rfl⟩

theorem call_cases {st : SharedSendState} {group : Option OutgoingDatagrams}
    {outcome : Except IoError Unit × SharedSendState} (h : TrySend remote kind st group outcome) :
    (∃ e err, outcome = (.error e, { st with error := err })) ∨
    ∃ made, group = some made ∧ st.queue.length < sendQueueCapacity ∧
      outcome = (.ok (), { st with queue := st.queue ++ [made] }) := by
  cases h with
  | obfuscated codec tr => exact trySend_cases (some codec) tr.destination tr st
  | realm codec tr => exact trySend_cases codec tr.destination tr st
  | hopping codec tr => exact trySend_cases codec remote tr st

theorem pollWritable_cases (waker : Waker) (st : SharedSendState) :
    ∃ err waiters, (st.pollWritable waker).2 = { st with error := err, waiters } ∧
      (∀ w ∈ st.waiters, w ∈ waiters) ∧ ((st.pollWritable waker).1 = .pending → waker ∈ waiters) := by
  unfold SharedSendState.pollWritable
  split
  case h_1 => simp
  case h_2 =>
    split
    case isTrue => grind
    case isFalse =>
      split
      case isTrue h => grind
      grind

/-! ## Capacity -/

def WithinCapacity (s : SendQueue) : Prop := s.shared.queue.length ≤ sendQueueCapacity

theorem WithinCapacity.step (h : WithinCapacity s) (step : QueueStep remote kind s ev t) : WithinCapacity t := by
  rcases step with step | step
  · cases step with
    | pop _ hq =>
      simp only [WithinCapacity, hq, length_cons] at h ⊢
      omega
    | _ => exact h
  · cases step with
    | trySend _ hc =>
      rcases call_cases hc with ⟨e, err, rfl⟩ | ⟨made, -, hl, rfl⟩
      · exact h
      · simp only [WithinCapacity, SendQueue.tried, length_append, length_singleton]
        omega
    | pollWritable waker =>
      obtain ⟨err, waiters, heq, -⟩ := pollWritable_cases waker s.shared
      simpa only [WithinCapacity, heq] using h
    | notify | drop => exact h

/-! ## Order -/

/-- The datagrams of a group, as they go to the UDP socket. -/
def Addressed (kind : SocketKind) (group : OutgoingDatagrams) (datagrams : List (SocketAddr × List UInt8)) : Prop :=
  ∃ remote, datagrams = group.packets.map (kind.route remote group, ·)

/-- `part` is a beginning of the datagrams of the group. -/
def PartOf (kind : SocketKind) (part : List (SocketAddr × List UInt8)) (group : OutgoingDatagrams) : Prop :=
  ∃ datagrams, Addressed kind group datagrams ∧ part <+: datagrams

/-- The accepted groups are those the worker took and those in the queue, and of
each that it took a part went to the UDP socket, one group after the other. -/
def InOrder (kind : SocketKind) (s : SendQueue) : Prop := ∃ taken parts, s.accepted = taken ++ s.shared.queue ∧
    List.Forall₂ (PartOf kind) parts taken ∧ s.handed = parts.flatten

/-- The group in the hands of the worker and what of it went to the UDP socket. -/
def InHand (kind : SocketKind) : Worker → List OutgoingDatagrams → List (SocketAddr × List UInt8) → Prop
  | .routing group, groups, begun => groups = [group] ∧ begun = []
  | .sending destination packets, groups, begun =>
    ∃ group, groups = [group] ∧ Addressed kind group (begun ++ packets.map (destination, ·))
  | _, groups, begun => groups = [] ∧ begun = []

/-- `InOrder`, with the group in the hands of the worker apart. -/
def Ordered (kind : SocketKind) (s : SendQueue) : Prop :=
  ∃ taken inHand parts begun, s.accepted = taken ++ inHand ++ s.shared.queue ∧
    List.Forall₂ (PartOf kind) parts taken ∧ s.handed = parts.flatten ++ begun ∧ InHand kind s.worker inHand begun

theorem PartOf.nil (group : OutgoingDatagrams) : PartOf kind [] group := ⟨_, ⟨group.destination, rfl⟩, nil_prefix⟩

theorem forall₂_snoc {part : List (SocketAddr × List UInt8)} {group : OutgoingDatagrams}
    {parts : List (List (SocketAddr × List UInt8))} {taken : List OutgoingDatagrams}
    (h : List.Forall₂ (PartOf kind) parts taken) (hp : PartOf kind part group) :
    List.Forall₂ (PartOf kind) (parts ++ [part]) (taken ++ [group]) :=
  rel_append h (.cons hp .nil)

theorem Ordered.inOrder (h : Ordered kind s) : InOrder kind s := by
  obtain ⟨taken, inHand, parts, begun, ha, hps, hh, hc⟩ := h
  unfold InHand at hc
  split at hc
  case h_1 =>
    obtain ⟨rfl, rfl⟩ := hc
    exact ⟨_, _, ha, forall₂_snoc hps (PartOf.nil _), by simpa using hh⟩
  case h_2 =>
    obtain ⟨group, rfl, hg⟩ := hc
    exact ⟨_, _, ha, forall₂_snoc hps ⟨_, hg, prefix_append _ _⟩, by simpa using hh⟩
  case h_3 =>
    obtain ⟨rfl, rfl⟩ := hc
    exact ⟨taken, parts, by simpa using ha, hps, by simpa using hh⟩

theorem Ordered.workerStep (h : Ordered kind s) (step : WorkerStep kind s ev t) : Ordered kind t := by
  obtain ⟨taken, inHand, parts, begun, ha, hps, hh, hc⟩ := h
  cases step with
  | stop hw | goOn hw | empty hw | create hw | sendError hw =>
    rw [hw] at hc
    exact ⟨taken, inHand, parts, begun, ha, hps, hh, hc⟩
  | @poll ready queued hw =>
    rw [hw] at hc
    cases ready <;> exact ⟨taken, inHand, parts, begun, ha, hps, hh, hc⟩
  | @pop group rest hw hq =>
    rw [hw] at hc
    obtain ⟨rfl, rfl⟩ := hc
    refine ⟨taken, [group], parts, [], ?_, hps, hh, rfl, rfl⟩
    simpa [SendQueue.wakeWriters, hq] using ha
  | @route group remote hw =>
    rw [hw] at hc
    obtain ⟨rfl, rfl⟩ := hc
    exact ⟨taken, [group], parts, [], ha, hps, hh, group, rfl, remote, rfl⟩
  | @send dst pkt pkts hw =>
    rw [hw] at hc
    obtain ⟨group, rfl, hg⟩ := hc
    refine ⟨taken, [group], parts, begun ++ [(dst, pkt)], ha, hps, ?_, group, rfl, ?_⟩
    · simp [hh]
    · simpa using hg
  -- The rest of the group is given up: what was handed of it counts as its part.
  | @fail dst pkt pkts err hw =>
    rw [hw] at hc
    obtain ⟨group, rfl, hg⟩ := hc
    have hp : PartOf kind (begun ++ [(dst, pkt)]) group := ⟨_, hg, pkts.map (dst, ·), by simp⟩
    refine ⟨taken ++ [group], [], parts ++ [begun ++ [(dst, pkt)]], [], ?_, forall₂_snoc hps hp, ?_, rfl, rfl⟩
    · simpa using ha
    · simp [hh]
  | @done dst hw =>
    rw [hw] at hc
    obtain ⟨group, rfl, hg⟩ := hc
    refine ⟨taken ++ [group], [], parts ++ [begun], [], ?_, forall₂_snoc hps ⟨_, hg, prefix_append _ _⟩, ?_, rfl, rfl⟩
    · simpa using ha
    · simp [hh]

theorem Ordered.callerStep (h : Ordered kind s) (step : CallerStep remote kind s ev t) : Ordered kind t := by
  obtain ⟨taken, inHand, parts, begun, ha, hps, hh, hc⟩ := h
  cases step with
  | trySend _ hcl =>
    rcases call_cases hcl with ⟨e, err, rfl⟩ | ⟨made, rfl, -, rfl⟩
    · exact ⟨taken, inHand, parts, begun, ha, hps, hh, hc⟩
    · refine ⟨taken, inHand, parts, begun, ?_, hps, hh, hc⟩
      simp [SendQueue.tried, ha]
  | pollWritable waker =>
    obtain ⟨err, waiters, heq, -⟩ := pollWritable_cases waker s.shared
    rw [heq]
    exact ⟨taken, inHand, parts, begun, ha, hps, hh, hc⟩
  | notify | drop => exact ⟨taken, inHand, parts, begun, ha, hps, hh, hc⟩

/-! ## The worker notices a group -/

/-- The worker can take a step. -/
def Runnable (kind : SocketKind) (s : SendQueue) : Prop := ∃ event t, WorkerStep kind s event t

theorem runnable_iff : Runnable kind s ↔ s.worker ≠ .returned ∧ (s.worker = .waiting → s.shared.queued.Awake) := by
  constructor
  · rintro ⟨ev, t, step⟩
    cases step <;> simp_all
  rintro ⟨hr, ha⟩
  match hw : s.worker with
  | .checking =>
    cases hcl : s.shared.closed with
    | true => exact ⟨_, _, .stop hw hcl⟩
    | false => exact ⟨_, _, .goOn hw hcl⟩
  | .popping =>
    match hq : s.shared.queue with
    | [] => exact ⟨_, _, .empty hw hq⟩
    | _ :: _ => exact ⟨_, _, .pop hw hq⟩
  | .idle => exact ⟨_, _, .create hw⟩
  | .waiting => exact ⟨_, _, .poll hw (ha hw) rfl⟩
  | .routing group => exact ⟨_, _, .route group.destination hw⟩
  | .sending _ [] => exact ⟨_, _, .done hw⟩
  | .sending _ (_ :: _) => exact ⟨_, _, .send hw⟩
  | .failing _ => exact ⟨_, _, .sendError hw⟩
  | .returned => exact absurd hw hr

/-- The future of the worker exists while it waits, and the permit is gone when it parks. -/
structure Awaits (s : SendQueue) : Prop where
  future : s.worker = .waiting ↔ s.shared.queued.waiter.isSome = true
  permit : s.shared.queued.waiter = some .parked → s.shared.queued.permit = false

theorem Awaits.of_awake (hf : s.worker = .waiting ↔ s.shared.queued.waiter.isSome = true)
    (ha : s.shared.queued.Awake) : Awaits s :=
  ⟨hf, fun h => absurd h ha⟩

theorem Awaits.step (h : Awaits s) (step : QueueStep remote kind s ev t) : Awaits t := by
  rcases step with step | step
  · cases step with
    | stop hw | goOn hw | pop hw | empty hw | route _ hw | send hw | fail _ hw | sendError hw | done hw =>
      have hf := h.future
      rw [hw] at hf
      exact ⟨by simpa [SendQueue.wakeWriters] using hf, h.permit⟩
    | create hw => exact .of_awake (by simp [Notify.notified]) (by simp [Notify.notified, Notify.Awake])
    | poll hw ha hp =>
      rcases Notify.poll_cases (h.future.1 hw) ha with ⟨permit, heq⟩ | ⟨-, heq⟩
      all_goals
        rw [heq] at hp
        cases hp
        exact ⟨by simp, by simp⟩
  · cases step with
    | trySend _ hc =>
      rcases call_cases hc with ⟨e, err, rfl⟩ | ⟨made, -, -, rfl⟩ <;> exact ⟨h.future, h.permit⟩
    | pollWritable waker =>
      obtain ⟨err, waiters, heq, -⟩ := pollWritable_cases waker s.shared
      rw [heq]
      exact ⟨h.future, h.permit⟩
    | notify => exact .of_awake (by simpa using h.future) (Notify.awake_notifyOne _)
    | drop =>
      cases kind with
      | obfuscated | realm =>
        exact .of_awake (by simpa [SendQueue.dropped, SharedSendState.drop] using h.future) (Notify.awake_notifyOne _)
      | hopping =>
        refine .of_awake ?_ (Notify.awake_notifyWaiters _)
        simpa [SendQueue.dropped, SharedSendState.drop] using h.future

/-- There is a reason for the worker to look at the queue again. -/
def Noticed (s : SendQueue) : Prop :=
  s.shared.queued.permit = true ∨ s.shared.queued.waiter = some .woken ∨ 0 < s.notifying

/-- A worker that has found the queue empty looks again if a group came in. -/
structure Covered (s : SendQueue) : Prop where
  noticed : s.worker = .idle ∨ s.worker = .waiting → s.shared.queue ≠ [] → Noticed s
  running : s.shared.closed = false → s.worker ≠ .returned

theorem Covered.workerStep (h : Covered s) (ha : Awaits s) (step : WorkerStep kind s ev t) : Covered t := by
  cases step with
  | stop hw hcl => exact ⟨by simp, by simp [hcl]⟩
  | empty hw hq => exact ⟨fun _ hne => absurd hq hne, by simp⟩
  | create hw =>
    refine ⟨fun _ hne => ?_, by simp⟩
    rcases h.noticed (.inl hw) hne with hpr | hwk | hno
    · exact .inl hpr
    · have := ha.future.2 (by simp [hwk])
      simp [hw] at this
    · exact .inr (.inr hno)
  | poll hw haw hp =>
    rcases Notify.poll_cases (ha.future.1 hw) haw with ⟨permit, heq⟩ | ⟨hn, heq⟩
    · rw [heq] at hp
      cases hp
      exact ⟨by simp, by simp⟩
    rw [heq] at hp
    cases hp
    refine ⟨fun _ hne => ?_, by simp⟩
    -- The worker parks: a group that came in since is still to be notified.
    have hnt := h.noticed (.inr hw) hne
    simp only [Noticed, hn, reduceCtorEq, Option.some.injEq, Bool.false_eq_true, false_or] at hnt
    exact .inr (.inr hnt)
  | goOn | pop | route | send | fail | sendError | done => exact ⟨by simp, by simp⟩

theorem Covered.callerStep (h : Covered s) (step : CallerStep remote kind s ev t) : Covered t := by
  cases step with
  | trySend _ hc =>
    rcases call_cases hc with ⟨e, err, rfl⟩ | ⟨made, -, -, rfl⟩
    · exact ⟨h.noticed, h.running⟩
    · exact ⟨fun _ _ => .inr (.inr (Nat.succ_pos _)), h.running⟩
  | pollWritable waker =>
    obtain ⟨err, waiters, heq, -⟩ := pollWritable_cases waker s.shared
    rw [heq]
    exact ⟨h.noticed, h.running⟩
  | notify =>
    refine ⟨fun _ _ => ?_, h.running⟩
    rcases Notify.notifyOne_kept s.shared.queued with hp | hwk
    · exact .inl hp
    · exact .inr (.inl hwk)
  | drop _ hnt =>
    refine ⟨fun hw hne => ?_, by simp [SendQueue.dropped, SharedSendState.drop]⟩
    have hn := h.noticed hw hne
    cases kind with
    | obfuscated | realm =>
      rcases Notify.notifyOne_kept s.shared.queued with hp | hwk
      · exact .inl hp
      · exact .inr (.inl hwk)
    | hopping =>
      rcases hn with hp | hwk | hps
      · exact .inl ((Notify.notifyWaiters_permit _).trans hp)
      · refine .inr (.inl ?_)
        simp [SendQueue.dropped, SharedSendState.drop, Notify.notifyWaiters, hwk]
      · exact .inr (.inr hps)

/-! ## Every state of every run -/

/-- What every reachable state has. -/
structure QueueInvariant (kind : SocketKind) (s : SendQueue) : Prop where
  capacity : WithinCapacity s
  ordered : Ordered kind s
  awaits : Awaits s
  covered : Covered s

theorem queueInvariant_new : QueueInvariant kind .new where
  capacity := Nat.zero_le _
  ordered := ⟨[], [], [], [], rfl, .nil, rfl, rfl, rfl⟩
  awaits := ⟨by simp [SendQueue.new, SharedSendState.new, Notify.new], fun _ => rfl⟩
  covered := ⟨by simp [SendQueue.new], by simp [SendQueue.new]⟩

theorem QueueInvariant.step (h : QueueInvariant kind s) (step : QueueStep remote kind s ev t) :
    QueueInvariant kind t := by
  refine ⟨h.capacity.step step, ?_, h.awaits.step step, ?_⟩
  · rcases step with step | step
    · exact h.ordered.workerStep step
    · exact h.ordered.callerStep step
  rcases step with step | step
  · exact h.covered.workerStep h.awaits step
  · exact h.covered.callerStep step

theorem queueInvariant {evs : List SendEvent} (run : Trace (QueueStep remote kind) .new evs s) :
    QueueInvariant kind s :=
  run.invariant (fun _ _ _ h step => h.step step) queueInvariant_new

/-- A group in the queue: the worker can go on, or finds a permit when it polls,
or a call of `try_send` is between its push and its notification. -/
theorem QueueInvariant.noticed (h : QueueInvariant kind s) (ho : s.shared.closed = false)
    (hq : s.shared.queue ≠ []) : Runnable kind s ∨ s.shared.queued.permit = true ∨ 0 < s.notifying := by
  by_cases hr : Runnable kind s
  · exact .inl hr
  simp only [runnable_iff, h.covered.running ho, ne_eq, not_false_eq_true, true_and, Classical.not_imp,
    Notify.Awake, not_not] at hr
  obtain ⟨hw, hp⟩ := hr
  rcases h.covered.noticed (.inr hw) hq with hpr | hwk | hn
  · exact .inr (.inl hpr)
  · simp [hp] at hwk
  · exact .inr (.inr hn)

/-! ## A task that waits to write -/

/-- The events at which the waiting writers are woken. -/
def Wakes : SendEvent → Prop
  | .pop | .sendError => True
  | _ => False

theorem waiters_kept (step : QueueStep remote kind s ev t) (hev : ¬Wakes ev) {waker : Waker}
    (h : waker ∈ s.shared.waiters) : waker ∈ t.shared.waiters := by
  rcases step with step | step
  · cases step with
    | pop | sendError => exact absurd trivial hev
    | _ => exact h
  cases step with
  | trySend _ hc => rcases call_cases hc with ⟨e, err, rfl⟩ | ⟨made, -, -, rfl⟩ <;> exact h
  | pollWritable polled =>
    obtain ⟨err, waiters, heq, hm, -⟩ := pollWritable_cases polled s.shared
    rw [heq]
    exact hm waker h
  | notify | drop => exact h

theorem waiters_woken (step : QueueStep remote kind s ev t) (hev : Wakes ev) :
    t.woken = s.woken ++ s.shared.waiters ∧ t.shared.waiters = [] := by
  rcases step with step | step <;> cases step <;> first | exact ⟨rfl, rfl⟩ | exact hev.elim

/-- From `s` to `t`, `waker` stays registered; or up to the first pop or send
error, and that wakes it. -/
def RegisteredUntilWoken (remote : SocketAddr) (kind : SocketKind) (waker : Waker) (s : SendQueue)
    (events : List SendEvent) (t : SendQueue) : Prop :=
  (waker ∈ t.shared.waiters ∧ ∀ event ∈ events, ¬Wakes event) ∨
  ∃ before event after u v, events = before ++ event :: after ∧ (∀ event ∈ before, ¬Wakes event) ∧ Wakes event ∧
    Trace (QueueStep remote kind) s before u ∧ QueueStep remote kind u event v ∧
    waker ∈ u.shared.waiters ∧ v.woken = u.woken ++ u.shared.waiters ∧ Trace (QueueStep remote kind) v after t

theorem registeredUntilWoken {waker : Waker} {evs : List SendEvent} (h : waker ∈ s.shared.waiters)
    (run : Trace (QueueStep remote kind) s evs t) : RegisteredUntilWoken remote kind waker s evs t := by
  have hk (s : SendQueue) (ev : SendEvent) (t : SendQueue) (h : waker ∈ s.shared.waiters)
      (step : QueueStep remote kind s ev t) (hev : ¬Wakes ev) : waker ∈ t.shared.waiters :=
    waiters_kept step hev h
  rcases run.first hk h with hkp | ⟨before, ev, after, u, v, heq, hb, hev, hu, hm, step, hv⟩
  · exact .inl hkp
  · exact .inr ⟨before, ev, after, u, v, heq, hb, hev, hu, step, hm, (waiters_woken step hev).1, hv⟩

/-- The discipline of the queue in a state of an open socket. -/
structure Disciplined (remote : SocketAddr) (kind : SocketKind) (s : SendQueue) : Prop where
  capacity : s.shared.queue.length ≤ 1024
  /-- A refused call leaves the queue as it is, and a successful one adds the group of its transmit. -/
  refused : ∀ group outcome error, TrySend remote kind s.shared group outcome → outcome.1 = .error error →
    outcome.2.queue = s.shared.queue
  queued : ∀ group outcome, TrySend remote kind s.shared group outcome → outcome.1 = .ok () →
    ∃ made, group = some made ∧ outcome.2.queue = s.shared.queue ++ [made]
  order : InOrder kind s
  /-- When no call is between its push and its notification, a group in the queue has the
  worker running or a permit stored; else that call is about to notify. -/
  noticed : s.shared.queue ≠ [] → Runnable kind s ∨ s.shared.queued.permit = true ∨ 0 < s.notifying
  /-- A task told to wait is registered until the next pop or send error, which wakes it. -/
  pending : ∀ waker events t, (s.shared.pollWritable waker).1 = .pending →
    Trace (QueueStep remote kind) { s with shared := (s.shared.pollWritable waker).2 } events t →
    RegisteredUntilWoken remote kind waker { s with shared := (s.shared.pollWritable waker).2 } events t

theorem queue_disciplined (remote : SocketAddr) (kind : SocketKind) (events : List SendEvent) (s : SendQueue)
    (run : Trace (QueueStep remote kind) .new events s) (hopen : s.shared.closed = false) :
    Disciplined remote kind s := by
  have hi := queueInvariant run
  refine ⟨hi.capacity, ?_, ?_, hi.ordered.inOrder, hi.noticed hopen, ?_⟩
  · intro group outcome err hc he
    rcases call_cases hc with ⟨e, err, rfl⟩ | ⟨made, -, -, rfl⟩
    · rfl
    · cases he
  · intro group outcome hc ho
    rcases call_cases hc with ⟨e, err, rfl⟩ | ⟨made, rfl, -, rfl⟩
    · cases ho
    · exact ⟨made, rfl, rfl⟩
  intro waker events t hp later
  obtain ⟨err, waiters, heq, -, hm⟩ := pollWritable_cases waker s.shared
  refine registeredUntilWoken ?_ later
  simpa only [heq] using hm hp

def examplePeer : SocketAddr := ⟨.v4 0xC0000201, 443, 0⟩

def exampleTransmit : Transmit := ⟨examplePeer, [0x40, 0x01], none, by simp⟩

def exampleGroup : OutgoingDatagrams := ⟨examplePeer, [[0x40, 0x01]]⟩

/-- The worker of a Realm socket has taken the first group before it was notified. -/
theorem queue_disciplined_first : Disciplined examplePeer .realm
      ⟨⟨[], [], none, ⟨true, none⟩, false⟩, .routing exampleGroup, 0, [exampleGroup], [], []⟩ := by
  refine queue_disciplined examplePeer .realm [.trySend (.ok ()), .worker, .pop, .notify] _ ?_ rfl
  have call : TrySend examplePeer .realm .new _ _ := .realm none exampleTransmit .new
  have first := CallerStep.trySend (s := .new) rfl call
  refine .cons (.caller first) ?_
  refine .cons (.worker (.goOn rfl rfl)) ?_
  refine .cons (.worker (.pop rfl rfl)) ?_
  exact .single (.caller (.notify rfl))

end Hysteria.Proof
