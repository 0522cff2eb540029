import Hysteria.Framework.Rows
import Hysteria.Framework.Transition
import Hysteria.Impl.Client.UdpFlows

/-!
# One UDP flow for each key

As long as no packet is offered to a live flow with a full queue, every live flow
is the one in the table for its key (`OneLive`). A refused packet then means that
the flow has ended; otherwise it is taken for that, and a second flow is spawned:
`one_flow_iff`.
-/

namespace Hysteria.Proof

open Framework Impl List

variable {κ : Type}
variable {flow : Flow κ} {i : Nat}

/-! ## Channels -/

theorem trySend_some {flow' : Flow κ} {packet : List UInt8} (h : flow.trySend packet = some flow') :
    flow.live = true ∧ flow.queue.length < flowCapacity ∧ flow' = { flow with queue := flow.queue ++ [packet] } := by
  unfold Flow.trySend at h
  grind

theorem trySend_none {packet : List UInt8} (h : flow.trySend packet = none)
    (hl : flow.live = true) : flowCapacity ≤ flow.queue.length := by
  unfold Flow.trySend at h
  grind

theorem live_iff {s : FlowDispatcher κ} : s.live i = true ↔ ∃ flow, s.flows[i]? = some flow ∧ flow.live = true := by
  rw [FlowDispatcher.live]
  cases s.flows[i]? <;> simp

variable [DecidableEq κ] {kind : FlowKind} {s t : FlowDispatcher κ} {ev : FlowEvent κ}

/-! ## What is asked of a step -/

/-- A step keeps at most one live flow for each key, the one in the table, and a
packet offered where a flow is live is queued there or dropped. -/
structure OneFlow (s : FlowDispatcher κ) (event : FlowEvent κ) (t : FlowDispatcher κ) : Prop where
  unique : ∀ (i j : Nat) (flow other : Flow κ), t.flows[i]? = some flow → t.flows[j]? = some other → flow.live = true →
    other.live = true → flow.key = other.key → i = j
  attached : ∀ (i : Nat) (flow : Flow κ), t.flows[i]? = some flow → flow.live = true → t.table.lookup flow.key = some i
  queued : event = .offer → ∀ key packet, s.phase = .sending key packet →
    ∀ (i : Nat) (flow : Flow κ), s.flows[i]? = some flow → flow.live = true → flow.key = key → t.phase = .idle ∧
        (t.flows = s.flows.set i { flow with queue := flow.queue ++ [packet] } ∨ t.flows = s.flows)

/-- A packet is offered to a live flow whose queue is full. -/
def Overflows (s : FlowDispatcher κ) (event : FlowEvent κ) : Prop :=
  event = .offer ∧ ∃ key packet i flow, s.phase = .sending key packet ∧ s.table.lookup key = some i ∧
    s.flows[i]? = some flow ∧ flow.live = true ∧ flowCapacity ≤ flow.queue.length

/-! ## The table -/

/-- The table leads to flows with its keys. -/
def Indexed (s : FlowDispatcher κ) : Prop :=
  ∀ key i, s.table.lookup key = some i → ∃ flow, s.flows[i]? = some flow ∧ flow.key = key

theorem indexed_new : Indexed ({} : FlowDispatcher κ) := fun _ _ h => nomatch h

theorem retain_cases (s : FlowDispatcher κ) (key : κ) : s.retain key = s.table ∨
      ∃ i, s.table.lookup key = some i ∧ s.live i = false ∧ s.retain key = s.table.erase key := by
  unfold FlowDispatcher.retain
  grind

theorem lookup_of_retain {key ent : κ} (h : (s.retain ent).lookup key = some i) : s.table.lookup key = some i := by
  rcases retain_cases s ent with heq | ⟨_, _, _, heq⟩
  · rwa [heq] at h
  · rw [heq] at h
    exact lookup_of_erase h

/-- An entry that `retain` leaves has a live flow. -/
theorem live_of_retain {key : κ} (h : (s.retain key).lookup key = some i) : s.live i = true := by
  unfold FlowDispatcher.retain at h
  split at h
  next hn =>
    rw [hn] at h
    cases h
  next j hj =>
    split at h
    next hl =>
      cases hj.symm.trans h
      exact hl
    next => simp at h

theorem offer_cases (s : FlowDispatcher κ) (key : κ) (packet : List UInt8) :
    (∃ i flow, s.table.lookup key = some i ∧ s.flows[i]? = some flow ∧ flow.queue.length < flowCapacity ∧
      s.offer key packet =
        { s with flows := s.flows.set i { flow with queue := flow.queue ++ [packet] }, phase := .idle }) ∨
    (s.offer key packet = { s with phase := .spawning key packet } ∧
      ∀ i flow, s.table.lookup key = some i → s.flows[i]? = some flow → flow.trySend packet = none) := by
  unfold FlowDispatcher.offer
  split
  next hn => grind
  next i hi =>
    split
    next hrf =>
      grind
    grind [trySend_some]

/-- The key of a flow stays when the flow changes. -/
theorem Indexed.update (h : Indexed s) (flow' : Flow κ) (hf : s.flows[i]? = some flow)
    (hk : flow'.key = flow.key) (phase : FlowPhase κ) : Indexed ⟨s.flows.set i flow', s.table, phase⟩ := by
  intro key j hj
  obtain ⟨other, hot, ho⟩ := h key j hj
  by_cases hij : i = j
  · grind
  grind

theorem Indexed.step (h : Indexed s) (step : FlowStep kind s ev t) : Indexed t := by
  cases step with
  | receive | retained => exact h
  | check ent hph he => exact fun key i hi => h key i (lookup_of_retain hi)
  | @offer key packet hph =>
    rcases offer_cases s key packet with ⟨i, flow, -, hf, -, heq⟩ | ⟨heq, -⟩
    · rw [heq]
      exact h.update { flow with queue := flow.queue ++ [packet] } hf rfl _
    · rw [heq]
      exact h
  | @spawn key packet hph =>
    intro key' i hi
    by_cases hk : key' = key
    · subst hk
      simp_all [FlowDispatcher.spawn]
    obtain ⟨flow, hf, hfl⟩ := h key' i (by simpa [FlowDispatcher.spawn, hk] using hi)
    grind [FlowDispatcher.spawn]
  | @take i flow packet queue hf hl hq => exact h.update { flow with queue } hf rfl _
  | @finish i flow hf hl => exact h.update { flow with queue := [], live := false } hf rfl _

/-! ## Live flows -/

/-- Every live flow is in the table, and no flow is live for a key that gets a new one. -/
structure OneLive (s : FlowDispatcher κ) : Prop where
  indexed : Indexed s
  attached : ∀ (i : Nat) (flow : Flow κ), s.flows[i]? = some flow → flow.live = true → s.table.lookup flow.key = some i
  spawning : ∀ key packet, s.phase = .spawning key packet →
    ∀ (i : Nat) (flow : Flow κ), s.flows[i]? = some flow → flow.live = true → flow.key ≠ key

theorem OneLive.unique (h : OneLive s) {j : Nat} {other : Flow κ} (hf : s.flows[i]? = some flow)
    (hot : s.flows[j]? = some other) (hl : flow.live = true) (ho : other.live = true)
    (hk : flow.key = other.key) : i = j := by
  have hi := h.attached i flow hf hl
  rw [hk, h.attached j other hot ho] at hi
  exact (Option.some.inj hi).symm

/-- A flow that changes keeps its key and does not come back to life. -/
theorem OneLive.update (h : OneLive s) (flow' : Flow κ) (hf : s.flows[i]? = some flow)
    (hk : flow'.key = flow.key) (hl : flow'.live = true → flow.live = true) {phase : FlowPhase κ}
    (hph : ∀ key packet, phase = .spawning key packet → s.phase = phase) :
    OneLive ⟨s.flows.set i flow', s.table, phase⟩ := by
  refine ⟨h.indexed.update flow' hf hk _, ?_, ?_⟩
  · grind [h.attached]
  · grind [h.spawning, getElem?_set_cases]

/-- Where the dispatcher is matters only when it is about to spawn. -/
theorem OneLive.phase (h : OneLive s) {phase : FlowPhase κ} (hph : ∀ key packet, phase ≠ .spawning key packet) :
    OneLive { s with phase } :=
  ⟨h.indexed, h.attached, fun key packet hs => absurd hs (hph key packet)⟩

theorem OneLive.check (h : OneLive s) (ent : κ) {phase : FlowPhase κ}
    (hph : ∀ key packet, phase ≠ .spawning key packet) : OneLive { s with table := s.retain ent, phase } := by
  refine ⟨fun key i hi => h.indexed key i (lookup_of_retain hi), ?_, fun key packet hs => absurd hs (hph key packet)⟩
  intro i flow hf hl
  have ha := h.attached i flow hf hl
  rcases retain_cases s ent with heq | ⟨j, hj, hd, heq⟩
  · rwa [heq]
  grind [AList.lookup_erase_ne, FlowDispatcher.live]

/-- A packet that no full queue refuses goes to the live flow, or there is none. -/
theorem OneLive.offer (h : OneLive s) {key : κ} {packet : List UInt8} (hph : s.phase = .sending key packet)
    (hr : ¬Overflows s .offer) : OneLive (s.offer key packet) := by
  rcases offer_cases s key packet with ⟨i, flow, -, hf, -, heq⟩ | ⟨heq, hrf⟩
  · rw [heq]
    exact h.update { flow with queue := flow.queue ++ [packet] } hf rfl id fun _ _ => nofun
  rw [heq]
  refine ⟨h.indexed, h.attached, ?_⟩
  rintro _ _ ⟨⟩ i flow hf hl rfl
  have ha := h.attached i flow hf hl
  exact hr ⟨rfl, flow.key, packet, i, flow, hph, ha, hf, hl, trySend_none (hrf i flow ha hf) hl⟩

theorem OneLive.spawn (h : OneLive s) {key : κ} {packet : List UInt8} (hph : s.phase = .spawning key packet) :
    OneLive (s.spawn key packet) := by
  refine ⟨h.indexed.step (FlowStep.spawn hph : FlowStep .tun s _ _), ?_, nofun⟩
  intro i flow hf hl
  rcases getElem?_concat hf with hf | ⟨rfl, rfl⟩
  · grind [h.spawning, h.attached, AList.lookup_insert_ne, FlowDispatcher.spawn]
  · exact AList.lookup_insert _

theorem OneLive.step (h : OneLive s) (step : FlowStep kind s ev t) (hr : ¬Overflows s ev) : OneLive t := by
  cases step with
  | receive key packet hph => exact h.phase (by split <;> exact fun _ _ => nofun)
  | check ent hph he => exact h.check ent fun _ _ => nofun
  | retained hph => exact h.phase fun _ _ => nofun
  | offer hph => exact h.offer hph hr
  | spawn hph => exact h.spawn hph
  | @take i flow packet queue hf hl hq => exact h.update { flow with queue } hf rfl id fun _ _ _ => rfl
  | @finish i flow hf hl =>
    exact h.update { flow with queue := [], live := false } hf rfl (fun _ => hl) fun _ _ _ => rfl

/-! ## Offers -/

theorem eq_offer {key : κ} {packet : List UInt8} (step : FlowStep kind s .offer t)
    (hph : s.phase = .sending key packet) : t = s.offer key packet := by
  cases step with
  | offer hph' =>
    cases hph.symm.trans hph'
    rfl

theorem OneLive.oneFlow (h : OneLive s) (step : FlowStep kind s ev t) (hr : ¬Overflows s ev) : OneFlow s ev t := by
  have ht := h.step step hr
  refine ⟨fun _ _ _ _ hf ho => ht.unique hf ho, ht.attached, ?_⟩
  rintro rfl key packet hph i flow hf hl rfl
  have ha := h.attached i flow hf hl
  rw [eq_offer step hph]
  rcases offer_cases s flow.key packet with ⟨j, other, hj, ho, -, heq⟩ | ⟨-, hrf⟩
  · grind
  · have hfl := trySend_none (hrf i flow ha hf) hl
    exact absurd ⟨rfl, flow.key, packet, i, flow, hph, ha, hf, hl, hfl⟩ hr

/-- A packet that a full queue refuses is neither queued there nor dropped. -/
theorem OneLive.not_overflows (h : OneLive s) (step : FlowStep kind s ev t) (hon : OneFlow s ev t) :
    ¬Overflows s ev := by
  rintro ⟨rfl, key, packet, i, flow, hph, hi, hf, hl, hfl⟩
  obtain ⟨other, ho, hk⟩ := h.indexed key i hi
  cases hf.symm.trans ho
  have hid := (hon.queued rfl key packet hph i flow hf hl hk).1
  rw [eq_offer step hph] at hid
  rcases offer_cases s key packet with ⟨j, other, hj, ho, hr, -⟩ | ⟨heq, -⟩
  · grind
  · rw [heq] at hid
    cases hid

/-- Every step of a run keeps one flow for each key, exactly if none offers a packet to a
live flow whose queue is full. -/
theorem one_flow_iff (kind : FlowKind) (events : List (FlowEvent κ)) (s : FlowDispatcher κ) :
    Trace (fun s event t => FlowStep kind s event t ∧ OneFlow s event t) {} events s ↔
      Trace (fun s event t => FlowStep kind s event t ∧ ¬Overflows s event) {} events s := by
  have hi (s : FlowDispatcher κ) (event : FlowEvent κ) (t : FlowDispatcher κ) (h : OneLive s) :
      FlowStep kind s event t ∧ OneFlow s event t ↔ FlowStep kind s event t ∧ ¬Overflows s event :=
    and_congr_right fun step => ⟨h.not_overflows step, h.oneFlow step⟩
  refine Trace.congr_iff hi ?_ (⟨indexed_new, fun _ _ h => (nomatch h), fun _ _ h => (nomatch h)⟩)
  intro s event t h step
  exact h.step step.1 (h.not_overflows step.1 step.2)

/-! ## A burst -/

section Burst

variable (kind : FlowKind) (key : κ) (packet : List UInt8)

/-- One live flow, with so many packets in its queue. -/
def loneFlow (packets : Nat) (phase : FlowPhase κ) : FlowDispatcher κ :=
  { flows := [⟨key, List.replicate packets packet, true⟩], table := AList.insert key 0 ∅, phase }

theorem loneFlow_lookup (pkts : Nat) (phase : FlowPhase κ) :
    (loneFlow key packet pkts phase).table.lookup key = some 0 := AList.lookup_insert _

theorem loneFlow_offer (pkts : Nat) (phase : FlowPhase κ) : (loneFlow key packet pkts phase).offer key packet =
      if pkts < flowCapacity then loneFlow key packet (pkts + 1) .idle
      else loneFlow key packet pkts (.spawning key packet) := by
  rw [FlowDispatcher.offer, loneFlow_lookup]
  by_cases hr : pkts < flowCapacity
  · simp [loneFlow, Flow.trySend, hr, replicate_succ']
  · simp [loneFlow, Flow.trySend, hr]

/-- The dispatcher comes to offer a packet to the flow. -/
theorem loneFlow_sending (pkts : Nat) : ∃ evs, Trace (FlowStep kind) (loneFlow key packet pkts .idle) evs
      (loneFlow key packet pkts (.sending key packet)) := by
  have hr : FlowStep kind (loneFlow key packet pkts .idle) _ _ := .receive key packet rfl
  cases hre : kind.retains with
  | false =>
    rw [hre] at hr
    exact ⟨_, .single hr⟩
  | true =>
    have hc : FlowStep kind (loneFlow key packet pkts (.retaining key packet [key])) _ _ :=
      .check key rfl mem_cons_self
    have hk : (loneFlow key packet pkts (.retaining key packet [key])).retain key =
        AList.insert key 0 ∅ := by
      rw [FlowDispatcher.retain, loneFlow_lookup]
      rfl
    have hrt : FlowStep kind (loneFlow key packet pkts (.retaining key packet [])) _ _ := .retained rfl
    rw [hre] at hr
    rw [hk, erase_cons_head] at hc
    exact ⟨_, .cons hr (.cons hc (.single hrt))⟩

theorem loneFlow_spawn : ∃ evs, Trace (FlowStep kind) {} evs (loneFlow key packet 1 .idle) := by
  have hs : ∃ evs, Trace (FlowStep kind) {} evs { phase := .sending key packet } := by
    have hr : FlowStep kind {} _ _ := .receive key packet rfl
    cases hre : kind.retains with
    | false =>
      rw [hre] at hr
      exact ⟨_, .single hr⟩
    | true =>
      have hrt : FlowStep kind { phase := .retaining key packet [] } _ _ := .retained rfl
      rw [hre] at hr
      exact ⟨_, .cons hr (.single hrt)⟩
  obtain ⟨evs, run⟩ := hs
  exact ⟨_, run.append (.cons (.offer rfl) (.single (.spawn rfl)))⟩

/-- The queue fills up while the flow takes nothing. -/
theorem loneFlow_fill : ∀ packets < flowCapacity, ∃ evs,
    Trace (FlowStep kind) {} evs (loneFlow key packet (packets + 1) .idle)
  | 0, _ => loneFlow_spawn kind key packet
  | packets + 1, hr => by
    obtain ⟨before, run⟩ := loneFlow_fill packets (by omega)
    obtain ⟨evs, sending⟩ := loneFlow_sending kind key packet (packets + 1)
    have ho : FlowStep kind (loneFlow key packet (packets + 1) (.sending key packet)) _ _ := .offer rfl
    rw [loneFlow_offer, if_pos hr] at ho
    exact ⟨_, run.append (sending.append (.single ho))⟩

/-- The packet after a full queue spawns a second flow; the first one is no longer in the table. -/
theorem burst_spawns : ∃ evs s, Trace (FlowStep kind) {} evs s ∧
    s.flows = [⟨key, replicate flowCapacity packet, true⟩, ⟨key, [packet], true⟩] ∧
      s.table.lookup key = some 1 := by
  obtain ⟨before, run⟩ := loneFlow_fill kind key packet (flowCapacity - 1) (by decide)
  obtain ⟨evs, sending⟩ := loneFlow_sending kind key packet flowCapacity
  have ho : FlowStep kind (loneFlow key packet flowCapacity (.sending key packet)) _ _ := .offer rfl
  rw [loneFlow_offer, if_neg (by omega)] at ho
  refine ⟨_, _, run.append (sending.append (.cons ho (.single (.spawn rfl)))), rfl, ?_⟩
  exact AList.lookup_insert _

end Burst

/-- A burst of 257 packets for a flow that takes none, in each of the dispatchers: two
flows are live for one key. -/
theorem burst_detaches_flow : let peer : SocketAddr := { ip := .v4 0x0a000001, port := 5000 }
    let target : SocketAddr := { ip := .v4 0x0a000002, port := 53 }
    let packet : List UInt8 := [0]
    (∃ evs s, Trace (FlowStep .forwarding) {} evs s ∧
      s.flows = [⟨peer, replicate 256 packet, true⟩, ⟨peer, [packet], true⟩] ∧ s.table.lookup peer = some 1) ∧
    ∀ kind, kind.retains = true → ∃ evs s, Trace (FlowStep kind) {} evs s ∧
      s.flows = [⟨(peer, target), replicate 256 packet, true⟩, ⟨(peer, target), [packet], true⟩] ∧
        s.table.lookup (peer, target) = some 1 :=
  ⟨burst_spawns _ _ _, fun kind _ => burst_spawns kind _ _⟩

end Hysteria.Proof
