import Hysteria.Framework.Rows
import Hysteria.Framework.Transition
import Hysteria.Impl.Client.Handle

/-!
# The life cycle of the shared connection

`Sound` is kept by every step: a connection that is not the stored one was closed
by the handle, nothing is stored while `connect_client` is awaited, and a handle that
is closed stores nothing. `client_handle_life_cycle` is what follows for every run.
-/

namespace Hysteria.Proof

open Framework Impl

variable {updateChecks : Bool} {h t : ClientHandle} {event : HandleEvent}

/-! ## What the parts of a call do -/

section Parts

variable (h) (call conn : Nat) (purp : ClientPurpose) (next : HandleCall)

@[simp] theorem setCall_state : (h.setCall call next).state = h.state := rfl
@[simp] theorem setCall_connections : (h.setCall call next).connections = h.connections := rfl
@[simp] theorem setCall_holder : (h.setCall call next).holder = h.holder := rfl
@[simp] theorem setCall_returned : (h.setCall call next).returned = h.returned := rfl
@[simp] theorem setCall_updates : (h.setCall call next).updates = h.updates := rfl

@[simp] theorem returnClient_state : (h.returnClient call purp conn).state = h.state := rfl
@[simp] theorem returnClient_connections : (h.returnClient call purp conn).connections = h.connections := rfl
@[simp] theorem returnClient_holder : (h.returnClient call purp conn).holder = h.holder := rfl
@[simp] theorem returnClient_updates : (h.returnClient call purp conn).updates = h.updates := rfl

@[simp] theorem takeConnected_state : h.takeConnected.state = { h.state with connected := none } := by
  unfold ClientHandle.takeConnected
  split
  next hn => rw [← hn]
  next => rfl

@[simp] theorem takeConnected_holder : h.takeConnected.holder = h.holder := by
  unfold ClientHandle.takeConnected
  split <;> rfl

@[simp] theorem takeConnected_returned : h.takeConnected.returned = h.returned := by
  unfold ClientHandle.takeConnected
  split <;> rfl

@[simp] theorem takeConnected_updates : h.takeConnected.updates = h.updates := by
  unfold ClientHandle.takeConnected
  split <;> rfl

@[simp] theorem takeConnected_calls : h.takeConnected.calls = h.calls := by
  unfold ClientHandle.takeConnected
  split <;> rfl

@[simp] theorem takeConnected_length : h.takeConnected.connections.length = h.connections.length := by
  unfold ClientHandle.takeConnected
  split
  next => rfl
  next => simp [ClientHandle.closeConnected]

theorem takeConnected_getElem? (i : Nat) : h.takeConnected.connections[i]? =
    h.connections[i]?.map fun c => if h.state.connected = some i then { c with closed := true } else c := by
  unfold ClientHandle.takeConnected
  split
  next hn => simp [hn]
  next stored hs => simp [ClientHandle.closeConnected, List.getElem?_modify, hs]

end Parts

/-! ## The invariant -/

/-- A connection that is not stored was closed by the handle. -/
def OthersClosed (h : ClientHandle) : Prop :=
  ∀ (i : Nat) (c : ClientConnection), h.connections[i]? = some c → h.state.connected ≠ some i → c.closed = true

structure Sound (h : ClientHandle) : Prop where
  others : OthersClosed h
  stored : ∀ i, h.state.connected = some i → i < h.connections.length
  /-- Nothing is stored while a call holds the lock. -/
  holding : h.holder ≠ none → h.state.connected = none ∧ h.state.closed = false
  closed : h.state.closed = true → h.state.connected = none
  updates : h.updates = h.state.updateStarted.toNat

theorem sound_new : Sound {} := ⟨fun _ _ h => (nomatch h), fun _ h => (nomatch h), fun h => absurd rfl h, nofun, rfl⟩

/-- The invariant does not depend on the calls. -/
theorem Sound.congr (hs : Sound h) (hc : t.connections = h.connections) (hst : t.state = h.state)
    (hh : t.holder = h.holder) (hu : t.updates = h.updates) : Sound t where
  others := by
    rw [OthersClosed, hc, hst]
    exact hs.others
  stored := by
    rw [hc, hst]
    exact hs.stored
  holding := by
    rw [hh, hst]
    exact hs.holding
  closed := by
    rw [hst]
    exact hs.closed
  updates := by
    rw [hu, hst]
    exact hs.updates

/-- When the stored connection is taken, all are closed by the handle. -/
theorem takeConnected_closed (ho : OthersClosed h) {i : Nat} {c : ClientConnection}
    (hc : h.takeConnected.connections[i]? = some c) : c.closed = true := by
  rw [takeConnected_getElem?] at hc
  obtain ⟨c', hc', rfl⟩ := Option.map_eq_some_iff.mp hc
  by_cases hs : h.state.connected = some i
  · simp [hs]
  · simp [hs, ho i c' hc' hs]

theorem Sound.lockClient (hs : Sound h) (call : Nat) (purp : ClientPurpose) : Sound (h.lockClient call purp) := by
  unfold ClientHandle.lockClient
  split
  next => exact hs.congr rfl rfl rfl rfl
  next ho =>
    have ho : h.state.closed = false := by simpa using ho
    split
    next hn => exact ⟨hs.others, hs.stored, fun _ => ⟨hn, ho⟩, fun _ => hn, hs.updates⟩
    next stored hst =>
      split
      next =>
        exact ⟨fun i c hc _ => takeConnected_closed hs.others hc, by simp, fun _ => by simp [ho], fun _ => by simp,
          by simpa using hs.updates⟩
      next => exact hs.congr rfl rfl rfl rfl

theorem Sound.connected (hs : Sound h) {call : Nat} (hh : h.holder = some call) (purp : ClientPurpose) :
    Sound (h.connected updateChecks call purp) := by
  obtain ⟨hn, ho⟩ := hs.holding (by simp [hh])
  refine ⟨?_, ?_, fun h => absurd rfl h, ?_, ?_⟩
  · intro i c hc hot
    rcases getElem?_concat hc with hc | ⟨rfl, -⟩
    · exact hs.others i c hc (by simp [hn])
    · exact absurd rfl hot
  · simp [ClientHandle.connected]
  · intro hcl
    have hcl : h.state.closed = true := hcl
    rw [ho] at hcl
    cases hcl
  show h.updates + (updateChecks && !h.state.updateStarted).toNat =
    (h.state.updateStarted || (updateChecks && !h.state.updateStarted)).toNat
  rw [hs.updates]
  cases h.state.updateStarted <;> cases updateChecks <;> rfl

theorem Sound.lockInvalidate (hs : Sound h) (hf : h.holder = none) (call conn : Nat) :
    Sound (h.lockInvalidate call conn) := by
  unfold ClientHandle.lockInvalidate
  split
  next =>
    exact ⟨fun i c hc _ => takeConnected_closed hs.others hc, by simp, by simp [hf], by simp,
      by simpa using hs.updates⟩
  next => exact hs.congr rfl rfl rfl rfl

theorem Sound.lockClose (hs : Sound h) (hf : h.holder = none) (call : Nat) : Sound (h.lockClose call) := by
  have ho : OthersClosed { h with state := { h.state with closed := true } } := hs.others
  exact ⟨fun i c hc _ => takeConnected_closed ho hc, by simp [ClientHandle.lockClose],
    by simp [ClientHandle.lockClose, hf], by simp [ClientHandle.lockClose],
    by simpa [ClientHandle.lockClose] using hs.updates⟩

theorem Sound.step (hs : Sound h) (step : HandleStep updateChecks h event t) : Sound t := by
  cases step with
  | start hst => exact hs.congr rfl rfl rfl rfl
  | lockClient hcl hf => exact hs.lockClient _ _
  | lockInvalidate hcl hf => exact hs.lockInvalidate hf _ _
  | lockClose hcl hf => exact hs.lockClose hf _
  | connected hcl hh => exact hs.connected hh _
  | connectFailed hcl hh => exact ⟨hs.others, hs.stored, fun h => absurd rfl h, hs.closed, hs.updates⟩
  | used hcl =>
    unfold ClientHandle.used
    split <;> exact hs.congr rfl rfl rfl rfl
  | @die conn hcn =>
    refine ⟨?_, by simpa using hs.stored, hs.holding, hs.closed, hs.updates⟩
    intro i c hc ho
    rw [List.getElem?_modify] at hc
    obtain ⟨c', hc', rfl⟩ := Option.map_eq_some_iff.mp hc
    split <;> exact hs.others i c' hc' ho

/-! ## Closing -/

theorem closed_step (step : HandleStep updateChecks h event t) (hcl : h.state.closed = true) :
    t.state.closed = true := by
  cases step with
  | start | connected | connectFailed | die => exact hcl
  | lockClient hc hf =>
    rw [ClientHandle.lockClient, if_pos hcl]
    exact hcl
  | lockInvalidate hc hf =>
    unfold ClientHandle.lockInvalidate
    split
    next => simpa using hcl
    next => exact hcl
  | lockClose hc hf => simp [ClientHandle.lockClose]
  | used hc =>
    unfold ClientHandle.used
    split <;> exact hcl

theorem returned_step (hs : Sound h) (step : HandleStep updateChecks h event t) (hcl : h.state.closed = true) :
    t.returned = h.returned := by
  cases step with
  | start | connectFailed | die => rfl
  | lockClient hc hf =>
    rw [ClientHandle.lockClient, if_pos hcl]
    rfl
  | lockInvalidate hc hf =>
    unfold ClientHandle.lockInvalidate
    split
    next => simp
    next => rfl
  | lockClose hc hf => simp [ClientHandle.lockClose]
  | connected hc hh =>
    grind [Sound.holding]
  | used hc =>
    unfold ClientHandle.used
    split <;> rfl

/-! ## The rows of the calls -/

section Calls

variable (h) (call conn : Nat) (purp : ClientPurpose)

theorem returnClient_calls : ∃ next, next ≠ HandleCall.closed ∧
    (h.returnClient call purp conn).calls = h.calls.set call next := by
  cases purp with
  | client => exact ⟨.returned conn, by simp, rfl⟩
  | tcp => exact ⟨.holding .tcp conn, by simp, rfl⟩
  | udp => exact ⟨.holding .udp conn, by simp, rfl⟩

theorem lockClient_calls : ∃ next, next ≠ HandleCall.closed ∧
    (h.lockClient call purp).calls = h.calls.set call next := by
  unfold ClientHandle.lockClient
  split
  next => exact ⟨.failed "client is closed", by simp, rfl⟩
  next =>
    split
    next => exact ⟨.connecting purp, by simp, rfl⟩
    next stored _ =>
      split
      next => exact ⟨.connecting purp, by simp, by simp only [ClientHandle.setCall, takeConnected_calls]⟩
      next => exact returnClient_calls h call stored purp

theorem lockInvalidate_calls : (h.lockInvalidate call conn).calls = h.calls.set call .finished := by
  unfold ClientHandle.lockInvalidate
  split
  next => simp only [ClientHandle.setCall, takeConnected_calls]
  next => rfl

theorem used_calls (isErr : Bool) : ∃ next, next ≠ HandleCall.closed ∧
    (h.used call conn isErr).calls = h.calls.set call next := by
  unfold ClientHandle.used
  split
  next => exact ⟨.invalidate conn, by simp, rfl⟩
  next => exact ⟨.finished, by simp, rfl⟩

end Calls

/-- A call of `close` that has run has closed the handle. -/
def CloseRan (h : ClientHandle) : Prop := ∀ call : Nat, h.calls[call]? = some .closed → h.state.closed = true

/-- Only `close` writes to its row that it has run. -/
theorem CloseRan.set (hc : CloseRan h) (hcl : h.state.closed = true → t.state.closed = true) {call : Nat}
    (hcs : ∃ next, next ≠ HandleCall.closed ∧ t.calls = h.calls.set call next) : CloseRan t := by
  obtain ⟨next, hn, hcs⟩ := hcs
  intro i hi
  rw [hcs] at hi
  rcases getElem?_set_cases hi with ⟨-, heq⟩ | ⟨-, hi⟩
  · exact absurd heq.symm hn
  · exact hcl (hc i hi)

theorem CloseRan.step (hc : CloseRan h) (step : HandleStep updateChecks h event t) : CloseRan t := by
  have hcl := closed_step step
  cases step with
  | start hs =>
    intro i hi
    rcases getElem?_concat hi with hi | ⟨-, rfl⟩
    · exact hc i hi
    · cases hs
  | lockClient hca hf => exact hc.set hcl (lockClient_calls h _ _)
  | lockInvalidate hca hf => exact hc.set hcl ⟨.finished, by simp, lockInvalidate_calls h _ _⟩
  | lockClose hca hf => exact fun _ _ => by simp [ClientHandle.lockClose]
  | connected hca hh => exact hc.set hcl (returnClient_calls _ _ _ _)
  | @connectFailed call purp err hca hh => exact hc.set hcl ⟨.failed err, by simp, rfl⟩
  | used hca => exact hc.set hcl (used_calls h _ _ _)
  | die hcn => exact hc

/-! ## Removing and invalidating -/

theorem length_step (step : HandleStep updateChecks h event t) : h.connections.length ≤ t.connections.length := by
  cases step with
  | start | connectFailed => exact Nat.le_refl _
  | lockClient hc hf =>
    unfold ClientHandle.lockClient
    split
    next => exact Nat.le_refl _
    next =>
      split
      next => exact Nat.le_refl _
      next =>
        split
        next => simp
        next => exact Nat.le_refl _
  | lockInvalidate hc hf =>
    unfold ClientHandle.lockInvalidate
    split
    next => simp
    next => exact Nat.le_refl _
  | lockClose hc hf => simp [ClientHandle.lockClose]
  | connected hc hh => simp [ClientHandle.connected]
  | used hc =>
    unfold ClientHandle.used
    split <;> exact Nat.le_refl _
  | die hcn => simp

/-- A connection that is no longer stored was closed by the handle. -/
theorem removed_closed (hs : Sound h) (step : HandleStep updateChecks h event t) {i : Nat}
    (hi : h.state.connected = some i) (hr : t.state.connected ≠ some i) :
    ∃ c, t.connections[i]? = some c ∧ c.closed = true := by
  obtain ⟨c, hc⟩ : ∃ c, t.connections[i]? = some c :=
    ⟨_, List.getElem?_eq_getElem (Nat.lt_of_lt_of_le (hs.stored i hi) (length_step step))⟩
  exact ⟨c, hc, (hs.step step).others i c hc hr⟩

theorem invalidate_step {call i : Nat} (hc : h.calls[call]? = some (.invalidate i))
    (step : HandleStep updateChecks h (.lock call) t) {j : Nat} (hne : j ≠ i) :
    t.connections[j]? = h.connections[j]? ∧ (h.state.connected = some j → t.state.connected = some j) := by
  obtain rfl : t = h.lockInvalidate call i := by
    cases step with
    | lockClient hcall' => cases hc.symm.trans hcall'
    | lockInvalidate hcall' => cases hc.symm.trans hcall'; rfl
    | lockClose hcall' => cases hc.symm.trans hcall'
  unfold ClientHandle.lockInvalidate
  split
  next hs =>
    grind [setCall_connections, takeConnected_getElem?]
  next => exact ⟨rfl, id⟩

/-! ## Runs -/

/-- Open connections: no two, and none while another one is being made. -/
theorem Sound.open_unique (hs : Sound h) {i j : Nat} {c d : ClientConnection} (hc : h.connections[i]? = some c)
    (hd : h.connections[j]? = some d) (hcp : c.isClosed = false) (hdp : d.isClosed = false) :
    i = j ∧ h.holder = none := by
  have hst {k : Nat} {e : ClientConnection} (he : h.connections[k]? = some e) (hep : e.isClosed = false) :
      h.state.connected = some k := by
    by_contra ho
    simp [ClientConnection.isClosed, hs.others k e he ho] at hep
  grind [hs.holding]

theorem Sound.after_close (hs : Sound h) (hcl : h.state.closed = true) {later : List HandleEvent}
    (run : Trace (HandleStep updateChecks) h later t) : t.returned = h.returned ∧ t.state.connected = none := by
  have hi : Sound t ∧ t.state.closed = true ∧ t.returned = h.returned := by
    refine run.invariant (I := fun u => Sound u ∧ u.state.closed = true ∧ u.returned = h.returned) ?_
      ⟨hs, hcl, rfl⟩
    intro u event v ⟨hu, huc, hur⟩ step
    exact ⟨hu.step step, closed_step step huc, (returned_step hu step huc).trans hur⟩
  exact ⟨hi.2.2, hi.1.closed hi.2.1⟩

/-- After every run: once `close` has run, nothing is stored and no client is returned any
more; at most one connection is open, and none while `connect_client` is awaited; a
connection that is replaced or removed was closed by the handle; `invalidate`
touches no other connection than its own; and the update task was started once at most. -/
theorem client_handle_life_cycle {events : List HandleEvent} (run : Trace (HandleStep updateChecks) {} events h) :
    ((∃ call : Nat, h.calls[call]? = some .closed) → h.state.connected = none ∧
      ∀ later t, Trace (HandleStep updateChecks) h later t → t.returned = h.returned ∧ t.state.connected = none) ∧
    (∀ (i j : Nat) (c d : ClientConnection), h.connections[i]? = some c → h.connections[j]? = some d →
      c.isClosed = false → d.isClosed = false → i = j ∧ h.holder = none) ∧
    (∀ event t (i : Nat), HandleStep updateChecks h event t → h.state.connected = some i → t.state.connected ≠ some i →
      ∃ c, t.connections[i]? = some c ∧ c.closed = true) ∧
    (∀ (call i : Nat) t, h.calls[call]? = some (.invalidate i) → HandleStep updateChecks h (.lock call) t →
      ∀ j : Nat, j ≠ i → t.connections[j]? = h.connections[j]? ∧
        (h.state.connected = some j → t.state.connected = some j)) ∧
    h.updates ≤ 1 := by
  have hs : Sound h := run.invariant (fun _ _ _ hs step => hs.step step) sound_new
  have hr : CloseRan h := run.invariant (fun _ _ _ hc step => hc.step step) (by simp [CloseRan])
  refine ⟨?_, ?_, ?_, ?_, ?_⟩
  · rintro ⟨call, hca⟩
    have hcl := hr call hca
    exact ⟨hs.closed hcl, fun later t run => hs.after_close hcl run⟩
  · exact fun i j c d hc hd hcp hdp => hs.open_unique hc hd hcp hdp
  · grind [removed_closed]
  · grind [invalidate_step]
  · rw [hs.updates]
    exact Bool.toNat_le _

/-- A connection is made on first use, lost, made again, and closed. -/
theorem client_handle_closed_after_reconnect :
    ∃ events h, Trace (HandleStep true) {} events h ∧ h.returned = [0, 1] ∧ h.updates = 1 ∧
      h.connections = [⟨true, true⟩, ⟨false, true⟩] ∧ h.state.connected = none := by
  have run : Trace (HandleStep true) {} _ _ :=
    .cons (@HandleStep.start true _ (.client .tcp) rfl) (.cons (@HandleStep.lockClient true _ 0 _ rfl rfl)
      (.cons (.connected rfl rfl) (.cons (@HandleStep.die true _ 0 (by decide))
      (.cons (@HandleStep.start true _ (.client .client) rfl) (.cons (@HandleStep.lockClient true _ 1 _ rfl rfl)
      (.cons (.connected rfl rfl) (.cons (@HandleStep.start true _ .close rfl)
      (.single (@HandleStep.lockClose true _ 2 rfl rfl)))))))))
  refine ⟨_, _, run, rfl, rfl, rfl, ?_⟩
  exact ((client_handle_life_cycle run).1 ⟨2, rfl⟩).1

end Hysteria.Proof
