import Mathlib.Logic.Basic

/-!
# A notification with one permit

`tokio::sync::Notify` with one task that waits on it. The task makes a future
(`notified`) and polls it; `notifyOne` wakes a parked task and otherwise leaves
a permit, `notifyWaiters` reaches only a future that exists and leaves nothing.

`poll_cases` is the rule for lost notifications: only the first poll of a future
parks the task, and only when there is no permit and the future was not notified.
-/

namespace Framework

/-- The future, from `notified` until a poll of it returns ready. -/
inductive Waiter where
  /-- Not polled yet; `notified` tells that a `notifyWaiters` came after it was made. -/
  | created (notified : Bool)
  | parked
  | woken
  deriving DecidableEq

structure Notify where
  permit : Bool
  waiter : Option Waiter
  deriving DecidableEq

namespace Notify

def new : Notify := ⟨false, none⟩

def notifyOne (n : Notify) : Notify :=
  match n.waiter with
  | some .parked => { n with waiter := some .woken }
  | _ => { n with permit := true }

def notifyWaiters (n : Notify) : Notify :=
  match n.waiter with
  | some (.created _) => { n with waiter := some (.created true) }
  | some .parked => { n with waiter := some .woken }
  | _ => n

def notified (n : Notify) : Notify := { n with waiter := some (.created false) }

/-- A poll of the future: whether it is ready. A ready future is gone. -/
def poll (n : Notify) : Bool × Notify :=
  match n.waiter with
  | some (.created notified) =>
    if n.permit then (true, ⟨false, none⟩)
    else if notified then (true, { n with waiter := none })
    else (false, { n with waiter := some .parked })
  | some .woken => (true, { n with waiter := none })
  | some .parked | none => (false, n)

/-- A task that waits on it goes on by itself: its future is not parked. -/
def Awake (n : Notify) : Prop := n.waiter ≠ some .parked

variable {n : Notify}

theorem poll_cases (hw : n.waiter.isSome) (ha : n.Awake) : (∃ permit, n.poll = (true, ⟨permit, none⟩)) ∨
    n = ⟨false, some (.created false)⟩ ∧ n.poll = (false, ⟨false, some .parked⟩) := by
  obtain ⟨permit, waiter⟩ := n
  match waiter with
  | some (.created notified) => cases permit <;> cases notified <;> simp [poll]
  | some .woken => exact .inl ⟨permit, rfl⟩
  | some .parked => exact absurd rfl ha
  | none => cases hw

@[simp] theorem isSome_notifyOne (n : Notify) : n.notifyOne.waiter.isSome = n.waiter.isSome := by
  unfold notifyOne
  split <;> simp_all

@[simp] theorem isSome_notifyWaiters (n : Notify) : n.notifyWaiters.waiter.isSome = n.waiter.isSome := by
  unfold notifyWaiters
  split <;> simp_all

theorem awake_notifyOne (n : Notify) : n.notifyOne.Awake := by
  unfold notifyOne Awake
  split <;> simp_all

theorem awake_notifyWaiters (n : Notify) : n.notifyWaiters.Awake := by
  unfold notifyWaiters Awake
  split <;> simp_all

/-- Nothing is lost: the task was parked and is awake now, or there is a permit. -/
theorem notifyOne_kept (n : Notify) : n.notifyOne.permit = true ∨ n.notifyOne.waiter = some .woken := by
  unfold notifyOne
  split <;> simp

theorem notifyWaiters_permit (n : Notify) : n.notifyWaiters.permit = n.permit := by
  unfold notifyWaiters
  split <;> rfl

/-- A future that exists at a notification is ready at its next poll. -/
theorem poll_notifyOne (h : n.waiter.isSome) : ∃ permit, n.notifyOne.poll = (true, ⟨permit, none⟩) := by
  obtain ⟨permit, waiter⟩ := n
  match waiter with
  | some (.created _) | some .parked | some .woken => exact ⟨_, rfl⟩
  | none => cases h

theorem poll_notifyWaiters (h : n.waiter.isSome) : ∃ permit, n.notifyWaiters.poll = (true, ⟨permit, none⟩) := by
  obtain ⟨permit, waiter⟩ := n
  match waiter with
  | some (.created _) => cases permit <;> exact ⟨_, rfl⟩
  | some .parked | some .woken => exact ⟨_, rfl⟩
  | none => cases h

end Notify

end Framework
