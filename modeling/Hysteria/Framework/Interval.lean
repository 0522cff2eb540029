import Mathlib.Order.Basic

/-!
# Periodic timers

`Interval` is a `tokio::time::interval` that delays after missed ticks, in
nanoseconds. `tick_some` is what a loop that waits for it needs: the next tick is
at most a period away, and a whole period when this one was not late.
-/

namespace Framework

structure Interval where
  period : Nat
  /-- When the next tick is ready. -/
  deadline : Nat
deriving DecidableEq

namespace Interval

/-- The first tick is ready at once. -/
def start (now period : Nat) : Interval := ⟨period, now⟩

/-- The tick at `now`, if it is ready. After one that is late by more than 5 ms the timer
begins again. -/
def tick (timer : Interval) (now : Nat) : Option Interval :=
  if now < timer.deadline then none
  else if now > timer.deadline + 5000000 then some { timer with deadline := now + timer.period }
  else some { timer with deadline := timer.deadline + timer.period }

variable {timer next : Interval} {now : Nat}

theorem tick_some (h : timer.tick now = some next) :
    timer.deadline ≤ now ∧ next.period = timer.period ∧ next.deadline ≤ now + timer.period ∧
      (now ≤ timer.deadline → next.deadline = now + timer.period) := by
  unfold tick at h
  split at h
  · cases h
  split at h
  · grind
  grind

theorem tick_start (now period : Nat) : (start now period).tick now = some ⟨period, now + period⟩ := by
  rw [tick, start, if_neg (by simp), if_neg (by simp)]

end Interval

end Framework
