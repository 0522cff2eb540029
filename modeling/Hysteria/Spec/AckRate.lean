import Mathlib.Data.Rat.Defs
import Hysteria.Impl.Transport.Congestion

/-!
# The ack rate of a history

What Brutal's ack rate is for, without slots: the rate among all packets
reported in the last five seconds.
-/

namespace Hysteria.Spec

open Impl

/-- A call of `record`. -/
structure Report where
  now : Nat
  acknowledgements : Nat
  losses : Nat
deriving DecidableEq

def Report.second (report : Report) (origin : Nat) : Nat := (report.now - origin) / 1000000000

/-- The calls in the order in which they are made. -/
def recordAll (b : Brutal) (reports : List Report) : Brutal :=
  reports.foldl (fun b report => b.record report.now report.acknowledgements report.losses) b

/-- The reports of the seconds from `t - 4` to `t`. -/
def recent (origin t : Nat) (reports : List Report) : List Report :=
  reports.filter fun report => t - 4 ≤ report.second origin ∧ report.second origin ≤ t

def acknowledged (reports : List Report) : Nat := (reports.map (·.acknowledgements)).sum

def lost (reports : List Report) : Nat := (reports.map (·.losses)).sum

/-- The rate among so many packets. -/
def ackRate (acknowledgements losses : Nat) : ℚ :=
  let samples := acknowledgements + losses
  if samples < 50 then 1
  else if (acknowledgements : ℚ) / samples < 4 / 5 then 4 / 5
  else acknowledgements / samples

end Hysteria.Spec
