import PmacPoll.Gateway

/-!
# Polling by the clock

Each cycle checks the connection and refreshes the prefast and the fast tier, then the medium and
the slow tier if their periods have passed. A failure of the link ends the cycle; any other error
does not.
-/

namespace PmacPoll

/-- The periods of polling. -/
structure Periods where
  fastMs : Nat := 500
  mediumMs : Nat := 2000
  slowMs : Nat := 5000
  deriving DecidableEq, Repr

/-- A scheduler: its periods, and when it last turned to the slower tiers. -/
structure Scheduler where
  periods : Periods := {}
  lastMedium : Option Nat := none
  lastSlow : Option Nat := none
  deriving DecidableEq, Repr

namespace Scheduler

/-- Has the period passed since the last time?  The first time is always due. -/
def due (last : Option Nat) (now periodMs : Nat) : Bool :=
  match last with
  | none => true
  | some last => periodMs * 1000000 ≤ now - last

variable {σ κ ω : Type} [Transport σ] [Listener κ ω]

/-- Refreshes a tier, and tells whether the cycle goes on. -/
def visit (tier : Tier) : Gateway.Action σ κ ω Bool := do
  match ← Gateway.attempt (Gateway.update tier) with
  | .ok () => pure true
  | .error cause => pure (!cause.isLinkFailure)

/-- Turns to the slow tier if it is due. -/
def visitSlow (now : Nat) (s : Scheduler) : Gateway.Action σ κ ω Scheduler := do
  -- The time is noted also if the refresh fails: a faulty tier does not get more frequent.
  if due s.lastSlow now s.periods.slowMs then
    let _ ← visit .slow
    pure { s with lastSlow := some now }
  else pure s

/-- Turns to the medium tier and then to the slow tier, as they are due. -/
def visitDue (now : Nat) (s : Scheduler) : Gateway.Action σ κ ω Scheduler := do
  if due s.lastMedium now s.periods.mediumMs then
    let s := { s with lastMedium := some now }
    if ← visit .medium then visitSlow now s else pure s
  else visitSlow now s

/-- One cycle. `now` is the reading of the clock when the fast tier is done. -/
def cycle (now : Nat) (s : Scheduler) : Gateway.Action σ κ ω Scheduler := do
  if ← Gateway.checkConnection then
    if ← visit .preFast then
      if ← visit .fast then visitDue now s else pure s
    else pure s
  else pure s

/-- What wakes a running scheduler: a tick of the fast period with the reading of the clock then, or
    news about the shutdown. -/
inductive Event where
  | tick (now : Nat)
  /-- The shutdown is set to a value. -/
  | signal (stop : Bool)
  /-- Nobody is left who could set the shutdown. -/
  | dropped
  deriving DecidableEq, Repr

/-- Runs until the shutdown is true or cannot be set any more: one cycle for each tick. -/
def run (shutdown : Bool) (s : Scheduler) : List Event → Gateway.Action σ κ ω Scheduler
  | [] => pure s
  | event :: more =>
    if shutdown then pure s
    else
      match event with
      | .tick now => do
        let s ← s.cycle now
        run shutdown s more
      | .signal stop => run stop s more
      | .dropped => pure s

end Scheduler

end PmacPoll
