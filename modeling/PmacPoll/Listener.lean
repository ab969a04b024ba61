import PmacPoll.Tier
import PmacPoll.VariableTable

/-!
# Listeners

A listener is told of every refresh of the tier that it is registered on. It may remember things
from one call to the next, and it may report.
-/

namespace PmacPoll

/-- What a listener is told: which tier was refreshed, what its variables are now, and which of the
    outside locks are held during the call. -/
structure Notice where
  tier : Tier
  table : VariableTable
  locks : List Bool := []

/-- Listeners of type `κ` that report things of type `ω`. -/
class Listener (κ : Type) (ω : outParam Type) where
  /-- The listener after a call, and its reports. -/
  notify : κ → Notice → κ × List ω

/-- Calls some listeners in order. -/
def notifyAll {κ ω : Type} [Listener κ ω] (notice : Notice) : List κ → List κ × List ω
  | [] => ([], [])
  | listener :: more =>
    let (listener, reports) := Listener.notify listener notice
    let (more, later) := notifyAll notice more
    (listener :: more, reports ++ later)

end PmacPoll
