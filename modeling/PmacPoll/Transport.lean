import PmacPoll.Bytes
import PmacPoll.LinkError

/-!
# Transports

A transport carries bytes to a controller and back. Nothing is assumed of it but the types below:
its state may be of any kind, each call may succeed or fail, and a failed call may have changed the
state. So what is proved for every transport holds whatever the controller and the network do.
-/

namespace PmacPoll

/-- A call on the link: it gives a value or fails, and leaves a state either way. -/
abbrev Link (σ α : Type) : Type := EStateM LinkError σ α

/-- What carries bytes to a controller, over states of type `σ`. -/
class Transport (σ : Type) where
  /-- Writes all of the bytes, and gives how many they are. -/
  write : Bytes → Link σ Nat
  /-- Reads at most `size` bytes. None in the given milliseconds is a timeout. -/
  read : (size timeoutMs : Nat) → Link σ { bytes : Bytes // bytes.length ≤ size }
  /-- Makes the connection anew. -/
  reconnect : Link σ Unit
  /-- What the other end is called. -/
  describe : σ → String
  /-- The reading of a clock, in nanoseconds. -/
  now : σ → Nat
  /-- How many reads in a row may bring bytes before the stream is taken to be endless. -/
  horizon : σ → Nat

namespace Link

variable {σ α : Type}

/-- Makes a call and gives its failure as a value. -/
def attempt (call : Link σ α) : Link σ (Except LinkError α) := fun state =>
  match call state with
  | .ok value state => .ok (.ok value) state
  | .error cause state => .ok (.error cause) state

end Link

end PmacPoll
