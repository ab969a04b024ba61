import PmacPoll.Frame
import PmacPoll.Transport

/-!
# Sending frames and reading bytes

The exchanges below the level of a reply. A controller may hold back reply data: a probe asks
whether it does, and a fetch makes it send them. A plain read is tried first; only after silence is
the controller probed, and it is asked to send only if the probe says that data are waiting.
-/

namespace PmacPoll

/-- Bytes that were read: at least one, at most `size`. -/
abbrev Chunk (size : Nat) : Type :=
  { bytes : Bytes // bytes ≠ [] ∧ bytes.length ≤ size }

namespace Link

variable {σ : Type} [Transport σ]

/-- Writes a frame. -/
def send (frame : Frame) : Link σ Unit := do
  let _ ← Transport.write frame.encode

/-- Reads up to `wanted` bytes, with as many reads as they take; silence ends it early. -/
def gather (timeoutMs : Nat) : (wanted : Nat) → Link σ Bytes
  | 0 => pure []
  | wanted + 1 => do
    match ← attempt (Transport.read (wanted + 1) timeoutMs) with
    | .ok ⟨[], _⟩ => pure []
    | .ok ⟨byte :: more, _⟩ => do
      let later ← gather timeoutMs (wanted - more.length)
      pure (byte :: more ++ later)
    | .error cause => if cause.isTimeout then pure [] else throw cause
termination_by wanted => wanted
decreasing_by
  exact Nat.lt_succ_of_le (Nat.sub_le wanted more.length)

/-- Does an answer to a probe say that data are waiting?  It has two bytes, the first not zero. -/
def saysReady : Bytes → Bool
  | [first, _] => first != 0
  | _ => false

/-- Probes whether the controller holds reply data back. -/
def isReady (timeoutMs : Nat) : Link σ Bool := do
  send Frame.readReady
  let answer ← gather timeoutMs 2
  pure (saysReady answer)

/-- Reads at most `size` bytes after a silence: probes the controller, asks it to send, and reads
    once more. -/
def fetch (probeMs size timeoutMs : Nat) : Link σ (Chunk size) := do
  if ← isReady probeMs then
    send (Frame.getBuffer size)
    let bytes ← Transport.read size timeoutMs
    -- A read without bytes is silence, also here: the caller never sees an empty chunk.
    if h : bytes.1 = [] then throw (.timeout "empty retry read")
    else pure ⟨bytes.1, h, bytes.2⟩
  else
    throw (.timeout ("no reply within " ++ toString timeoutMs ++ "ms and nothing pending"))

/-- Reads at most `size` bytes, and fetches what is held back if none come. -/
def receive (probeMs size timeoutMs : Nat) : Link σ (Chunk size) := do
  match ← attempt (Transport.read size timeoutMs) with
  | .ok bytes =>
    if h : bytes.1 = [] then fetch probeMs size timeoutMs
    else pure ⟨bytes.1, h, bytes.2⟩
  | .error cause => if cause.isTimeout then fetch probeMs size timeoutMs else throw cause

/-- Reads on in the middle of a reply: data held back are asked for before the read. -/
def receiveMore (probeMs size timeoutMs : Nat) : Link σ (Chunk size) := do
  if ← isReady probeMs then
    send (Frame.getBuffer size)
  receive probeMs size timeoutMs

end Link

end PmacPoll
