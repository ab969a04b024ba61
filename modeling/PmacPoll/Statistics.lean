import PmacPoll.Binary64

/-!
# Transaction statistics

Totals over the transactions of one connection, failed ones included, and their mean duration.
Counts are 64-bit words that wrap; durations are in nanoseconds.
-/

namespace PmacPoll

/-- Totals over transactions, and the figures of the last one. -/
structure Statistics where
  messages : UInt64 := 0
  failures : UInt64 := 0
  bytesWritten : UInt64 := 0
  bytesRead : UInt64 := 0
  lastBytesWritten : UInt64 := 0
  lastBytesRead : UInt64 := 0
  elapsed : Nat := 0
  lastElapsed : Nat := 0
  deriving DecidableEq, Repr

namespace Statistics

/-- Counts a transaction. -/
def record (s : Statistics) (written read elapsed : Nat) (ok : Bool) : Statistics where
  messages := s.messages + 1
  failures := if ok then s.failures else s.failures + 1
  bytesWritten := s.bytesWritten + UInt64.ofNat written
  bytesRead := s.bytesRead + UInt64.ofNat read
  lastBytesWritten := UInt64.ofNat written
  lastBytesRead := UInt64.ofNat read
  elapsed := s.elapsed + elapsed
  lastElapsed := elapsed

/-- The nanoseconds of a second. -/
def nanosPerSecond : Nat := 1000000000

/-- The mean duration of a transaction, in nanoseconds; 0 if there was none. Up to 2^32 - 1
    transactions it is the exact quotient rounded down; beyond, a quotient of binary floating-point
    numbers rounded to the nearest nanosecond. -/
def averageElapsed (s : Statistics) : Nat :=
  if s.messages.toNat < UInt32.size then s.elapsed / s.messages.toNat
  else
    let seconds := Float.ofNat (s.elapsed / nanosPerSecond) +
      Float.ofNat (s.elapsed % nanosPerSecond) / Float.ofNat nanosPerSecond
    Binary64.roundScaled nanosPerSecond (seconds / s.messages.toFloat)

end Statistics

end PmacPoll
