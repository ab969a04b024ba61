/-!
# Counters

What happened on the link, counted in 64-bit words that wrap.
-/

namespace PmacPoll

/-- Counts of what happened. -/
structure Counters where
  transactions : UInt64 := 0
  failures : UInt64 := 0
  timeouts : UInt64 := 0
  transportErrors : UInt64 := 0
  bytesWritten : UInt64 := 0
  bytesRead : UInt64 := 0
  latencyMsTotal : UInt64 := 0
  latencyMsCount : UInt64 := 0
  mismatches : UInt64 := 0
  deviceErrors : UInt64 := 0
  reconnects : UInt64 := 0
  suppressedUpdates : UInt64 := 0
  deriving DecidableEq, Repr

namespace Counters

/-- Counts a transaction that got its reply. -/
def transaction (c : Counters) (written read latencyMs : UInt64) : Counters :=
  { c with
    transactions := c.transactions + 1
    bytesWritten := c.bytesWritten + written
    bytesRead := c.bytesRead + read
    latencyMsTotal := c.latencyMsTotal + latencyMs
    latencyMsCount := c.latencyMsCount + 1 }

/-- Counts a transaction that failed. -/
def failure (c : Counters) : Counters :=
  { c with transactions := c.transactions + 1, failures := c.failures + 1 }

/-- Counts silence. -/
def timeout (c : Counters) : Counters :=
  { c with timeouts := c.timeouts + 1 }

/-- Counts a break of the connection. -/
def transportError (c : Counters) : Counters :=
  { c with transportErrors := c.transportErrors + 1 }

/-- Counts a reply whose lines do not match its command. -/
def mismatch (c : Counters) : Counters :=
  { c with mismatches := c.mismatches + 1 }

/-- Counts an error that the controller reported. -/
def deviceError (c : Counters) : Counters :=
  { c with deviceErrors := c.deviceErrors + 1 }

/-- Counts a connection that was made anew. -/
def reconnect (c : Counters) : Counters :=
  { c with reconnects := c.reconnects + 1 }

/-- Counts a refresh that was left out. -/
def suppressedUpdate (c : Counters) : Counters :=
  { c with suppressedUpdates := c.suppressedUpdates + 1 }

/-- The mean latency of the transactions that got a reply, in whole milliseconds; 0 if there was
    none. -/
def averageLatencyMs (c : Counters) : UInt64 :=
  c.latencyMsTotal / c.latencyMsCount

/-- What was counted since an earlier reading. -/
def since (c earlier : Counters) : Counters where
  transactions := c.transactions - earlier.transactions
  failures := c.failures - earlier.failures
  timeouts := c.timeouts - earlier.timeouts
  transportErrors := c.transportErrors - earlier.transportErrors
  bytesWritten := c.bytesWritten - earlier.bytesWritten
  bytesRead := c.bytesRead - earlier.bytesRead
  latencyMsTotal := c.latencyMsTotal - earlier.latencyMsTotal
  latencyMsCount := c.latencyMsCount - earlier.latencyMsCount
  mismatches := c.mismatches - earlier.mismatches
  deviceErrors := c.deviceErrors - earlier.deviceErrors
  reconnects := c.reconnects - earlier.reconnects
  suppressedUpdates := c.suppressedUpdates - earlier.suppressedUpdates

end Counters

end PmacPoll
