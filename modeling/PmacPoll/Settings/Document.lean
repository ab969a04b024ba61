import PmacPoll.Channel
import PmacPoll.Endpoint
import PmacPoll.Json.Document
import PmacPoll.Scheduler

/-!
# Settings as documents

The settings of a channel, an endpoint and a scheduler can be read from JSON documents and written
as such. Fields that are absent have their defaults, except for the host of an endpoint.
-/

namespace PmacPoll

open Json

/-- The fields of a document that are read in this order. -/
private def fieldsOf (names : List String) (text : String) : Option (List (Option Value)) := do
  (← Document.parse? text).fields names

/-- A truth value as it is written. -/
private def writeTruth (value : Bool) : String :=
  if value then "true" else "false"

namespace Channel.Config

/-- Reads the settings of a channel. -/
def ofJson? (text : String) : Option Channel.Config := do
  match ← fieldsOf ["timeout_ms", "max_reply_bytes", "flush_before_write"] text with
  | [timeoutMs, maxReplyBytes, flushBeforeWrite] =>
    return {
      timeoutMs := ← natural? UInt64.size 5000 timeoutMs
      maxReplyBytes := ← natural? UInt64.size 1024 maxReplyBytes
      flushBeforeWrite := ← truth? true flushBeforeWrite }
  | _ => none

/-- Writes the settings of a channel. -/
def toJson (config : Channel.Config) : String :=
  writeObject [
    ("timeout_ms", toString config.timeoutMs),
    ("max_reply_bytes", toString config.maxReplyBytes),
    ("flush_before_write", writeTruth config.flushBeforeWrite)]

/-- How long a read waits, in nanoseconds. -/
def timeoutNanos (config : Channel.Config) : Nat :=
  config.timeoutMs * 1000000

end Channel.Config

namespace Endpoint

/-- Reads an endpoint. -/
def ofJson? (text : String) : Option Endpoint := do
  match ← fieldsOf ["host", "port", "connect_timeout_ms"] text with
  | [host, port, connectTimeoutMs] =>
    return {
      host := ← string? host
      port := ← natural? UInt16.size 1025 port
      connectTimeoutMs := ← natural? UInt64.size 5000 connectTimeoutMs }
  | _ => none

/-- Writes an endpoint. -/
def toJson (e : Endpoint) : String :=
  writeObject [
    ("host", quote e.host),
    ("port", toString e.port),
    ("connect_timeout_ms", toString e.connectTimeoutMs)]

end Endpoint

namespace Periods

/-- Reads the periods of a scheduler. -/
def ofJson? (text : String) : Option Periods := do
  match ← fieldsOf ["fast_period_ms", "medium_period_ms", "slow_period_ms"] text with
  | [fastMs, mediumMs, slowMs] =>
    return {
      fastMs := ← natural? UInt64.size 500 fastMs
      mediumMs := ← natural? UInt64.size 2000 mediumMs
      slowMs := ← natural? UInt64.size 5000 slowMs }
  | _ => none

/-- Writes the periods of a scheduler. -/
def toJson (periods : Periods) : String :=
  writeObject [
    ("fast_period_ms", toString periods.fastMs),
    ("medium_period_ms", toString periods.mediumMs),
    ("slow_period_ms", toString periods.slowMs)]

end Periods

end PmacPoll
