import PmacPoll.Bytes
import PmacPoll.Text.Blank
import PmacPoll.Text.Decimal
import PmacPoll.Text.Utf8
import PmacPoll.Tier

/-!
# Settings from the environment

The settings of a monitor are read from variables of its environment. Only the host has to be there.
A variable whose value is not text counts as absent. The first variable that cannot be used is
reported, in the order host, port, timeouts, reply size, periods, interval.
-/

namespace PmacPoll

/-- The variables of an environment and their values. -/
abbrev Environment := String → Option Bytes

/-- The value of a variable, if it is there and is text. -/
def Environment.text? (env : Environment) (key : String) : Option String :=
  (env key).bind Utf8.decode?

/-- Why settings cannot be used. -/
inductive SettingsError where
  | missing (key : String)
  | invalid (key value : String)
  deriving DecidableEq, Repr

/-- The text of an error. -/
def SettingsError.message : SettingsError → String
  | missing key => "missing required env: " ++ key
  | invalid key value => "invalid value for " ++ key ++ ": " ++ value

/-- What a monitor has to know. -/
structure Settings where
  host : String
  port : Nat
  timeoutMs : Nat
  connectTimeoutMs : Nat
  maxReplyBytes : Nat
  flushBeforeWrite : Bool
  fastPeriodMs : Nat
  mediumPeriodMs : Nat
  slowPeriodMs : Nat
  statsIntervalSeconds : Nat
  /-- The variables to poll. -/
  monitored : PerTier (List String)
  deriving Repr

namespace Settings

/-- The variables in a list with blanks between them. -/
def variableList (list : String) : List String :=
  Text.words list

/-- A number below `bound`, or the default of an absent variable. -/
def number (env : Environment) (bound : Nat) (key : String) (default : Nat) :
    Except SettingsError Nat :=
  match env.text? key with
  | none => .ok default
  | some value =>
    match Decimal.parse? bound value with
    | some n => .ok n
    | none => .error (.invalid key value)

/-- A number of 64 bits that is not zero, or the default of an absent variable. -/
def positive (env : Environment) (key : String) (default : Nat) : Except SettingsError Nat := do
  let n ← number env UInt64.size key default
  if n = 0 then .error (.invalid key "0") else .ok n

/-- A switch, which `1`, `true` and `on` set, whatever the case of their letters. -/
def switch (env : Environment) (key : String) (default : Bool) : Bool :=
  match env.text? key with
  | none => default
  | some value => ["1", "true", "on"].contains (String.ofList (value.toList.map Char.toLower))

/-- The variables in a list; none if it is absent. -/
def list (env : Environment) (key : String) : List String :=
  match env.text? key with
  | none => []
  | some value => variableList value

/-- The host, which has to be there and not to be blank. -/
def requiredHost (env : Environment) : Except SettingsError String :=
  let key := "PMAC_HOST"
  match env.text? key with
  | none => .error (.missing key)
  | some host => if (Text.trim host).isEmpty then .error (.invalid key host) else .ok host

/-- Reads the settings. -/
def ofEnvironment (env : Environment) : Except SettingsError Settings := do
  let host ← requiredHost env
  let port ← number env UInt16.size "PMAC_PORT" 1025
  let timeoutMs ← positive env "PMAC_TIMEOUT_MS" 5000
  let connectTimeoutMs ← positive env "PMAC_CONNECT_TIMEOUT_MS" 5000
  let maxReplyBytes ← positive env "PMAC_MAX_REPLY_BYTES" 1024
  let flushBeforeWrite := switch env "PMAC_FLUSH_BEFORE_WRITE" true
  let fastPeriodMs ← positive env "PMAC_FAST_PERIOD_MS" 500
  let mediumPeriodMs ← positive env "PMAC_MEDIUM_PERIOD_MS" 2000
  let slowPeriodMs ← positive env "PMAC_SLOW_PERIOD_MS" 5000
  let statsIntervalSeconds ← number env UInt64.size "PMAC_STATS_INTERVAL_SECONDS" 30
  let monitored : PerTier (List String) :=
    { preFast := list env "PMAC_MONITOR_PREFAST"
      fast := list env "PMAC_MONITOR_FAST"
      medium := list env "PMAC_MONITOR_MEDIUM"
      slow := list env "PMAC_MONITOR_SLOW" }
  return { host, port, timeoutMs, connectTimeoutMs, maxReplyBytes, flushBeforeWrite, fastPeriodMs,
           mediumPeriodMs, slowPeriodMs, statsIntervalSeconds, monitored }

end Settings

end PmacPoll
