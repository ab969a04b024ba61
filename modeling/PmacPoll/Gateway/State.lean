import PmacPoll.Counters
import PmacPoll.Gateway.Error
import PmacPoll.Listener
import PmacPoll.Statistics

/-!
# The state of a gateway

A gateway owns the one connection to a controller. For each tier it holds the variables, their
listeners and a record of the last refresh; for the connection, whether it stands, which session it
is and what was counted.
-/

namespace PmacPoll

/-- Whether the connection stands. -/
inductive LinkState where
  | disconnected
  | connecting
  | connected
  deriving DecidableEq, Inhabited, Repr

/-- May commands be sent? -/
def LinkState.isConnected : LinkState → Bool
  | connected => true
  | _ => false

/-- What is told about the connection: `newConnection` is told once for each session. -/
structure ConnectionStatus where
  connected : Bool := false
  newConnection : Bool := false
  deriving DecidableEq, Inhabited, Repr

/-- The record of a completed refresh. -/
structure TierUpdate where
  /-- The ordinal of the refresh among those of all tiers, a plain number as in
      `Gateway.sequence`. -/
  sequence : Nat
  completedAt : Nat
  duration : Nat
  deriving DecidableEq, Repr

/-- What is kept for a tier. -/
structure TierState (κ : Type) where
  table : VariableTable := .empty
  listeners : List κ := []
  lastUpdate : Option TierUpdate := none

/-- A gateway over a transport with states in `σ`, with listeners in `κ` that report in `ω`. -/
structure Gateway (σ κ ω : Type) where
  channel : Channel σ
  tiers : PerTier (TierState κ) := .replicate {}
  linkState : LinkState := .disconnected
  /-- Is the present session still to be told of? -/
  newConnection : Bool := false
  /-- The number of the present session. -/
  session : Nat := 0
  /-- Are status reads suppressed? -/
  suppressing : Bool := false
  /-- How many fast refreshes were asked for since the suppression began. -/
  suppressCount : UInt32 := 0
  statistics : Statistics := {}
  counters : Counters := {}
  /-- How long the last refresh took. -/
  updateTime : Nat := 0
  /-- How many refreshes were completed. This is a plain number; a counter of 64 bits agrees with it
      in every run of fewer than `2 ^ 64` of them, and begins anew at the next one. -/
  sequence : Nat := 0
  /-- The outside locks that are held during a refresh, in the order in which they are taken. -/
  locks : List Bool := []
  /-- What the listeners have reported. -/
  journal : List ω := []

namespace Gateway

variable {σ κ ω α : Type}

/-- A gateway that is connected from the start, or has to connect first, and that takes a number of
    outside locks. -/
def new (link : σ) (config : Channel.Config) (locks : Nat) (connected : Bool) :
    Gateway σ κ ω where
  channel := { link, config }
  linkState := if connected then .connected else .disconnected
  newConnection := connected
  locks := List.replicate locks false

/-- May commands be sent? -/
def isConnected (g : Gateway σ κ ω) : Bool :=
  g.linkState.isConnected

/-- The variables of a tier. -/
def table (g : Gateway σ κ ω) (tier : Tier) : VariableTable :=
  (g.tiers.get tier).table

/-- The record of the last refresh of a tier. -/
def lastUpdate (g : Gateway σ κ ω) (tier : Tier) : Option TierUpdate :=
  (g.tiers.get tier).lastUpdate

/-- Changes what is kept for a tier. -/
def modifyTier (g : Gateway σ κ ω) (tier : Tier) (f : TierState κ → TierState κ) :
    Gateway σ κ ω :=
  { g with tiers := g.tiers.set tier (f (g.tiers.get tier)) }

/-- An operation on a gateway. -/
abbrev Action (σ κ ω α : Type) : Type := EStateM (Stop GatewayError) (Gateway σ κ ω) α

/-- Runs an operation and gives its failure as a value. -/
def attempt (action : Action σ κ ω α) : Action σ κ ω (Except GatewayError α) := fun g =>
  match action g with
  | .ok value g => .ok (.ok value) g
  | .error (.failed cause) g => .ok (.error cause) g
  | .error .unfinished g => .error .unfinished g

/-- Fails with a cause if there is one. -/
def raise : Option GatewayError → Action σ κ ω Unit
  | some cause => throw (.failed cause)
  | none => pure ()

/-- Runs an operation on the channel and gives its failure as a value. -/
def onChannel (action : Channel.Action σ α) : Action σ κ ω (Except LinkError α) := fun g =>
  match action g.channel with
  | .ok value channel => .ok (.ok value) { g with channel }
  | .error (.failed cause) channel => .ok (.error cause) { g with channel }
  | .error .unfinished channel => .error .unfinished { g with channel }

/-- The reading of the clock. -/
def now [Transport σ] : Action σ κ ω Nat := do
  pure (Transport.now (← get).channel.link)

end Gateway

end PmacPoll
