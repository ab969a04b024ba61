import PmacPoll.Gateway.Refresh

/-!
# The gateway

The operations that clients use: registering variables and listeners, single commands, refreshes,
the state of the connection, and the suppression of status reads.
-/

namespace PmacPoll.Gateway

variable {σ κ ω : Type}

/-! ### Registering -/

/-- Registers variables on a tier. -/
def addVariables (tier : Tier) (names : List String) (g : Gateway σ κ ω) : Gateway σ κ ω :=
  g.modifyTier tier fun state => { state with table := state.table.addAll names }

/-- Registers a variable on a tier. -/
def addVariable (tier : Tier) (name : String) (g : Gateway σ κ ω) : Gateway σ κ ω :=
  g.addVariables tier [name]

/-- Registers the variables of a list with blanks between them, and tells how many it has. -/
def addMonitored (tier : Tier) (list : String) (g : Gateway σ κ ω) : Nat × Gateway σ κ ω :=
  let names := Text.words list
  (names.length, g.addVariables tier names)

/-- Removes a variable from a tier, and tells whether it was there. -/
def removeVariable (tier : Tier) (name : String) (g : Gateway σ κ ω) : Bool × Gateway σ κ ω :=
  let (found, table) := (g.table tier).remove name
  (found, g.modifyTier tier fun state => { state with table })

/-- Registers a listener on a tier. -/
def register (listener : κ) (tier : Tier) (g : Gateway σ κ ω) : Gateway σ κ ω :=
  g.modifyTier tier fun state => { state with listeners := state.listeners ++ [listener] }

/-! ### Suppressing status reads -/

/-- Leaves status reads out from now on. -/
def suppress (g : Gateway σ κ ω) : Gateway σ κ ω :=
  { g with suppressing := true, suppressCount := 0 }

/-- Carries status reads out again. -/
def reinstate (g : Gateway σ κ ω) : Gateway σ κ ω :=
  { g with suppressing := false, suppressCount := 0 }

/-! ### Commands and refreshes -/

section

variable [Transport σ]

/-- Sends a single command, whatever its reply says, and gives the text of the reply. -/
def immediate (command : String) : Action σ κ ω String := do
  let reply ← transact command
  if reply.isDeviceError then
    modify fun g => { g with counters := g.counters.deviceError }
  pure reply.text

/-- Tells whether the connection stands, and connects anew if it does not. -/
def checkConnection : Action σ κ ω Bool :=
  ensureConnected

/-- Tells whether the connection stands, after connecting anew if it did not, and whether the
    session is told of for the first time. -/
def status : Action σ κ ω ConnectionStatus := do
  let connected ← ensureConnected
  let newConnection := connected && (← get).newConnection
  if newConnection then
    modify fun g => { g with newConnection := false }
  pure { connected, newConnection }

variable [Listener κ ω]

/-- Refreshes some tiers in order, and gives the first error. -/
def updateEach : List Tier → Action σ κ ω (Option GatewayError)
  | [] => pure none
  | tier :: more => do
    let result ← attempt (update tier)
    let later ← updateEach more
    match result with
    | .ok () => pure later
    | .error cause => pure (some cause)

/-- Refreshes all tiers, and fails with the first error. -/
def pollAll : Action σ κ ω Unit := do
  raise (← updateEach Tier.all)

end

end PmacPoll.Gateway
