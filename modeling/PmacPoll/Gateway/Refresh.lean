import PmacPoll.Gateway.Exchange

/-!
# Refreshing a tier

A refresh sends all commands of a tier and only then stores a value, so that a connection lost in
the middle leaves every value as it was. Then it tells the listeners. The outside locks are taken in
their order before anything else and are released at the end, so that nobody who holds one of them
sees a refresh half done.

While status reads are suppressed the medium and slow tiers are left out, and of the fast tier three
calls in four; the prefast tier goes with the fast call that follows it.
-/

namespace PmacPoll.Gateway

variable {σ κ ω : Type}

/-! ### Suppression -/

/-- Of how many suppressed fast refreshes one is carried out. -/
def fastDivisor : UInt32 := 4

/-- Is a refresh of the tier left out?  Only calls of the fast tier are counted. -/
def suppresses (tier : Tier) (g : Gateway σ κ ω) : Bool × Gateway σ κ ω :=
  if g.suppressing then
    -- The prefast call before a fast one sees the count that the fast one will have.
    let next := g.suppressCount + 1
    match tier with
    | .medium | .slow => (true, g)
    | .fast => (next % fastDivisor != 0, { g with suppressCount := next })
    | .preFast => (next % fastDivisor != 0, g)
  else (false, g)

/-! ### Storing replies -/

/-- What storing the replies of a refresh has come to: the values, the counts, and the first thing
    that was wrong. -/
structure Stored where
  table : VariableTable
  counters : Counters
  error : Option GatewayError := none

/-- Stores the reply to one command; of a reported error, the values given before it. -/
def Stored.reply (s : Stored) (command : String) (reply : Reply) : Stored :=
  -- An earlier error is never replaced: the first one is what the refresh fails with.
  if reply.isDeviceError then
    { table := (s.table.updateChunk command reply.valuesText).2
      counters := s.counters.deviceError
      error := s.error <|> some (.device (reply.errorCode?.getD "")) }
  else
    match s.table.updateChunk command reply.text with
    | (.ok _, table) => { s with table }
    | (.error counts, table) =>
      { table
        counters := s.counters.mismatch
        error := s.error <|> some (.mismatch counts) }

/-- Stores the replies to some commands in order. -/
def Stored.replies (s : Stored) (replies : List (String × Reply)) : Stored :=
  replies.foldl (fun s (command, reply) => s.reply command reply) s

/-- Completes a refresh of which all replies are there: stores them, calls the listeners, and makes
    a record of it. -/
def complete [Listener κ ω] [Transport σ] (tier : Tier) (started : Nat)
    (replies : List (String × Reply)) : Action σ κ ω Unit := do
  -- The replies are here, so from now on nothing can fail before everything is stored.
  let g ← get
  let state := g.tiers.get tier
  let stored := Stored.replies ⟨state.table, g.counters, none⟩ replies
  let (listeners, reports) := notifyAll ⟨tier, stored.table, g.locks⟩ state.listeners
  let sequence := g.sequence + 1
  let completedAt ← now
  let duration := completedAt - started
  let update : TierUpdate := { sequence, completedAt, duration }
  set { g with
    tiers := g.tiers.set tier ⟨stored.table, listeners, some update⟩
    counters := stored.counters
    updateTime := duration
    sequence
    journal := g.journal ++ reports }
  raise stored.error

/-! ### Refreshes -/

variable [Transport σ]

/-- Sends some commands and pairs them with their replies. -/
def transactAll : List String → Action σ κ ω (List (String × Reply))
  | [] => pure []
  | command :: more => do
    let reply ← transact command
    let replies ← transactAll more
    pure ((command, reply) :: replies)

/-- Notes how long a refresh took that was not completed. -/
def recordTime (started : Nat) : Action σ κ ω Unit := do
  let ended ← now
  modify fun g => { g with updateTime := ended - started }

variable [Listener κ ω]

/-- Refreshes a tier. -/
def refresh (tier : Tier) : Action σ κ ω Unit := do
  let started ← now
  match ((← get).table tier).commands with
  | [] => recordTime started
  | commands =>
    match ← attempt (transactAll commands) with
    | .ok replies => complete tier started replies
    | .error cause =>
      recordTime started
      throw (.failed cause)

/-- Refreshes a tier unless that is suppressed. -/
def refreshUnlessSuppressed (tier : Tier) : Action σ κ ω Unit := do
  let (suppressed, g) := (← get).suppresses tier
  set g
  if suppressed then
    modify fun g => { g with counters := g.counters.suppressedUpdate }
  else
    refresh tier

/-! ### Locks -/

/-- Takes free locks in order, up to the first that somebody holds; tells whether all are taken. -/
def takeLocks : List Bool → List Bool × Bool
  | [] => ([], true)
  | true :: rest => (true :: rest, false)
  | false :: rest =>
    let (rest, all) := takeLocks rest
    (true :: rest, all)

/-- Refreshes a tier under the outside locks, of which the first `taken` are taken already. While
    somebody else holds a lock it waits, with the earlier ones taken. -/
def updateFrom (taken : Nat) (tier : Tier) : Action σ κ ω Unit := do
  let g ← get
  let (rest, all) := takeLocks (g.locks.drop taken)
  set { g with locks := g.locks.take taken ++ rest }
  if all then
    -- The locks are released also after a failure.
    let result ← attempt (refreshUnlessSuppressed tier)
    modify fun g => { g with locks := g.locks.map fun _ => false }
    match result with
    | .ok () => pure ()
    | .error cause => throw (.failed cause)
  else throw .unfinished

/-- Refreshes a tier under the outside locks. -/
def update (tier : Tier) : Action σ κ ω Unit :=
  updateFrom 0 tier

end PmacPoll.Gateway
