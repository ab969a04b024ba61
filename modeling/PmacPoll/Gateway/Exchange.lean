import PmacPoll.Gateway.State
import PmacPoll.Text.Utf8

/-!
# Exchanges of a gateway

Every exchange is counted, whether it gets its reply or not. One that fails gives the connection up;
it stands again after the transport was connected anew and an empty command got a reply.
-/

namespace PmacPoll.Gateway

variable {σ κ ω : Type}

/-- Counts an exchange that got its reply. -/
def recordReply (exchange : Exchange) (elapsed : Nat) (g : Gateway σ κ ω) : Gateway σ κ ω :=
  let read := exchange.reply.length
  { g with
    statistics := g.statistics.record exchange.written read elapsed true
    counters := g.counters.transaction (UInt64.ofNat exchange.written) (UInt64.ofNat read)
      (UInt64.ofNat (elapsed / 1000000)) }

/-- Counts the cause of a failed exchange. -/
def countCause (cause : LinkError) (counters : Counters) : Counters :=
  if cause.isTimeout then counters.timeout
  else if cause.isTransport then counters.transportError
  else counters

/-- Counts an exchange that failed; its command may have gone out. -/
def recordFailure (cause : LinkError) (elapsed : Nat) (g : Gateway σ κ ω) : Gateway σ κ ω :=
  { g with
    statistics := g.statistics.record g.channel.lastWritten 0 elapsed false
    counters := countCause cause g.counters.failure }

/-- Gives the connection up. -/
def loseConnection (g : Gateway σ κ ω) : Gateway σ κ ω :=
  { g with linkState := .disconnected, newConnection := true }

/-- Begins a session. -/
def beginSession (g : Gateway σ κ ω) : Gateway σ κ ω :=
  { g with
    linkState := .connected
    newConnection := true
    session := g.session + 1
    counters := g.counters.reconnect }

/-- Notes whether the connection stands. -/
def setLinkState (linkState : LinkState) : Action σ κ ω Unit :=
  modify fun g => { g with linkState }

variable [Transport σ]

/-- Sends a command and reads its reply, whether or not the connection stands. -/
def exchange (command : String) : Action σ κ ω Reply := do
  let started ← now
  let result ← onChannel (Channel.writeRead (Utf8.encode command))
  let elapsed := (← now) - started
  match result with
  | .ok exchange =>
    modify (recordReply exchange elapsed)
    pure exchange.reply
  | .error cause =>
    modify (recordFailure cause elapsed)
    throw (.failed (.ofLink cause))

/-- Sends a command on a connection that stands; a failure gives the connection up. -/
def transact (command : String) : Action σ κ ω Reply := do
  if (← get).isConnected then
    match ← attempt (exchange command) with
    | .ok reply => pure reply
    | .error cause =>
      modify loseConnection
      throw (.failed cause)
  else throw (.failed .disconnected)

/-- Connects anew if the connection does not stand, and tells whether it stands then. -/
def ensureConnected : Action σ κ ω Bool := do
  if (← get).isConnected then pure true
  else
    setLinkState .connecting
    match ← onChannel Channel.reconnect with
    | .error _ =>
      setLinkState .disconnected
      pure false
    | .ok () =>
      -- A transport that connects is no proof of a controller; a reply is.
      match ← attempt (exchange "") with
      | .ok _ =>
        modify beginSession
        pure true
      | .error _ =>
        setLinkState .disconnected
        pure false

end PmacPoll.Gateway
