import PmacPoll.Channel.Inbox
import PmacPoll.Link

/-!
# Exchanges with the controller

A channel sends one command at a time and puts its reply together from whatever reads it takes.

Reading a reply ends by itself when nothing is to be skipped: every read that brings bytes leaves
the scanner less room. The rest of a message that was cut off has no such bound, and a peer that
sends without end can keep a channel skipping for ever. After as many rounds as the transport's
horizon the outcome is `unfinished`, which is no answer and no error.
-/

namespace PmacPoll

/-- Why an operation has no value: it failed, or it has not come to an end. -/
inductive Stop (ε : Type) where
  | failed (cause : ε)
  | unfinished
  deriving DecidableEq, Repr

/-- The settings of a channel. -/
structure Channel.Config where
  /-- How long a read waits. -/
  timeoutMs : Nat := 5000
  /-- The most bytes that a reply may have. -/
  maxReplyBytes : Nat := 1024
  /-- Have the controller drop what is waiting before each command? -/
  flushBeforeWrite : Bool := true
  deriving DecidableEq, Repr

/-- A channel over a transport in state `link`. -/
structure Channel (σ : Type) where
  link : σ
  config : Channel.Config := {}
  inbox : Inbox := {}
  /-- How many bytes of the command of the last exchange went out. -/
  lastWritten : Nat := 0

/-- A command that was sent, and the reply to it. -/
structure Exchange where
  written : Nat
  reply : Reply
  deriving DecidableEq, Repr

namespace Channel

variable {σ α : Type}

/-- An operation on a channel. -/
abbrev Action (σ α : Type) : Type := EStateM (Stop LinkError) (Channel σ) α

/-- Makes a call on the link of a channel. -/
def onLink (call : Link σ α) : Action σ α := fun channel =>
  match call channel.link with
  | .ok value link => .ok value { channel with link }
  | .error cause link => .error (.failed cause) { channel with link }

variable [Transport σ]

/-- How the other end is called. -/
def describe (channel : Channel σ) : String :=
  Transport.describe channel.link

/-- Sends a command in one frame, and gives how many of its bytes that carries. -/
def writeCommand (command : Bytes) : Action σ Nat := do
  onLink (Link.send (Frame.ofCommand command))
  pure (min command.length Frame.maxPayload)

/-- Has the controller drop what is waiting, and drops what was received. The controller answers
    with one byte, but nothing hangs on that answer. -/
def flush : Action σ Unit := do
  -- Forgotten first: it is gone even if the request cannot be sent.
  modify fun channel => { channel with inbox := {} }
  onLink (Link.send Frame.flush)
  let timeoutMs := (← get).config.timeoutMs
  match ← onLink (Link.attempt (Transport.read 1 timeoutMs)) with
  | .ok _ => pure ()
  | .error cause => if cause.isTimeout then pure () else throw (.failed cause)

/-- Reads until the scanner is done: the first time by waiting for bytes, later by asking for them.
    Silence after the first byte ends the reply where it stands. At most `rounds` reads may bring
    nothing but bytes to skip. -/
def collect (config : Config) (rounds : Nat) (first : Bool) (r : Reassembly) (link : σ) :
    EStateM.Result (Stop LinkError) (Reassembly × σ) Unit :=
  if _hdone : r.scanner.isDone then .ok () (r, link)
  else
    let timeoutMs := config.timeoutMs
    let call := if first then Link.receive timeoutMs Frame.maxRead timeoutMs
      else Link.receiveMore timeoutMs Frame.maxRead timeoutMs
    match call link with
    | .error cause link =>
      -- What came before the silence is a reply, if it is anything.
      if cause.isTimeout && !r.scanner.isEmpty then .ok () (r, link)
      else .error (.failed cause) (r, link)
    | .ok chunk link =>
      -- Bytes that are skipped leave the room as it is, so only they cost a round.
      if _htail : r.inbox.tail = none then collect config rounds false (r.absorb chunk) link
      else match rounds with
        | 0 => .error .unfinished (r.absorb chunk, link)
        | rounds + 1 => collect config rounds false (r.absorb chunk) link
termination_by (rounds, r.scanner.room)
decreasing_by
  · exact Prod.Lex.right _ (Reassembly.room_absorb_lt (by simpa using _hdone) _htail chunk.2.1)
  · exact Prod.Lex.left _ _ (Nat.lt_succ_self _)

/-- Reads one reply. It is a timeout if not one byte of a reply comes. -/
def readReply : Action σ Reply := fun channel =>
  let config := channel.config
  let start := Reassembly.start config.maxReplyBytes channel.inbox
  match collect config (Transport.horizon channel.link) true start channel.link with
  | .ok () (r, link) => .ok r.scanner.finish { channel with inbox := r.inbox, link }
  | .error stop (r, link) => .error stop { channel with inbox := r.inbox, link }

/-- Sends a command and reads the reply to it. -/
def writeRead (command : Bytes) : Action σ Exchange := do
  -- Until the command is out, a failure has cost no byte of it.
  modify fun channel => { channel with lastWritten := 0 }
  if (← get).config.flushBeforeWrite then
    flush
  let written ← writeCommand command
  modify fun channel => { channel with lastWritten := written }
  let reply ← readReply
  pure { written, reply }

/-- Makes the connection anew, and drops what was received. -/
def reconnect : Action σ Unit := do
  modify fun channel => { channel with inbox := {} }
  onLink Transport.reconnect

end Channel

end PmacPoll
