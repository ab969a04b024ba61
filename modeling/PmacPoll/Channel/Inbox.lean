import PmacPoll.Reply.Scanner

/-!
# Bytes between two replies

What a read brings beyond the end of a reply waits for the next one. When the size limit cut a reply
off, the rest of it is still to come: it is skipped, up to its own end, before anything counts as
part of the next reply.
-/

namespace PmacPoll

/-- What was received and is no part of a reply yet. -/
structure Inbox where
  /-- Bytes after the end of the last reply. -/
  pending : Bytes := []
  /-- The rest of a reply that was cut off is still to be skipped; is it inside a block? -/
  tail : Option Bool := none
  deriving DecidableEq, Repr

namespace Inbox

/-- Skips to the end of a message, inside a block or not: the bytes after it, or none and whether
    the message goes on inside a block. -/
def skipMessage (inBlock : Bool) : Bytes → Except Bool Bytes
  | [] => .error inBlock
  | byte :: rest =>
    if byte == Control.ack || byte == Control.lineFeed then .ok rest
    else if byte == Control.carriageReturn && inBlock then .ok rest
    else
      -- A block that opens in the skipped part makes a later carriage return the end.
      skipMessage (inBlock || Control.opensBlock byte) rest

/-- Skips what is left of a message that was cut off: the bytes after it, if its end is there. -/
def skipTail (inbox : Inbox) (input : Bytes) : Inbox × Option Bytes :=
  match inbox.tail with
  | none => (inbox, some input)
  | some inBlock =>
    match skipMessage inBlock input with
    | .error inBlock => ({ inbox with tail := some inBlock }, none)
    | .ok rest => ({ inbox with tail := none }, some rest)

end Inbox

/-- A reply in the making, and the bytes around it. -/
structure Reassembly where
  scanner : Reply.Scanner
  inbox : Inbox := {}
  deriving Repr

namespace Reassembly

open Reply

/-- Takes in some bytes: what is left of a message that was cut off is skipped, then the scanner
    takes what it wants, and the rest waits. If the scanner closes at its size limit, the rest of
    its message is skipped as far as it is there. -/
def absorb (r : Reassembly) (input : Bytes) : Reassembly :=
  match r.inbox.skipTail input with
  | (inbox, none) => { r with inbox }
  | (inbox, some input) =>
    let (scanner, rest) := r.scanner.feed input
    match scanner.phase with
    | .closed (.truncated inBlock) =>
      -- What is left of the cut-off message may end within the same input.
      let (inbox, rest) := { inbox with tail := some inBlock }.skipTail rest
      ⟨scanner, { inbox with pending := inbox.pending ++ rest.getD [] }⟩
    | _ => ⟨scanner, { inbox with pending := inbox.pending ++ rest }⟩

/-- Starts a reply of at most `maxLength` bytes with the bytes that wait. -/
def start (maxLength : Nat) (inbox : Inbox) : Reassembly :=
  absorb ⟨Scanner.new maxLength, { inbox with pending := [] }⟩ inbox.pending

/-- With nothing to skip, bytes that come in leave the scanner less room. -/
theorem room_absorb_lt {r : Reassembly} {input : Bytes} (hdone : r.scanner.isDone = false)
    (htail : r.inbox.tail = none) (hne : input ≠ []) :
    (r.absorb input).scanner.room < r.scanner.room := by
  have hfeed := Scanner.room_feed_lt hdone hne
  unfold absorb
  simp only [Inbox.skipTail, htail]
  split <;> simpa using hfeed

end Reassembly

end PmacPoll
