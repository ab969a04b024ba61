import PmacPoll.Reply

/-!
# Finding the end of a reply

The bytes of a reply come in pieces of any size. A scanner takes them one at a time and closes at
the first of: an acknowledge, a line feed, a carriage return after a bell or a start of text, or the
byte that fills its size limit. `feed` gives back what it did not take.

Every byte that an open scanner takes closes it or leaves less room (`room_push_lt`), so that a loop
that feeds it ends.
-/

namespace PmacPoll.Reply

/-- What closed a scanner. -/
inductive Ending where
  | ack
  | lineFeed
  | block
  /-- The size limit, and whether it was met inside a block. -/
  | truncated (inBlock : Bool)
  deriving DecidableEq, Repr

/-- The termination of a reply that a scanner closed. -/
def Ending.termination : Ending → Termination
  | ack => .ack
  | lineFeed => .lineFeed
  | block => .block
  | truncated _ => .truncated

/-- Where a scanner stands. -/
inductive Phase where
  /-- More bytes are wanted; inside a block a carriage return is the end. -/
  | reading (inBlock : Bool)
  /-- The reply is complete. -/
  | closed (ending : Ending)
  deriving DecidableEq, Repr

/-- A reply in the making: the bytes so far, and at most how many there may be. -/
structure Scanner where
  maxLength : Nat
  buffer : Array UInt8 := #[]
  phase : Phase := .reading false
  deriving Repr

namespace Scanner

/-- An empty scanner; the limit is at least one byte. -/
def new (maxLength : Nat) : Scanner where
  maxLength := max maxLength 1

/-- Is the reply complete? -/
def isDone (s : Scanner) : Bool :=
  match s.phase with
  | .closed _ => true
  | .reading _ => false

/-- What closed the scanner, if it is closed. -/
def ending? (s : Scanner) : Option Ending :=
  match s.phase with
  | .closed ending => some ending
  | .reading _ => none

/-- Did the size limit close the scanner inside a block? -/
def truncatedInBlock (s : Scanner) : Bool :=
  s.phase == .closed (.truncated true)

/-- The number of bytes taken. -/
def size (s : Scanner) : Nat :=
  s.buffer.size

/-- Has no byte been taken? -/
def isEmpty (s : Scanner) : Bool :=
  s.buffer.isEmpty

/-- How many more bytes fit. -/
def remaining (s : Scanner) : Nat :=
  s.maxLength - s.size

/-- The bytes taken, as they are stored. -/
def data (s : Scanner) : Bytes :=
  s.buffer.toList

/-- Stores a last byte and closes. -/
def close (s : Scanner) (last : UInt8) (ending : Ending) : Scanner :=
  { s with buffer := s.buffer.push last, phase := .closed ending }

/-- Takes one byte. A closed scanner takes none. -/
def push (s : Scanner) (byte : UInt8) : Scanner :=
  match s.phase with
  | .closed _ => s
  | .reading inBlock =>
    if byte == Control.ack || byte == Control.lineFeed then
      s.close Control.ack (if byte == Control.ack then .ack else .lineFeed)
    else if byte == Control.carriageReturn && inBlock then
      -- The carriage return gives way when only the acknowledge fits.
      if s.size + 2 ≤ s.maxLength then
        { s with buffer := s.buffer.push byte }.close Control.ack .block
      else s.close Control.ack .block
    else
      let inBlock := inBlock || Control.opensBlock byte
      -- The last place is kept for the acknowledge.
      if s.size + 1 < s.maxLength then
        { s with buffer := s.buffer.push byte, phase := .reading inBlock }
      else s.close Control.ack (.truncated inBlock)

/-- Takes bytes until the reply is complete; gives back the ones after it. -/
def feed (s : Scanner) : Bytes → Scanner × Bytes
  | [] => (s, [])
  | byte :: rest => if s.isDone then (s, byte :: rest) else (s.push byte).feed rest

/-- The reply that the scanner holds; one that is not complete counts as cut off by silence. -/
def finish (s : Scanner) : Reply where
  data := s.data
  termination := match s.ending? with
    | some ending => ending.termination
    | none => .incomplete

/-! ### A scanner that is fed gets done -/

/-- A measure that every byte makes smaller: nothing once the scanner is closed. -/
def room (s : Scanner) : Nat :=
  if s.isDone then 0 else s.remaining + 1

/-- A scanner that is not done has room. -/
theorem room_pos {s : Scanner} (h : s.isDone = false) : 0 < s.room := by
  simp [room, h]

/-- Each byte takes room, or closes the scanner and takes all of it. -/
theorem room_push_lt {s : Scanner} (byte : UInt8) (h : s.isDone = false) :
    (s.push byte).room < s.room := by
  have hpos := room_pos h
  unfold push
  split
  · next hp => simp [isDone, hp] at h
  · have hroom : s.room = s.remaining + 1 := by simp [room, h]
    -- an end closes the scanner; so does a byte without room, and any other one takes a place
    split
    · simpa [room, isDone, close] using hpos
    · split
      · split <;> simpa [room, isDone, close] using hpos
      · simp only
        split
        · next hlt =>
          rw [hroom]
          simp only [room, isDone, remaining, size, Array.size_push] at hlt ⊢
          simp only [Bool.false_eq_true, if_false]
          omega
        · simpa [room, isDone, close] using hpos

/-- No input makes room. -/
theorem room_feed_le (s : Scanner) (input : Bytes) : (s.feed input).1.room ≤ s.room := by
  induction input generalizing s with
  | nil => exact Nat.le_refl _
  | cons byte rest ih =>
    unfold feed
    split
    · exact Nat.le_refl _
    · next h =>
      exact Nat.le_trans (ih _) (Nat.le_of_lt (room_push_lt byte (by simpa using h)))

/-- A scanner that is not done has less room after any byte. -/
theorem room_feed_lt {s : Scanner} {input : Bytes} (h : s.isDone = false) (hne : input ≠ []) :
    (s.feed input).1.room < s.room := by
  cases input with
  | nil => exact absurd rfl hne
  | cons byte rest =>
    unfold feed
    rw [if_neg (by simp [h])]
    exact Nat.lt_of_le_of_lt (room_feed_le _ rest) (room_push_lt byte h)

end Scanner

end PmacPoll.Reply
