import PmacPoll.Text.Blank
import PmacPoll.Text.Utf8

/-!
# Replies

A reply is the bytes of one message from the controller, together with what ended it. However it
ended, a complete reply has an acknowledge as its last byte. The controller answers the names of a
command one line each; at a name that it does not know it stops and reports an error, a bell and a
code, after the values that it has given.
-/

namespace PmacPoll

/-- What ended a reply. -/
inductive Termination where
  /-- An acknowledge. -/
  | ack
  /-- A line feed, in whose place an acknowledge is stored. -/
  | lineFeed
  /-- The carriage return of a block that a bell or a start of text opened. -/
  | block
  /-- The size limit; the last byte within it is stored as an acknowledge. -/
  | truncated
  /-- Silence, before any of the others was met. -/
  | incomplete
  deriving DecidableEq, Repr

/-- One message from the controller. -/
structure Reply where
  data : Bytes
  termination : Termination
  deriving DecidableEq, Repr

namespace Reply

/-- The number of bytes, the final acknowledge included. -/
def length (reply : Reply) : Nat :=
  reply.data.length

/-- A reply without bytes. -/
def isEmpty (reply : Reply) : Bool :=
  reply.data.isEmpty

/-- Did the reply end otherwise than by silence? -/
def isComplete (reply : Reply) : Bool :=
  reply.termination != .incomplete

/-- The bytes without an acknowledge at their end. -/
def body (reply : Reply) : Bytes :=
  if reply.data.getLast? = some Control.ack then reply.data.dropLast else reply.data

/-- The text without an acknowledge at its end. -/
def text (reply : Reply) : String :=
  Utf8.decode reply.body

/-- Where the first bell is, if the controller reports an error. -/
def errorOffset? (reply : Reply) : Option Nat :=
  reply.data.findIdx? (· == Control.bell)

/-- Does the controller report an error? -/
def isDeviceError (reply : Reply) : Bool :=
  reply.errorOffset?.isSome

/-- The code of a reported error, such as `ERR003`: what stands between the bell and the next
    carriage return or acknowledge, without blanks around it. -/
def errorCode? (reply : Reply) : Option String :=
  reply.errorOffset?.map fun offset =>
    let code := (reply.data.drop (offset + 1)).takeWhile fun byte =>
      byte != Control.carriageReturn && byte != Control.ack
    Text.trim (Utf8.decode code)

/-- The text of the values: all of it, or what was given before a reported error. -/
def valuesText (reply : Reply) : String :=
  match reply.errorOffset? with
  | some offset => Utf8.decode (reply.data.take offset)
  | none => reply.text

end Reply

end PmacPoll
