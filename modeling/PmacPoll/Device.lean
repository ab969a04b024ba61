import PmacPoll.Link
import PmacPoll.Text.Blank
import PmacPoll.Text.Utf8
import Std.Data.HashMap

/-!
# A simulated controller

A device keeps its variables and answers frames as a controller does: a command is answered with the
values of its names, a probe with two bytes, a fetch with the data that were held back, and a flush
drops what is waiting. It never waits, so a read with nothing to send is a timeout at once. What it
answers can be scripted, or left to a responder, in place of the variables.

`Device` is a transport, and its clock counts the frames that it has handled.
-/

namespace PmacPoll

/-- A way to answer commands, which may look at all that it has been asked so far: the commands in
    order, the present one last. No answer is silence. -/
structure Responder where
  answer : List String → Option Bytes
  asked : List String := []

/-- A command that a device received, and whether it was a control character. -/
structure SentCommand where
  text : String
  control : Bool
  deriving DecidableEq, Repr

/-- A simulated controller. -/
structure Device where
  /-- Bytes received that are no complete frame yet. -/
  inbound : Bytes := []
  /-- Bytes to be read. -/
  outbox : Bytes := []
  /-- Reply bytes that wait for a fetch. -/
  held : Bytes := []
  /-- How many bytes of a reply are sent at once; the others are held back. -/
  immediateLimit : Option Nat := none
  /-- Answers to the next commands; none is silence. -/
  scripted : List (Option Bytes) := []
  responder : Option Responder := none
  /-- The variables that the device knows, with their values. -/
  values : Std.HashMap String String := {}
  /-- The frames handled since the history was cleared. -/
  frames : List Frame := []
  /-- The commands received since the history was cleared. -/
  commands : List SentCommand := []
  connected : Bool := true
  refusesReconnect : Bool := false
  reconnects : Nat := 0
  /-- The number of frames handled. -/
  handled : Nat := 0

namespace Device

/-- The report of a name that the device does not know. -/
def unknownName : Bytes :=
  Control.bell :: (Utf8.encode "ERR003" ++ [Control.carriageReturn])

/-- One line for each name up to the first that is not known, and then an error report; or an
    acknowledge after the lines. -/
def answerNames (values : Std.HashMap String String) : List String → Bytes
  | [] => [Control.ack]
  | name :: more =>
    match values[name]? with
    | some value => Utf8.encode value ++ Control.carriageReturn :: answerNames values more
    | none => unknownName

/-- The answer to a command, and the device after giving it: the next scripted one if there is one,
    else the responder's, else that of the variables. -/
def answer (d : Device) (text : String) : Option Bytes × Device :=
  match d.scripted with
  | reply :: scripted => (reply, { d with scripted })
  | [] =>
    match d.responder with
    | some responder =>
      -- A command counts as asked before it is answered.
      let asked := responder.asked ++ [text]
      (responder.answer asked, { d with responder := some { responder with asked } })
    | none => (some (answerNames d.values (Text.words text)), d)

/-- Sends the first bytes of a reply and holds the others back. -/
def deliver (d : Device) (reply : Bytes) : Device :=
  let limit := d.immediateLimit.getD reply.length
  { d with outbox := d.outbox ++ reply.take limit, held := d.held ++ reply.drop limit }

/-- Receives a command. -/
def receive (d : Device) (text : String) (control : Bool) : Device :=
  let (reply, d) := d.answer text
  let d := { d with commands := d.commands ++ [⟨text, control⟩] }
  match reply with
  | some reply => d.deliver reply
  | none => d

/-- Does what a frame asks for. -/
def perform (d : Device) (frame : Frame) : Device :=
  if frame.opcode == Frame.Opcode.getResponse then
    d.receive (Utf8.decode frame.payload) false
  else if frame.opcode == Frame.Opcode.controlResponse then
    d.receive (String.singleton (Char.ofNat (frame.value.toNat % 256))) true
  else if frame.opcode == Frame.Opcode.readReady then
    { d with outbox := d.outbox ++ [if d.held.isEmpty then 0 else 1, 0] }
  else if frame.opcode == Frame.Opcode.getBuffer then
    let count := frame.length.toNat
    { d with outbox := d.outbox ++ d.held.take count, held := d.held.drop count }
  else if frame.opcode == Frame.Opcode.flush then
    { d with outbox := [Frame.download], held := [] }
  else d

/-- Handles a frame and keeps it in the history. -/
def handle (d : Device) (frame : Frame) : Device :=
  let d := d.perform frame
  { d with frames := d.frames ++ [frame], handled := d.handled + 1 }

/-- Receives bytes and handles the frames that they complete. -/
def write (data : Bytes) : Link Device Nat := fun d =>
  if d.connected then
    let decoded := Frame.decodeAll (d.inbound ++ data)
    let d := { decoded.frames.foldl handle d with inbound := decoded.rest }
    match decoded.error with
    | some cause => .error cause d
    | none => .ok data.length d
  else .error (.connection "device disconnected") d

/-- Gives at most `size` of the bytes to be read. -/
def read (size timeoutMs : Nat) : Link Device { bytes : Bytes // bytes.length ≤ size } := fun d =>
  if d.connected then
    if d.outbox.isEmpty then
      .error (.timeout ("no data within " ++ toString timeoutMs ++ "ms")) d
    else
      .ok ⟨d.outbox.take size, List.length_take_le ..⟩ { d with outbox := d.outbox.drop size }
  else .error (.connection "device disconnected") d

/-- Connects the device again, unless it refuses; all bytes on the way are lost. -/
def reconnect : Link Device Unit := fun d =>
  if d.refusesReconnect then .error (.connection "reconnect refused") d
  else
    .ok () { d with
      connected := true
      reconnects := d.reconnects + 1
      inbound := []
      outbox := []
      held := [] }

instance : Transport Device where
  write := write
  read := read
  reconnect := reconnect
  describe _ := "memory"
  now := handled
  horizon d := d.outbox.length + d.held.length

/-! ### Setting a device up -/

/-- Gives a variable a value. -/
def setVariable (d : Device) (name value : String) : Device :=
  { d with values := d.values.insert name value }

/-- Appends an answer to the script. -/
def pushReply (d : Device) (reply : Option Bytes) : Device :=
  { d with scripted := d.scripted ++ [reply] }

/-- Leaves the answers to a responder. -/
def setResponder (d : Device) (answer : List String → Option Bytes) : Device :=
  { d with responder := some { answer } }

/-- Puts bytes where they are read next after those that wait already. -/
def inject (d : Device) (bytes : Bytes) : Device :=
  { d with outbox := d.outbox ++ bytes }

/-- Breaks the connection, and says whether it can be made again. -/
def disconnect (d : Device) (refuse : Bool) : Device :=
  { d with connected := false, refusesReconnect := refuse }

/-- Lets the connection be made again. -/
def allowReconnect (d : Device) : Device :=
  { d with refusesReconnect := false }

/-- Forgets the frames and the commands received so far. -/
def clearHistory (d : Device) : Device :=
  { d with frames := [], commands := [] }

/-- The commands that were no control characters. -/
def commandTexts (d : Device) : List String :=
  (d.commands.filter fun command => !command.control).map (·.text)

end Device

end PmacPoll
