import PmacPoll.Bytes
import PmacPoll.LinkError

/-!
# Request frames

Everything that is sent to the controller is a frame: an eight-byte header of direction, request
code, value, index and length (the last three two bytes each, high byte first) and, for the three
requests that carry one, a payload of at most 1492 bytes. `encode` writes a frame, `decode` takes
one off the front of a byte string and `decodeAll` as many as there are.
-/

namespace PmacPoll

/-- A request frame. -/
structure Frame where
  direction : UInt8
  opcode : UInt8
  value : UInt16
  index : UInt16
  length : UInt16
  payload : Bytes
  deriving DecidableEq, Repr

namespace Frame

/-- The bytes of a header. -/
def headerSize : Nat := 8

/-- The most bytes that a payload may have. -/
def maxPayload : Nat := 1492

/-- The most bytes that are asked for in one read of a reply. -/
def maxRead : Nat := 1400

/-- The direction of a request for data. -/
def upload : UInt8 := 0xC0

/-- The direction of a request that brings data. -/
def download : UInt8 := 0x40

namespace Opcode

/-- A line to which no reply is wanted. -/
def sendLine : UInt8 := 0xB0

/-- Drop what is waiting. -/
def flush : UInt8 := 0xB3

/-- A line to which a reply is wanted. -/
def getResponse : UInt8 := 0xBF

/-- Are data waiting? -/
def readReady : UInt8 := 0xC2

/-- A control character to which a reply is wanted. -/
def controlResponse : UInt8 := 0xC4

/-- Send what is waiting. -/
def getBuffer : UInt8 := 0xC5

/-- Lines of a program. -/
def writeBuffer : UInt8 := 0xC6

/-- The requests whose length counts a payload that follows the header. -/
def carriesPayload (opcode : UInt8) : Bool :=
  opcode == getResponse || opcode == sendLine || opcode == writeBuffer

end Opcode

/-- A command line; what exceeds the payload of one frame is left off. -/
def command (text : Bytes) : Frame where
  direction := download
  opcode := Opcode.getResponse
  value := 0
  index := 0
  length := UInt16.ofNat (min text.length maxPayload)
  payload := text.take maxPayload

/-- A command of one control character, which travels in the value field. -/
def control (character : UInt8) : Frame where
  direction := upload
  opcode := Opcode.controlResponse
  value := character.toUInt16
  index := 0
  length := 0
  payload := []

/-- Asks whether reply data are waiting; the answer has two bytes. -/
def readReady : Frame where
  direction := upload
  opcode := Opcode.readReady
  value := 0
  index := 0
  length := 2
  payload := []

/-- Asks for the reply data that are waiting, at most 65535 bytes. -/
def getBuffer (maxBytes : Nat) : Frame where
  direction := upload
  opcode := Opcode.getBuffer
  value := 0
  index := 0
  length := UInt16.ofNat (min maxBytes 0xFFFF)
  payload := []

/-- Asks the controller to drop what is waiting; the answer has one byte. -/
def flush : Frame where
  direction := download
  opcode := Opcode.flush
  value := 0
  index := 0
  length := 0
  payload := []

/-- The control characters that are commands by themselves: ^B ^C ^F ^G ^P ^V. -/
def controlCharacters : List UInt8 := [0x02, 0x03, 0x06, 0x07, 0x10, 0x16]

/-- The control character that a command consists of, if it is one. -/
def controlCharacter? : Bytes → Option UInt8
  | [byte] => if controlCharacters.contains byte then some byte else none
  | _ => none

/-- The frame that carries a command: a single control character has a kind of its own. -/
def ofCommand (text : Bytes) : Frame :=
  match controlCharacter? text with
  | some character => control character
  | none => command text

/-- The two bytes of a word, high byte first. -/
def wordBytes (word : UInt16) : Bytes :=
  [UInt8.ofNat (word.toNat / 256), UInt8.ofNat (word.toNat % 256)]

/-- The word of two bytes, high byte first. -/
def wordOf (high low : UInt8) : UInt16 :=
  UInt16.ofNat (256 * high.toNat + low.toNat)

/-- The length of an encoded frame. -/
def encodedLength (frame : Frame) : Nat :=
  headerSize + frame.payload.length

/-- The bytes of a frame. -/
def encode (frame : Frame) : Bytes :=
  frame.direction :: frame.opcode ::
    (wordBytes frame.value ++ wordBytes frame.index ++ wordBytes frame.length ++ frame.payload)

/-- The number of payload bytes that a header announces. -/
def payloadSize (opcode : UInt8) (length : UInt16) : Nat :=
  if Opcode.carriesPayload opcode then length.toNat else 0

/-- Takes a frame off the front: the frame and what follows it, or none if more bytes are needed. An
    announced payload that is too long is an error as soon as the header is there. -/
def decode : Bytes → Except LinkError (Option (Frame × Bytes))
  | direction :: opcode :: v₁ :: v₀ :: i₁ :: i₀ :: l₁ :: l₀ :: rest =>
    -- The limit comes before the question whether the payload is there: no wait for a bad frame.
    let length := wordOf l₁ l₀
    let size := payloadSize opcode length
    if maxPayload < size then
      .error (.frame ("payload length " ++ toString size ++ " exceeds " ++ toString maxPayload))
    else if rest.length < size then .ok none
    else
      let frame := ⟨direction, opcode, wordOf v₁ v₀, wordOf i₁ i₀, length, rest.take size⟩
      .ok (some (frame, rest.drop size))
  | _ => .ok none

/-- A frame that was taken off is gone from what follows. -/
theorem length_lt_of_decode {data rest : Bytes} {frame : Frame}
    (h : decode data = .ok (some (frame, rest))) : rest.length < data.length := by
  unfold decode at h
  split at h
  · -- the header is there, and what is left comes after it
    simp only at h
    split at h
    · exact nomatch h
    · split at h
      · exact nomatch h
      · simp only [Except.ok.injEq, Option.some.injEq, Prod.mk.injEq] at h
        rw [← h.2]
        simp only [List.length_drop, List.length_cons]
        omega
  · exact nomatch h

/-- The frames at the front of a byte string, the bytes that are left, and the error if it was one
    that ended the decoding. -/
structure Decoded where
  frames : List Frame
  rest : Bytes
  error : Option LinkError
  deriving Repr

/-- Takes frames off the front until more bytes are needed or an error is met. -/
def decodeAll (data : Bytes) : Decoded :=
  match _h : decode data with
  | .error cause => ⟨[], data, some cause⟩
  | .ok none => ⟨[], data, none⟩
  | .ok (some (frame, rest)) =>
    let more := decodeAll rest
    { more with frames := frame :: more.frames }
termination_by data.length
decreasing_by exact length_lt_of_decode _h

end Frame

end PmacPoll
