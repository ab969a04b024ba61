import PmacPoll.Bytes

/-!
# UTF-8

`encode` writes text as octets. `decode` reads any octets at all: it is a machine that takes one
octet at a time and puts U+FFFD for each longest run of octets that begins a character and cannot be
completed. `decode?` refuses octets that are not UTF-8.
-/

namespace PmacPoll.Utf8

/-- The octets of a text. -/
def encode (text : String) : Bytes :=
  text.toList.flatMap String.utf8EncodeChar

/-- The character that stands for octets that are not UTF-8. -/
def replacement : Char := '\uFFFD'

/-- A character of which some octets are still to come: the bits read so far, how many octets are
    owed, and the range in which the next one has to lie. -/
structure Owing where
  bits : Nat
  owed : Nat
  low : UInt8 := 0x80
  high : UInt8 := 0xBF
  deriving DecidableEq, Repr

/-- Reads an octet between two characters. -/
def first (byte : UInt8) : Option Owing × List Char :=
  if byte ≤ 0x7F then (none, [Char.ofNat byte.toNat])
  else if 0xC2 ≤ byte && byte ≤ 0xDF then (some ⟨byte.toNat - 0xC0, 1, 0x80, 0xBF⟩, [])
  else if byte == 0xE0 then (some ⟨0, 2, 0xA0, 0xBF⟩, [])
  else if byte == 0xED then (some ⟨0xD, 2, 0x80, 0x9F⟩, [])
  else if 0xE1 ≤ byte && byte ≤ 0xEF then (some ⟨byte.toNat - 0xE0, 2, 0x80, 0xBF⟩, [])
  else if byte == 0xF0 then (some ⟨0, 3, 0x90, 0xBF⟩, [])
  else if byte == 0xF4 then (some ⟨4, 3, 0x80, 0x8F⟩, [])
  else if 0xF1 ≤ byte && byte ≤ 0xF3 then (some ⟨byte.toNat - 0xF0, 3, 0x80, 0xBF⟩, [])
  else (none, [replacement])

/-- Reads an octet inside a character. One that does not fit closes the character as ill-formed and
    is read again as a first octet. -/
def next (p : Owing) (byte : UInt8) : Option Owing × List Char :=
  if p.low ≤ byte && byte ≤ p.high then
    let bits := p.bits * 64 + (byte.toNat - 0x80)
    if p.owed ≤ 1 then (none, [Char.ofNat bits])
    else (some ⟨bits, p.owed - 1, 0x80, 0xBF⟩, [])
  else
    let (state, chars) := first byte
    (state, replacement :: chars)

/-- Reads one octet. -/
def step : Option Owing → UInt8 → Option Owing × List Char
  | none, byte => first byte
  | some p, byte => next p byte

/-- The characters that are read from a state on; a character cut off by the end is ill-formed. -/
def decodeFrom : Option Owing → Bytes → List Char
  | none, [] => []
  | some _, [] => [replacement]
  | state, byte :: rest => (step state byte).2 ++ decodeFrom (step state byte).1 rest

/-- The text of some octets, with U+FFFD in place of what is not UTF-8. -/
def decode (bytes : Bytes) : String :=
  String.ofList (decodeFrom none bytes)

/-- The text of some octets, if they are UTF-8. -/
def decode? (bytes : Bytes) : Option String :=
  String.fromUTF8? ⟨bytes.toArray⟩

end PmacPoll.Utf8
