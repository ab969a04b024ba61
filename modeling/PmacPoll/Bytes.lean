/-!
# Bytes and control bytes

Everything on the wire is a list of octets. A reply is cut into lines and messages by five control
bytes, which have their names here.
-/

namespace PmacPoll

/-- A string of octets. -/
abbrev Bytes := List UInt8

namespace Control

/-- Start of text: opens a single-block reply. -/
def stx : UInt8 := 0x02

/-- Acknowledge: ends an ordinary reply. -/
def ack : UInt8 := 0x06

/-- Bell: opens an error report. -/
def bell : UInt8 := 0x07

/-- Line feed: ends a reply as an acknowledge does. -/
def lineFeed : UInt8 := 0x0A

/-- Carriage return: ends a line, and ends a reply inside a block. -/
def carriageReturn : UInt8 := 0x0D

/-- The bytes that open a block, after which a carriage return ends the reply. -/
def opensBlock (byte : UInt8) : Bool :=
  byte == bell || byte == stx

end Control

end PmacPoll
