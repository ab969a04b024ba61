/-!
# Unsigned decimals

The numbers of the settings: an optional plus sign and then decimal digits, nothing else.
-/

namespace PmacPoll.Decimal

/-- The value of a run of decimal digits, most significant first; none if another character is in
    the run. -/
def digits? (value : Nat) : List Char → Option Nat
  | [] => some value
  | c :: rest => if c.isDigit then digits? (10 * value + (c.toNat - '0'.toNat)) rest else none

/-- The value of at least one digit. -/
def unsigned? : List Char → Option Nat
  | [] => none
  | cs => digits? 0 cs

/-- Reads a number below `bound`: an optional `+`, then one digit or more. -/
def parse? (bound : Nat) (text : String) : Option Nat :=
  let number := match text.toList with
    | '+' :: cs => unsigned? cs
    | cs => unsigned? cs
  number.filter (· < bound)

end PmacPoll.Decimal
