/-!
# Rounding a binary floating-point number

The exact value of a finite binary64 number that is not negative, and its product with a whole
number, rounded to the nearest whole number.
-/

namespace PmacPoll.Binary64

/-- Numerator and denominator of a finite number that is not negative: the significand times a power
    of two. -/
def fraction (x : Float) : Nat × Nat :=
  let bits := x.toBits.toNat
  let exponent := (bits >>> 52) % (1 <<< 11)
  let significand := bits % (1 <<< 52)
  if exponent = 0 then (significand, 1 <<< 1074)
  else (((1 <<< 52) + significand) <<< (exponent - 1075), 1 <<< (1075 - exponent))

/-- The quotient rounded to the nearest whole number, a half to the even neighbour. -/
def roundQuotient (numerator denominator : Nat) : Nat :=
  let floor := numerator / denominator
  let rest := 2 * (numerator % denominator)
  if rest < denominator || (rest = denominator && floor % 2 = 0) then floor else floor + 1

/-- The number times `scale`, rounded to the nearest whole number. -/
def roundScaled (scale : Nat) (x : Float) : Nat :=
  let (numerator, denominator) := fraction x
  roundQuotient (numerator * scale) denominator

end PmacPoll.Binary64
