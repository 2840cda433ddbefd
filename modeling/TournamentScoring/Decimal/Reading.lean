import TournamentScoring.Decimal.Shortest

/-!
# Reading decimals

The float nearest to `digits * 10 ^ exponent`, ties to even.  Exponents far
outside the range of floats are decided by the leading digit alone, so that a
short text never asks for a huge power of ten.
-/

namespace TournamentScoring.Decimal

def infinity : Float := 1.0 / 0.0

namespace Scientific

/-- The exponent of the first digit. -/
def leading (value : Scientific) : Int :=
  value.exponent + digitCount value.digits - 1

/-- Beyond `10 ^ 309` every number overflows, and below `10 ^ -325` every number
is nearer to zero than to the least float. -/
def toFloat (value : Scientific) : Float :=
  if value.digits = 0 then 0.0
  else if 309 < value.leading then infinity
  else if value.leading < -326 then 0.0
  else if 0 ≤ value.exponent then
    Float.ofScientific value.digits false value.exponent.toNat
  else
    Float.ofScientific value.digits true (-value.exponent).toNat

end Scientific

/-- The value of a row of decimal digits. -/
def digitsValue (digits : List Char) : Nat :=
  digits.foldl (fun value digit => value * 10 + (digit.toNat - '0'.toNat)) 0

/-- The float nearest to `whole.fraction * 10 ^ exponent`. -/
def ofDigits (whole fraction : List Char) (exponent : Int) : Float :=
  (Scientific.mk (digitsValue (whole ++ fraction))
    (exponent - fraction.length)).toFloat

end TournamentScoring.Decimal
