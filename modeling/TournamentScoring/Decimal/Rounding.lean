/-!
# Rounding to decimal places

`roundHalfAway` is exact: it rounds the rational value of the float.  Rounding to
places scales by a power of ten first, so the scaling itself may round as any
product and quotient of floats does.
-/

namespace TournamentScoring.Decimal

open Float.Model

/-- `mantissa * 2 ^ -places` rounded to a whole number, halves up. -/
def roundedQuotient (mantissa places : Nat) : Nat :=
  (2 * mantissa + Nat.pow 2 places) / Nat.pow 2 (places + 1)

/-- The nearest whole number; a half goes away from zero. -/
def roundHalfAway (value : Float) : Float :=
  match value.toModel.unpack with
  | .finite sign mantissa exponent _ =>
    if 0 ≤ exponent then value
    else
      let whole := Float.ofNat (roundedQuotient mantissa (-exponent).toNat)
      match sign with
      | .negative => -whole
      | .positive => whole
  | _ => value

/-- Ten to the given power by repeated squaring, every product rounded. -/
def powerOfTen (power : Nat) (square : Float) (result : Float) : Float :=
  if power = 0 then result
  else
    powerOfTen (power / 2) (square * square)
      (if power % 2 = 1 then result * square else result)

/-- The factor that moves `decimals` places before the point.  Counts from
`2 ^ 31` on are negative as a signed word and move the other way. -/
def placesFactor (decimals : UInt32) : Float :=
  let places := decimals.toInt32.toInt
  let power := powerOfTen places.natAbs 10.0 1.0
  if places < 0 then 1.0 / power else power

/-- The value rounded to a number of decimal places, halves away from zero:
`round_to` of the engine. -/
def roundTo (value : Float) (decimals : UInt32) : Float :=
  roundHalfAway (value * placesFactor decimals) / placesFactor decimals

end TournamentScoring.Decimal
