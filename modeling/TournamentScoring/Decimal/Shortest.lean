/-!
# The fewest digits that read back

A finite nonzero float is `mantissa * 2 ^ exponent`.  Every real number strictly
between its two rounding boundaries reads back as that float, and so do the
boundaries themselves when the mantissa is even.  `shortest` tries the decimal
grids of 1, 2, … 17 digits and takes the first one that has a point in this
interval; of two such points it takes the nearer one.  All comparisons are exact
comparisons of natural numbers.
-/

namespace TournamentScoring.Decimal

/-- The number of decimal digits of a natural number; zero has one. -/
def digitCount (value : Nat) : Nat :=
  if value < 10 then 1 else digitCount (value / 10) + 1

/-- The number `digits * 10 ^ exponent`. -/
structure Scientific where
  digits : Nat
  exponent : Int
deriving DecidableEq, Repr

/-- Where two neighbours on a grid are equally near, the one that is chosen. -/
inductive Tie
  | toEven
  | awayFromZero
deriving DecidableEq, Repr

/-- The exponent of the leading digit of `numerator / denominator`: the largest
power of ten that is not above the quotient. -/
def leadingExponent (numerator denominator : Nat) : Int :=
  if denominator ≤ numerator then
    (digitCount (numerator / denominator) : Int) - 1
  else
    -(digitCount ((denominator - 1) / numerator) : Int)

/-- The reals that round to a float, in quarters of its last place.  The gap
below a power of two is half as wide, except next to the subnormal numbers. -/
structure Interval where
  low : Nat
  centre : Nat
  high : Nat
  closed : Bool
  /-- The power of two that one quarter stands for. -/
  exponent : Int

/-- The exponent of the last place of the subnormal numbers. -/
def leastExponent : Int := -1074

def Interval.ofFloat (mantissa : Nat) (exponent : Int) : Interval where
  low := if mantissa = Nat.pow 2 52 ∧ leastExponent < exponent
    then 4 * mantissa - 1 else 4 * mantissa - 2
  centre := 4 * mantissa
  high := 4 * mantissa + 2
  closed := mantissa % 2 = 0
  exponent := exponent - 2

namespace Interval

/-- A number of quarters over the common denominator with the grid of `step`. -/
def quarters (interval : Interval) (step : Int) (count : Nat) : Nat :=
  count * Nat.pow 2 interval.exponent.toNat * Nat.pow 10 (-step).toNat

/-- A point of the grid `10 ^ step` over the same common denominator. -/
def gridPoint (interval : Interval) (step : Int) (digits : Nat) : Nat :=
  digits * Nat.pow 10 step.toNat * Nat.pow 2 (-interval.exponent).toNat

def holds (interval : Interval) (step : Int) (digits : Nat) : Bool :=
  let point := interval.gridPoint step digits
  let low := interval.quarters step interval.low
  let high := interval.quarters step interval.high
  if interval.closed then low ≤ point && point ≤ high
  else low < point && point < high

/-- The grid point just below the centre. -/
def below (interval : Interval) (step : Int) : Nat :=
  interval.quarters step interval.centre / interval.gridPoint step 1

/-- The nearer of the centre's two neighbours on the grid. -/
def nearest (interval : Interval) (tie : Tie) (step : Int) : Nat :=
  let lower := interval.below step
  let centre := interval.quarters step interval.centre
  let gapBelow := centre - interval.gridPoint step lower
  let gapAbove := interval.gridPoint step (lower + 1) - centre
  if gapBelow < gapAbove then lower
  else if gapAbove < gapBelow then lower + 1
  else
    match tie with
    | .toEven => if lower % 2 = 0 then lower else lower + 1
    | .awayFromZero => lower + 1

/-- The grid point that reads back, if the grid has one. -/
def pick (interval : Interval) (tie : Tie) (step : Int) : Option Nat :=
  let lower := interval.below step
  match interval.holds step lower, interval.holds step (lower + 1) with
  | true, true => some (interval.nearest tie step)
  | true, false => some lower
  | false, true => some (lower + 1)
  | false, false => none

end Interval

/-- The first grid with a point in the interval, from `step` on to finer ones.
After `finer` steps the nearest point of the last grid is taken: seventeen digits
always read back. -/
def firstGrid (interval : Interval) (tie : Tie) : Nat → Int → Scientific
  | 0, step => ⟨interval.nearest tie step, step⟩
  | finer + 1, step =>
    match interval.pick tie step with
    | some digits => ⟨digits, step⟩
    | none => firstGrid interval tie finer (step - 1)

/-- Ten written as one followed by a zero is the digit one of the next grid. -/
def Scientific.normalised (value : Scientific) : Scientific :=
  if value.digits % 10 = 0 then ⟨value.digits / 10, value.exponent + 1⟩ else value

/-- The shortest decimal that reads back as `mantissa * 2 ^ exponent`. -/
def shortest (tie : Tie) (mantissa : Nat) (exponent : Int) : Scientific :=
  let first := leadingExponent (mantissa * Nat.pow 2 exponent.toNat)
    (Nat.pow 2 (-exponent).toNat)
  (firstGrid (Interval.ofFloat mantissa exponent) tie 16 first).normalised

end TournamentScoring.Decimal
