/-!
# Hexadecimal digits

Lower-case digits are written, digits of either case are read.
-/

namespace TournamentScoring.Text

def hexDigit (value : Nat) : Char :=
  if value < 10 then Char.ofNat ('0'.toNat + value)
  else Char.ofNat ('a'.toNat + (value - 10))

def hexValue? (character : Char) : Option Nat :=
  if character.isDigit then some (character.toNat - '0'.toNat)
  else if 'a' ≤ character ∧ character ≤ 'f' then
    some (character.toNat - 'a'.toNat + 10)
  else if 'A' ≤ character ∧ character ≤ 'F' then
    some (character.toNat - 'A'.toNat + 10)
  else none

/-- The last `count` digits of a number, the highest first. -/
def hexText : Nat → Nat → List Char
  | 0, _ => []
  | count + 1, value =>
    hexDigit (value / Nat.pow 16 count % 16) :: hexText count value

/-- The number that a row of digits spells. -/
def hexNumber? (digits : List Char) : Option Nat :=
  digits.foldlM (fun value digit =>
    (hexValue? digit).map fun unit => value * 16 + unit) 0

end TournamentScoring.Text
