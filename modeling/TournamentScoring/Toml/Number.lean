import TournamentScoring.Decimal.Reading
import TournamentScoring.Toml.Basic
import TournamentScoring.Toml.Text

/-!
# TOML numbers

Digits may be grouped by single underscores.  Whole numbers have no leading zero,
may be written in base two, eight or sixteen without a sign, and must fit a
signed word of 64 bits.  A float has a fraction, an exponent or both.
-/

namespace TournamentScoring.Toml

open TournamentScoring.Text

/-- The digits after the first one.  An underscore stands between two digits. -/
def moreDigits (isDigit : Char → Bool) : List Char → Reading (List Char)
  | [] => some ([], [])
  | ['_'] => none
  | '_' :: digit :: rest =>
    if isDigit digit then
      (moreDigits isDigit rest).map fun found => (digit :: found.1, found.2)
    else none
  | head :: rest =>
    if isDigit head then
      (moreDigits isDigit rest).map fun found => (head :: found.1, found.2)
    else some ([], head :: rest)

/-- A row of at least one digit. -/
def digitRow (isDigit : Char → Bool) : List Char → Reading (List Char)
  | head :: rest =>
    if isDigit head then
      (moreDigits isDigit rest).map fun found => (head :: found.1, found.2)
    else none
  | [] => none

/-- The digits of a whole number: a zero alone, or no leading zero. -/
def wholeDigits : List Char → Reading (List Char)
  | '0' :: rest => some (['0'], rest)
  | characters => digitRow Char.isDigit characters

/-- The sign of a number, if it has one. -/
def dropSign : List Char → Bool × List Char
  | '-' :: rest => (true, rest)
  | '+' :: rest => (false, rest)
  | rest => (false, rest)

/-- The exponent of a number, if an exponent stands here. -/
def exponentPart : List Char → Option (Reading Int)
  | mark :: rest =>
    if mark == 'e' || mark == 'E' then
      let (negative, rest) := dropSign rest
      some ((digitRow Char.isDigit rest).map fun (digits, rest) =>
        let magnitude : Int := Decimal.digitsValue digits
        (if negative then -magnitude else magnitude, rest))
    else none
  | [] => none

/-- A float from its parts.  It may not overflow upwards. -/
def floatReading (negative : Bool) (whole fraction : List Char)
    (exponent : Int) (rest : List Char) : Reading Toml :=
  let magnitude := Decimal.ofDigits whole fraction exponent
  let value := if negative then -magnitude else magnitude
  if value == Decimal.infinity then none else some (.float value, rest)

def integerReading (negative : Bool) (magnitude : Nat) (rest : List Char) :
    Reading Toml :=
  if magnitude < Nat.pow 2 63 ∨ (negative ∧ magnitude = Nat.pow 2 63) then
    some (.integer (if negative then -magnitude else magnitude), rest)
  else none

/-- A number in base ten, after its sign. -/
def decimalNumber (negative : Bool) (characters : List Char) : Reading Toml :=
  match wholeDigits characters with
  | none => none
  | some (whole, '.' :: rest) =>
    match digitRow Char.isDigit rest with
    | none => none
    | some (fraction, rest) =>
      match exponentPart rest with
      | none => floatReading negative whole fraction 0 rest
      | some none => none
      | some (some (exponent, rest)) =>
        floatReading negative whole fraction exponent rest
  | some (whole, rest) =>
    match exponentPart rest with
    | none => integerReading negative (Decimal.digitsValue whole) rest
    | some none => none
    | some (some (exponent, rest)) =>
      floatReading negative whole [] exponent rest

/-- A whole number in another base, after its mark. -/
def basedNumber (base : Nat) (characters : List Char) : Reading Toml :=
  let isDigit := fun character => (hexValue? character).any (· < base)
  match digitRow isDigit characters with
  | none => none
  | some (digits, rest) =>
    integerReading false
      (digits.foldl (fun value digit =>
        value * base + (hexValue? digit).getD 0) 0) rest

/-- The numbers that have a name. -/
def namedNumber (negative : Bool) : List Char → Reading Toml
  | 'i' :: 'n' :: 'f' :: rest =>
    some (.float (if negative then -Decimal.infinity else Decimal.infinity),
      rest)
  | 'n' :: 'a' :: 'n' :: rest => some (.float (0.0 / 0.0), rest)
  | _ => none

/-- Reads a number of any kind. -/
def readNumber : List Char → Reading Toml
  | '0' :: 'x' :: rest => basedNumber 16 rest
  | '0' :: 'o' :: rest => basedNumber 8 rest
  | '0' :: 'b' :: rest => basedNumber 2 rest
  | characters =>
    let (negative, rest) := dropSign characters
    (namedNumber negative rest).or (decimalNumber negative rest)

end TournamentScoring.Toml
