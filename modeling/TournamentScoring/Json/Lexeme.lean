import TournamentScoring.Decimal.Reading
import TournamentScoring.Document.Source
import TournamentScoring.Text.Hexadecimal

/-!
# The words of a JSON text

Texts, numbers and literals are read from the characters of a JSON text.  Each of
them comes out as a `Source` with the characters that follow, or with none where
reading stops.
-/

namespace TournamentScoring.Json

open TournamentScoring.Document

/-- The four characters that JSON allows between words. -/
def isSpace (character : Char) : Bool :=
  character == ' ' || character == '\t' || character == '\n' || character == '\r'

def dropSpace (characters : List Char) : List Char :=
  characters.dropWhile isSpace

/-- A value and what follows it; nothing follows where reading stops. -/
abbrev Step := Source × Option (List Char)

def stopStep (cause : ReadError) : Step :=
  (.stop cause cause cause, none)

/-! ## Texts -/

def escaped? : Char → Option Char
  | '"' => some '"'
  | '\\' => some '\\'
  | '/' => some '/'
  | 'b' => some '\x08'
  | 'f' => some '\x0c'
  | 'n' => some '\n'
  | 'r' => some '\r'
  | 't' => some '\t'
  | _ => none

/-- What has been read of a text: its characters in reverse and the first half of
a surrogate pair that waits for its second half, or the problem that keeps the
text from being kept. -/
structure TextSoFar where
  characters : List Char
  leading : Option Nat
  problem : Option ReadError

namespace TextSoFar

def start : TextSoFar where
  characters := []
  leading := none
  problem := none

/-- Adds a character.  It may not follow half a surrogate pair. -/
def push (soFar : TextSoFar) (character : Char) : TextSoFar :=
  match soFar.leading with
  | some _ => { soFar with problem := soFar.problem.or (some .illFormed) }
  | none => { soFar with characters := character :: soFar.characters }

/-- Adds the character with the given number, or half a surrogate pair. -/
def pushUnit (soFar : TextSoFar) (unit : Nat) : TextSoFar :=
  match soFar.leading with
  | some leading =>
    if 0xDC00 ≤ unit ∧ unit ≤ 0xDFFF then
      { soFar with
        characters :=
          Char.ofNat (0x10000 + (leading - 0xD800) * 0x400 + (unit - 0xDC00)) ::
            soFar.characters
        leading := none }
    else { soFar with problem := soFar.problem.or (some .illFormed) }
  | none =>
    if 0xD800 ≤ unit ∧ unit ≤ 0xDBFF then { soFar with leading := some unit }
    else if 0xDC00 ≤ unit ∧ unit ≤ 0xDFFF then
      { soFar with problem := soFar.problem.or (some .illFormed) }
    else soFar.push (Char.ofNat unit)

/-- The text at its closing quote. -/
def close (soFar : TextSoFar) : Except ReadError String :=
  match soFar.problem, soFar.leading with
  | some cause, _ => .error cause
  | none, some _ => .error .illFormed
  | none, none => .ok (String.ofList soFar.characters.reverse)

/-- Reading stops inside the text. -/
def stop (soFar : TextSoFar) (cause : ReadError) : ReadError × ReadError :=
  (soFar.problem.getD cause, cause)

end TextSoFar

/-- How the reading of a text ends: at its closing quote, with the text or the
problem of keeping it, or before that. -/
inductive TextOutcome
  | closed (content : Except ReadError String) (rest : List Char)
  | stopped (kept skipped : ReadError)

/-- Four bytes must follow the start of a numbered escape.  A text with fewer
than that many left is too short, any other one is wrong. -/
def badQuad (rest : List Char) : ReadError :=
  if (String.ofList rest).utf8ByteSize < 4 then .endsEarly else .illFormed

/-- Reads a text after its opening quote.  Control characters must be escaped. -/
def readText (soFar : TextSoFar) : List Char → TextOutcome
  | [] => .stopped (soFar.stop .endsEarly).1 .endsEarly
  | '"' :: rest => .closed soFar.close rest
  | '\\' :: 'u' :: first :: second :: third :: fourth :: rest =>
    match Text.hexNumber? [first, second, third, fourth] with
    | some unit => readText (soFar.pushUnit unit) rest
    | none =>
      let cause := badQuad (first :: second :: third :: fourth :: rest)
      .stopped (soFar.stop cause).1 cause
  | '\\' :: 'u' :: rest =>
    .stopped (soFar.stop (badQuad rest)).1 (badQuad rest)
  | ['\\'] => .stopped (soFar.stop .endsEarly).1 .endsEarly
  | '\\' :: character :: rest =>
    match escaped? character with
    | some plain => readText (soFar.push plain) rest
    | none => .stopped (soFar.stop .illFormed).1 .illFormed
  | character :: rest =>
    if character.toNat < 0x20 then
      .stopped (soFar.stop .illFormed).1 .illFormed
    else readText (soFar.push character) rest

def textStep (rest : List Char) : Step :=
  match readText TextSoFar.start rest with
  | .closed (.ok content) rest => (.text content, some rest)
  | .closed (.error cause) rest => (.unfit cause, some rest)
  | .stopped kept skipped => (.stop kept skipped kept, none)

/-! ## Numbers -/

/-- The greatest power of ten in the table of the reader. -/
def largestPower : Nat := 308

/-- A power of ten as the table has it. -/
def tenToThe (power : Nat) : Float :=
  Float.ofScientific 1 false power

/-- Divides by the greatest power of ten so many times, or until nothing is left. -/
def lowered (value : Float) : Nat → Float
  | 0 => value
  | times + 1 =>
    if value == 0.0 then value
    else lowered (value / tenToThe largestPower) times

/-- The float that the reader makes of a significand and a power of ten,
`f64_from_parts` of the library; none if it is out of range.  Both are rounded
before they are multiplied or divided, so it is not always the nearest one. -/
def scaled? (decimal : Decimal.Scientific) : Option Float :=
  let significand := Float.ofNat decimal.digits
  if 0 ≤ decimal.exponent then
    let power := decimal.exponent.toNat
    if power ≤ largestPower then
      let product := significand * tenToThe power
      if product.isFinite then some product else none
    else if decimal.digits = 0 then some significand
    else none
  else
    let places := (-decimal.exponent).toNat
    let times := (places - 1) / largestPower
    some (lowered significand times / tenToThe (places - times * largestPower))

/-- A significand with one more digit. -/
def withDigit (significand : Nat) (digit : Char) : Nat :=
  significand * 10 + (digit.toNat - '0'.toNat)

/-- Adds the digits before the point as long as the significand fits a word of
64 bits, `parse_integer` of the library.  The digits after that only raise the
exponent, `parse_long_integer`. -/
def pushWhole (significand : Nat) : List Char → Decimal.Scientific
  | [] => ⟨significand, 0⟩
  | digit :: digits =>
    if withDigit significand digit < UInt64.size then
      pushWhole (withDigit significand digit) digits
    else ⟨significand, digits.length + 1⟩

/-- Adds the digits after the point, up to the first one that does not fit:
`parse_decimal`. -/
def pushFraction (decimal : Decimal.Scientific) : List Char → Decimal.Scientific
  | [] => decimal
  | digit :: digits =>
    if withDigit decimal.digits digit < UInt64.size then
      pushFraction ⟨withDigit decimal.digits digit, decimal.exponent - 1⟩ digits
    else decimal

/-- A number cut into its parts. -/
structure NumberParts where
  negative : Bool
  whole : List Char
  /-- The digits after the point, if there is one. -/
  fraction : Option (List Char)
  /-- The sign and the digits of the exponent, if there is one. -/
  exponent : Option (Bool × List Char)

namespace NumberParts

def exponentValue (parts : NumberParts) : Int :=
  match parts.exponent with
  | none => 0
  | some (negative, digits) =>
    if negative then -(Decimal.digitsValue digits : Int)
    else Decimal.digitsValue digits

/-- The number without its sign, as far as its digits fit. -/
def kept (parts : NumberParts) : Decimal.Scientific :=
  let digits :=
    pushFraction (pushWhole 0 parts.whole) (parts.fraction.getD [])
  ⟨digits.digits, digits.exponent + parts.exponentValue⟩

def floatValue? (parts : NumberParts) : Option Float :=
  (scaled? parts.kept).map fun magnitude =>
    if parts.negative then -magnitude else magnitude

/-- Whole numbers that fit a word of 64 bits stay whole; the negative zero and
all other numbers are floats.  A float that overflows cannot be kept. -/
def source (parts : NumberParts) : Source :=
  let float :=
    match parts.floatValue? with
    | some value => Source.float value
    | none => .unfit .illFormed
  if parts.fraction.isSome || parts.exponent.isSome then float
  else
    let magnitude := Decimal.digitsValue parts.whole
    if parts.negative then
      if 0 < magnitude ∧ magnitude ≤ Nat.pow 2 63 then .integer (-magnitude)
      else float
    else if magnitude < UInt64.size then .integer magnitude
    else float

end NumberParts

/-- Where digits are missing, a kept number tells whether the text is over.  No
variant starts like a number. -/
def missingDigits (rest : List Char) : Step :=
  (.stop (if rest.isEmpty then .endsEarly else .illFormed) .illFormed .illFormed,
    none)

/-- Reads the exponent of a number, if there is one: `parse_exponent`. -/
def exponentStep (parts : NumberParts) (characters : List Char) : Step :=
  match characters with
  | mark :: rest =>
    if mark == 'e' || mark == 'E' then
      let (negative, rest) :=
        match rest with
        | '-' :: rest => (true, rest)
        | '+' :: rest => (false, rest)
        | rest => (false, rest)
      let digits := rest.takeWhile Char.isDigit
      if digits.isEmpty then missingDigits rest
      else
        let parts := { parts with exponent := some (negative, digits) }
        (parts.source, some (rest.dropWhile Char.isDigit))
    else (parts.source, some characters)
  | [] => (parts.source, some [])

/-- Reads the fraction of a number, if there is one, and its exponent. -/
def fractionStep (parts : NumberParts) (characters : List Char) : Step :=
  match characters with
  | '.' :: rest =>
    let digits := rest.takeWhile Char.isDigit
    if digits.isEmpty then missingDigits rest
    else
      exponentStep { parts with fraction := some digits }
        (rest.dropWhile Char.isDigit)
  | characters => exponentStep parts characters

/-- Reads a number after its sign.  A leading zero stands alone. -/
def numberStep (negative : Bool) (characters : List Char) : Step :=
  let whole := characters.takeWhile Char.isDigit
  let rest := characters.dropWhile Char.isDigit
  match whole with
  | [] => missingDigits characters
  | '0' :: _ :: _ => stopStep .illFormed
  | _ => fractionStep ⟨negative, whole, none, none⟩ rest

/-! ## Literals -/

/-- Compares the text with the rest of a literal.  No variant starts like a
literal. -/
def literalStep (value : Source) : List Char → List Char → Step
  | [], rest => (value, some rest)
  | _ :: _, [] => (.stop .endsEarly .endsEarly .illFormed, none)
  | expected :: more, found :: rest =>
    if expected = found then literalStep value more rest
    else stopStep .illFormed

/-- Reads a value that is neither an array nor an object. -/
def scalarStep : List Char → Step
  | [] => stopStep .endsEarly
  | '"' :: rest => textStep rest
  | '-' :: rest => numberStep true rest
  | 't' :: rest => literalStep (.boolean true) ['r', 'u', 'e'] rest
  | 'f' :: rest => literalStep (.boolean false) ['a', 'l', 's', 'e'] rest
  | 'n' :: rest => literalStep .null ['u', 'l', 'l'] rest
  | head :: rest =>
    if head.isDigit then numberStep false (head :: rest)
    else stopStep .illFormed

end TournamentScoring.Json
