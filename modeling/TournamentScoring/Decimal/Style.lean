import TournamentScoring.Decimal.Shortest

/-!
# Writing floats

A float is written with the fewest digits that read back.  Each output makes its
own choice of when to use positional writing and how to write whole numbers;
these choices are the fields of a `Style`.
-/

namespace TournamentScoring.Decimal

open Float.Model

/-- The choices an output makes about its floats. -/
structure Style where
  tie : Tie
  /-- The lowest exponent of the first digit that is written positionally. -/
  lowest : Option Int
  /-- The highest exponent of the first digit that is written positionally. -/
  highest : Option Int
  /-- Whether a positional whole number ends in a point and a zero. -/
  wholePoint : Bool
  /-- Whether a positive exponent has a sign. -/
  plus : Bool

/-- Texts for people are always positional and as short as they can be. -/
def Style.plain : Style where
  tie := .awayFromZero
  lowest := none
  highest := none
  wholePoint := false
  plus := false

/-- Log fields show by a point that they are floats. -/
def Style.log : Style where
  tie := .awayFromZero
  lowest := some (-4)
  highest := some 15
  wholePoint := true
  plus := false

/-- Documents show by a point or an exponent that a number is a float. -/
def Style.document : Style where
  tie := .toEven
  lowest := some (-5)
  highest := some 15
  wholePoint := true
  plus := true

def digitsOf (value : Nat) : List Char :=
  (toString value).toList

def zeros (count : Nat) : List Char :=
  List.replicate count '0'

namespace Style

/-- Digits around the point, for a number whose last digit has the given
exponent. -/
def positional (style : Style) (digits : List Char) (exponent : Int) : List Char :=
  if 0 ≤ exponent then
    digits ++ zeros exponent.toNat ++ if style.wholePoint then ['.', '0'] else []
  else
    let places := (-exponent).toNat
    if places < digits.length then
      let whole := digits.length - places
      digits.take whole ++ '.' :: digits.drop whole
    else
      '0' :: '.' :: (zeros (places - digits.length) ++ digits)

/-- One digit before the point and the exponent of that digit. -/
def scientific (style : Style) (digits : List Char) (leading : Int) : List Char :=
  let mantissa :=
    match digits with
    | first :: second :: rest => first :: '.' :: second :: rest
    | short => short
  let sign :=
    if leading < 0 then ['-'] else if style.plus then ['+'] else []
  mantissa ++ 'e' :: (sign ++ digitsOf leading.natAbs)

def isPositional (style : Style) (leading : Int) : Bool :=
  style.lowest.all (fun bound => decide (bound ≤ leading)) &&
    style.highest.all (fun bound => decide (leading ≤ bound))

def layOut (style : Style) (value : Scientific) : List Char :=
  let digits := digitsOf value.digits
  let leading := value.exponent + digits.length - 1
  if style.isPositional leading then style.positional digits value.exponent
  else style.scientific digits leading

def signText : UnpackedFloat.Sign → List Char
  | .negative => ['-']
  | .positive => []

/-- The text of a float in a style; zero keeps its sign. -/
def write (style : Style) (value : Float) : String :=
  match value.toModel.unpack with
  | .notANumber => "NaN"
  | .infinity sign => String.ofList (signText sign ++ ['i', 'n', 'f'])
  | .zero sign => String.ofList (signText sign ++ style.positional ['0'] 0)
  | .finite sign mantissa exponent _ =>
    String.ofList
      (signText sign ++ style.layOut (shortest style.tie mantissa exponent))

end Style

/-- The text of a float in messages and reports. -/
def plainText (value : Float) : String :=
  Style.plain.write value

end TournamentScoring.Decimal
