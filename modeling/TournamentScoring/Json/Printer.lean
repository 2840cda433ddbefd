import TournamentScoring.Decimal.Style
import TournamentScoring.Json.Basic
import TournamentScoring.Text.Hexadecimal

/-!
# Writing JSON

`compact` writes a value without any space, `pretty` writes one member or item
per line with two spaces for each level.  Text is kept as it is, apart from the
quote, the backslash and the control characters.  A float that is not finite has
no JSON form and is written as `null`.
-/

namespace TournamentScoring.Json

/-- A character as it stands between quotes. -/
def escape (character : Char) : List Char :=
  if character = '"' then ['\\', '"']
  else if character = '\\' then ['\\', '\\']
  else if character = '\n' then ['\\', 'n']
  else if character = '\r' then ['\\', 'r']
  else if character = '\t' then ['\\', 't']
  else if character = '\x08' then ['\\', 'b']
  else if character = '\x0c' then ['\\', 'f']
  else if character.toNat < 0x20 then
    ['\\', 'u'] ++ Text.hexText 4 character.toNat
  else [character]

def quoted (text : String) : List Char :=
  '"' :: (text.toList.flatMap escape ++ ['"'])

def floatText (value : Float) : List Char :=
  if value.isFinite then (Decimal.Style.document.write value).toList
  else ['n', 'u', 'l', 'l']

/-- The text of a value that is neither an array nor an object. -/
def scalarText : Json → List Char
  | boolean true => ['t', 'r', 'u', 'e']
  | boolean false => ['f', 'a', 'l', 's', 'e']
  | integer value => (toString value).toList
  | float value => floatText value
  | text value => quoted value
  | _ => ['n', 'u', 'l', 'l']

mutual

/-- The text of a value without spaces. -/
def compactText : Json → List Char
  | array items => '[' :: (compactItems items ++ [']'])
  | object members => '\x7b' :: (compactMembers members ++ ['\x7d'])
  | scalar => scalarText scalar

def compactItems : List Json → List Char
  | [] => []
  | [item] => compactText item
  | item :: items => compactText item ++ ',' :: compactItems items

def compactMembers : List (String × Json) → List Char
  | [] => []
  | [(key, value)] => quoted key ++ ':' :: compactText value
  | (key, value) :: members =>
    quoted key ++ ':' :: (compactText value ++ ',' :: compactMembers members)

end

/-- A line break and the space that starts the next line. -/
def newLine (level : Nat) : List Char :=
  '\n' :: List.replicate (2 * level) ' '

mutual

/-- The text of a value over several lines.  Empty arrays and objects stay on
one line. -/
def prettyText (level : Nat) : Json → List Char
  | array [] => ['[', ']']
  | array items =>
    '[' :: (prettyItems (level + 1) items ++ newLine level ++ [']'])
  | object [] => ['\x7b', '\x7d']
  | object members =>
    '\x7b' :: (prettyMembers (level + 1) members ++ newLine level ++ ['\x7d'])
  | scalar => scalarText scalar

def prettyItems (level : Nat) : List Json → List Char
  | [] => []
  | [item] => newLine level ++ prettyText level item
  | item :: items =>
    newLine level ++ prettyText level item ++ ',' :: prettyItems level items

def prettyMembers (level : Nat) : List (String × Json) → List Char
  | [] => []
  | [(key, value)] =>
    newLine level ++ quoted key ++ ':' :: ' ' :: prettyText level value
  | (key, value) :: members =>
    newLine level ++ quoted key ++ ':' :: ' ' ::
      (prettyText level value ++ ',' :: prettyMembers level members)

end

def compact (value : Json) : String :=
  String.ofList value.compactText

def pretty (value : Json) : String :=
  String.ofList (value.prettyText 0)

end TournamentScoring.Json
