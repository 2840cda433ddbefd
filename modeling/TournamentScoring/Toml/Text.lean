import TournamentScoring.Text.Hexadecimal

/-!
# TOML texts

A text stands between quotes of one of four kinds.  Basic texts have escapes and
literal texts have none; between triple quotes either kind may run over several
lines, and up to two quotes before the closing ones belong to the text.  Every
line break in a text is read as a single line feed.
-/

namespace TournamentScoring.Toml

open TournamentScoring.Text

/-- A value and the characters that follow it, if it can be read. -/
abbrev Reading (α : Type) := Option (α × List Char)

def isSpace (character : Char) : Bool :=
  character == ' ' || character == '\t'

/-- Tabs and everything but the control characters. -/
def isPrintable (character : Char) : Bool :=
  character == '\t' ||
    (0x20 ≤ character.toNat && character.toNat != 0x7F)

/-- A carriage return counts only as a part of a line break. -/
def startsLineBreak (head : Char) (rest : List Char) : Bool :=
  head == '\n' || (head == '\r' && rest.head? == some '\n')

def escaped? : Char → Option Char
  | 'b' => some '\x08'
  | 't' => some '\t'
  | 'n' => some '\n'
  | 'f' => some '\x0c'
  | 'r' => some '\r'
  | '"' => some '"'
  | '\\' => some '\\'
  | _ => none

/-- Where the reader of a basic text stands. -/
inductive BasicState
  | content
  /-- After so many quotes that may close the text. -/
  | quotes (count : Nat)
  /-- After a backslash. -/
  | escape
  /-- In a numbered escape, with so many digits left. -/
  | digits (left value : Nat)
  /-- Between a backslash and the line break that it hides. -/
  | beforeBreak
  /-- In the space and the line breaks that a hidden line break starts. -/
  | afterBreak
deriving DecidableEq

/-- The text of characters in reverse order with quotes after them. -/
def closeText (quote : Char) (count : Nat) (soFar : List Char) : String :=
  String.ofList (soFar.reverse ++ List.replicate count quote)

/-- The state after a character of the content that is no quote.  The carriage
return of a line break is dropped. -/
def contentStep (lines : Bool) (soFar : List Char) (head : Char)
    (rest : List Char) : Option (BasicState × List Char) :=
  if head = '\\' then some (.escape, soFar)
  else if isPrintable head then some (.content, head :: soFar)
  else if lines && startsLineBreak head rest then
    some (.content, if head = '\n' then head :: soFar else soFar)
  else none

/-- The state after the character that follows a backslash. -/
def escapeStep (lines : Bool) (soFar : List Char) (head : Char)
    (rest : List Char) : Option (BasicState × List Char) :=
  match escaped? head with
  | some character => some (.content, character :: soFar)
  | none =>
    if head = 'u' then some (.digits 4 0, soFar)
    else if head = 'U' then some (.digits 8 0, soFar)
    else if lines && head == '\n' then some (.afterBreak, soFar)
    else if lines && (isSpace head || startsLineBreak head rest) then
      some (.beforeBreak, soFar)
    else none

/-- The state after a digit of a numbered escape. -/
def digitStep (left value : Nat) (soFar : List Char) (head : Char) :
    Option (BasicState × List Char) :=
  match hexValue? head with
  | none => none
  | some unit =>
    let value := value * 16 + unit
    if 1 < left then some (.digits (left - 1) value, soFar)
    else if value.isValidChar then some (.content, Char.ofNat value :: soFar)
    else none

/-- The state after a character that closes nothing. -/
def basicStep (lines : Bool) (state : BasicState) (soFar : List Char)
    (head : Char) (rest : List Char) : Option (BasicState × List Char) :=
  match state with
  | .content =>
    if head = '"' then some (.quotes 1, soFar)
    else contentStep lines soFar head rest
  | .quotes count =>
    if head = '"' then some (.quotes (count + 1), soFar)
    else contentStep lines (List.replicate count '"' ++ soFar) head rest
  | .escape => escapeStep lines soFar head rest
  | .digits left value => digitStep left value soFar head
  | .beforeBreak =>
    if head = '\n' then some (.afterBreak, soFar)
    else if isSpace head || startsLineBreak head rest then
      some (.beforeBreak, soFar)
    else none
  | .afterBreak =>
    if isSpace head || startsLineBreak head rest then
      some (.afterBreak, soFar)
    else if head = '"' then some (.quotes 1, soFar)
    else contentStep lines soFar head rest

/-- How many quotes close a text. -/
def closingQuotes (lines : Bool) : Nat :=
  if lines then 3 else 1

/-- Whether a run of quotes is over: the text takes at most two of them. -/
def closes (lines : Bool) (count : Nat) (next : Option Char) (quote : Char) :
    Bool :=
  closingQuotes lines ≤ count &&
    (!lines || next != some quote || count == 5)

/-- Reads a basic text after its opening quotes. -/
def basicText (lines : Bool) (state : BasicState) (soFar : List Char) :
    List Char → Reading String
  | [] =>
    match state with
    | .quotes count =>
      if closes lines count none '"' then
        some (closeText '"' (count - closingQuotes lines) soFar, [])
      else none
    | _ => none
  | head :: rest =>
    match state with
    | .quotes count =>
      if closes lines count (some head) '"' then
        some (closeText '"' (count - closingQuotes lines) soFar, head :: rest)
      else
        match basicStep lines (.quotes count) soFar head rest with
        | some (next, soFar) => basicText lines next soFar rest
        | none => none
    | state =>
      match basicStep lines state soFar head rest with
      | some (next, soFar) => basicText lines next soFar rest
      | none => none

/-- Reads a literal text after its opening quotes, of which `count` have just
been seen in a row. -/
def literalText (lines : Bool) (count : Nat) (soFar : List Char) :
    List Char → Reading String
  | [] =>
    if closes lines count none '\'' then
      some (closeText '\'' (count - closingQuotes lines) soFar, [])
    else none
  | head :: rest =>
    if closes lines count (some head) '\'' then
      some (closeText '\'' (count - closingQuotes lines) soFar, head :: rest)
    else if head = '\'' then literalText lines (count + 1) soFar rest
    else
      let soFar := List.replicate count '\'' ++ soFar
      if isPrintable head then literalText lines 0 (head :: soFar) rest
      else if lines && startsLineBreak head rest then
        literalText lines 0 (if head = '\n' then head :: soFar else soFar) rest
      else none

/-- A line break right after the opening quotes does not belong to the text. -/
def dropFirstBreak : List Char → List Char
  | '\n' :: rest => rest
  | '\r' :: '\n' :: rest => rest
  | rest => rest

/-- Reads a text of one line, if the characters start with a quote. -/
def lineText : List Char → Reading String
  | '"' :: rest => basicText false .content [] rest
  | '\'' :: rest => literalText false 0 [] rest
  | _ => none

/-- Reads a text of any kind, if the characters start with a quote. -/
def anyText : List Char → Reading String
  | '"' :: '"' :: '"' :: rest => basicText true .content [] (dropFirstBreak rest)
  | '\'' :: '\'' :: '\'' :: rest => literalText true 0 [] (dropFirstBreak rest)
  | rest => lineText rest

end TournamentScoring.Toml
