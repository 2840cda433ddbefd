import TournamentScoring.Toml.Moment
import TournamentScoring.Toml.Number
import TournamentScoring.Toml.Tree

/-!
# Reading TOML

A document is a sequence of lines, each of which is blank, assigns a value to a
key, or opens a table with a header.  Arrays may run over several lines, inline
tables may not.  Dotted keys and nested values have a limit of their own.
-/

namespace TournamentScoring.Toml

/-- Keys have fewer steps than this, and arrays and inline tables nest less
deeply. -/
def depthLimit : Nat := 80

def dropSpace (characters : List Char) : List Char :=
  characters.dropWhile isSpace

/-! ## Space, comments and line ends -/

/-- Drops a comment up to the end of its line. -/
def dropComment : List Char → List Char
  | '#' :: rest => rest.dropWhile isPrintable
  | rest => rest

/-- Drops the end of a line: space, a comment and a line break or the end of the
text. -/
def dropLineEnd (characters : List Char) : Option (List Char) :=
  match dropComment (dropSpace characters) with
  | [] => some []
  | '\n' :: rest => some rest
  | '\r' :: '\n' :: rest => some rest
  | _ => none

/-- Drops space, line breaks and comments inside an array. -/
def dropGap (inComment : Bool) : List Char → List Char
  | [] => []
  | head :: rest =>
    if startsLineBreak head rest then dropGap false rest
    else if inComment then
      if isPrintable head then dropGap true rest else head :: rest
    else if isSpace head then dropGap false rest
    else if head = '#' then dropGap true rest
    else head :: rest

/-! ## Keys -/

def isBareKey (character : Char) : Bool :=
  character.isAlphanum || character == '-' || character == '_'

/-- One step of a key: bare or between quotes. -/
def keyStep (characters : List Char) : Reading String :=
  match lineText characters with
  | some found => some found
  | none =>
    let bare := characters.takeWhile isBareKey
    if bare.isEmpty then none
    else some (String.ofList bare, characters.dropWhile isBareKey)

/-- The steps of a dotted key, with space around the points. -/
def keySteps : Nat → List Char → Reading (List String)
  | 0, _ => none
  | fuel + 1, characters =>
    match keyStep (dropSpace characters) with
    | none => none
    | some (step, rest) =>
      match dropSpace rest with
      | '.' :: rest =>
        (keySteps fuel rest).map fun found => (step :: found.1, found.2)
      | rest => some ([step], rest)

/-- A key below the limit, cut into its path and its last step. -/
def key (characters : List Char) : Reading (List String × String) :=
  match keySteps depthLimit characters with
  | none => none
  | some (steps, rest) =>
    match steps.getLast? with
    | none => none
    | some last =>
      if steps.length < depthLimit then some ((steps.dropLast, last), rest)
      else none

/-! ## Values -/

mutual

/-- Reads a value inside so many arrays and inline tables. -/
def value (depth : Nat) : Nat → List Char → Reading Toml
  | 0, _ => none
  | fuel + 1, characters =>
    match characters with
    | [] => none
    | '[' :: rest =>
      if depth + 1 < depthLimit then
        match dropGap false rest with
        | ']' :: rest => some (.array [], rest)
        | rest =>
          (arrayItems (depth + 1) fuel rest).map fun found =>
            (.array found.1, found.2)
      else none
    | '\x7b' :: rest =>
      if depth + 1 < depthLimit then
        match dropSpace rest with
        | '\x7d' :: rest => some (.table [], rest)
        | rest =>
          match inlinePairs (depth + 1) fuel rest with
          | none => none
          | some (assignments, rest) =>
            (inlineTable assignments).map fun table => (table, rest)
      else none
    | 't' :: 'r' :: 'u' :: 'e' :: rest => some (.boolean true, rest)
    | 'f' :: 'a' :: 'l' :: 's' :: 'e' :: rest => some (.boolean false, rest)
    | '"' :: _ => textValue characters
    | '\'' :: _ => textValue characters
    | characters => (readMoment characters).or (readNumber characters)

/-- The items of an array from here to its closing bracket.  A comma may follow
the last one. -/
def arrayItems (depth : Nat) : Nat → List Char → Reading (List Toml)
  | 0, _ => none
  | fuel + 1, characters =>
    match value depth fuel characters with
    | none => none
    | some (item, rest) =>
      match dropGap false rest with
      | ']' :: rest => some ([item], rest)
      | ',' :: rest =>
        match dropGap false rest with
        | ']' :: rest => some ([item], rest)
        | rest =>
          (arrayItems depth fuel rest).map fun found =>
            (item :: found.1, found.2)
      | _ => none

/-- The assignments of an inline table from here to its closing brace. -/
def inlinePairs (depth : Nat) : Nat → List Char → Reading (List Assignment)
  | 0, _ => none
  | fuel + 1, characters =>
    match key characters with
    | some ((path, last), '=' :: rest) =>
      match value depth fuel (dropSpace rest) with
      | none => none
      | some (value, rest) =>
        let assignment : Assignment := ⟨path, last, value⟩
        match dropSpace rest with
        | '\x7d' :: rest => some ([assignment], rest)
        | ',' :: rest =>
          (inlinePairs depth fuel rest).map fun found =>
            (assignment :: found.1, found.2)
        | _ => none
    | _ => none

/-- Reads a value that starts with a quote. -/
def textValue (characters : List Char) : Reading Toml :=
  (anyText characters).map fun found => (.text found.1, found.2)

end

/-! ## Lines -/

/-- What a line says. -/
inductive Line
  | assignment (assignment : Assignment)
  | table (path : List String) (key : String)
  | arrayTable (path : List String) (key : String)

/-- Reads a header after its opening bracket. -/
def header (characters : List Char) : Reading Line :=
  match characters with
  | '[' :: rest =>
    match key rest with
    | some ((path, last), ']' :: ']' :: rest) =>
      some (.arrayTable path last, rest)
    | _ => none
  | rest =>
    match key rest with
    | some ((path, last), ']' :: rest) => some (.table path last, rest)
    | _ => none

/-- Reads a line that assigns a value. -/
def assignmentLine (characters : List Char) : Reading Line :=
  match key characters with
  | some ((path, last), '=' :: rest) =>
    (value 0 (2 * characters.length) (dropSpace rest)).map fun found =>
      (.assignment ⟨path, last, found.1⟩, found.2)
  | _ => none

/-- Reads all lines.  Each of them takes at least one character. -/
def allLines : Nat → List Char → Option (List Line)
  | 0, _ => none
  | fuel + 1, characters =>
    match dropSpace characters with
    | [] => some []
    | head :: rest =>
      if startsLineBreak head rest || head == '#' then
        match dropLineEnd (head :: rest) with
        | some rest => allLines fuel rest
        | none => none
      else
        match if head = '[' then header rest else assignmentLine (head :: rest) with
        | none => none
        | some (line, rest) =>
          match dropLineEnd rest with
          | some rest => (allLines fuel rest).map fun lines => line :: lines
          | none => none

/-! ## Documents -/

/-- The assignments up to the next header. -/
def leadingAssignments : List Line → List Assignment
  | .assignment assignment :: lines => assignment :: leadingAssignments lines
  | _ => []

/-- Opens the tables of all headers in turn. -/
def openTables (entries : Entries) : List Line → Option Entries
  | [] => some entries
  | .assignment _ :: lines => openTables entries lines
  | .table path key :: lines =>
    let fill := fun entries => assignAll entries (leadingAssignments lines)
    match changeAt (openTable key fill) path entries with
    | none => none
    | some entries => openTables entries lines
  | .arrayTable path key :: lines =>
    let fill := fun entries => assignAll entries (leadingAssignments lines)
    match changeAt (openArrayTable key fill) path entries with
    | none => none
    | some entries => openTables entries lines

/-- A mark of the byte order may stand before the document. -/
def dropByteOrderMark : List Char → List Char
  | head :: rest => if head.toNat = 0xFEFF then rest else head :: rest
  | [] => []

/-- The table of a document, if its text is TOML. -/
def read (text : String) : Option Toml := do
  let characters := dropByteOrderMark text.toList
  let lines ← allLines (characters.length + 1) characters
  let entries ← assignAll [] (leadingAssignments lines)
  let entries ← openTables entries lines
  return .table (entryValues entries)

end TournamentScoring.Toml
