import TournamentScoring.Json.Lexeme

/-!
# Reading JSON text

The reader turns a text into the `Source` that it offers.  Any depth of nesting
is read here; how deep a value may be is up to the one who keeps it.  Each value
takes at least one character, so the length of the text bounds the recursion.
-/

namespace TournamentScoring.Json

open TournamentScoring.Document

/-- The problem where something else stands than the text must have. -/
def missing (rest : List Char) : ReadError :=
  if rest.isEmpty then .endsEarly else .illFormed

/-- The place where a key must stand but no text does. -/
def missingKey (rest : List Char) : Label :=
  .stop (missing rest) (missing rest)

mutual

def readValue : Nat → List Char → Step
  | 0, _ => stopStep .endsEarly
  | fuel + 1, characters =>
    match dropSpace characters with
    | '[' :: rest =>
      match dropSpace rest with
      | ']' :: rest => (.array [] none, some rest)
      | [] => (.array [] (some .endsEarly), none)
      | rest =>
        match readItems fuel rest with
        | (items, .ok rest) => (.array items none, some rest)
        | (items, .error ending) => (.array items ending, none)
    | '\x7b' :: rest =>
      match dropSpace rest with
      | '\x7d' :: rest => (.object [] none, some rest)
      | rest =>
        match readMembers fuel rest with
        | (members, .ok rest) => (.object members none, some rest)
        | (members, .error ending) => (.object members ending, none)
    | rest => scalarStep rest

/-- The items from here to the closing bracket, and what follows it or the
problem that stands in its place. -/
def readItems : Nat → List Char →
    List Source × Except (Option ReadError) (List Char)
  | 0, _ => ([(stopStep .endsEarly).1], .error none)
  | fuel + 1, characters =>
    match readValue fuel characters with
    | (item, none) => ([item], .error none)
    | (item, some rest) =>
      match dropSpace rest with
      | ',' :: rest =>
        let (items, ending) := readItems fuel rest
        (item :: items, ending)
      | ']' :: rest => ([item], .ok rest)
      | rest => ([item], .error (some (missing rest)))

/-- The members from here to the closing brace, and what follows it or the
problem that stands in its place. -/
def readMembers : Nat → List Char →
    List (Label × Source) × Except (Option ReadError) (List Char)
  | 0, _ => ([(.stop .endsEarly .endsEarly, .null)], .error none)
  | fuel + 1, characters =>
    match dropSpace characters with
    | '"' :: rest =>
      match readText TextSoFar.start rest with
      | .stopped kept skipped => ([(.stop kept skipped, .null)], .error none)
      | .closed key rest =>
        let label :=
          match key with
          | .ok key => Label.name key
          | .error cause => Label.unfit cause
        match readColonAndValue fuel rest with
        | (value, none) => ([(label, value)], .error none)
        | (value, some rest) =>
          match dropSpace rest with
          | ',' :: rest =>
            let (members, ending) := readMembers fuel rest
            ((label, value) :: members, ending)
          | '\x7d' :: rest => ([(label, value)], .ok rest)
          | rest => ([(label, value)], .error (some (missing rest)))
    | rest => ([(missingKey rest, .null)], .error none)

def readColonAndValue : Nat → List Char → Step
  | 0, _ => stopStep .endsEarly
  | fuel + 1, characters =>
    match dropSpace characters with
    | ':' :: rest => readValue fuel rest
    | rest => stopStep (missing rest)

end

/-- A whole text: its value, and whether anything but space follows it. -/
structure Reading where
  value : Source
  hasTrailing : Bool

def read (text : String) : Reading :=
  let characters := text.toList
  match readValue (2 * characters.length + 2) characters with
  | (value, none) => ⟨value, false⟩
  | (value, some rest) => ⟨value, !(dropSpace rest).isEmpty⟩

end TournamentScoring.Json
