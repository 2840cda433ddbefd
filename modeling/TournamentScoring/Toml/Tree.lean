import TournamentScoring.Toml.Basic

/-!
# Building a TOML table

The lines of a document say little by little what its tables hold.  While a table
is being built, a `Branch` remembers how each of its parts came about, because
that decides what later lines may add: a value is final, a table with a header
may not be opened again, a table that a longer header implied may still get its
own header, and a table that dotted keys made may only grow by dotted keys.
Entries stand in the order in which the lines make them.
-/

namespace TournamentScoring.Toml

/-- How a table came about. -/
inductive Origin
  /-- By its own header, or as the table of the document. -/
  | header
  /-- As a step of a longer header. -/
  | implied
  /-- As a step of a dotted key. -/
  | dotted
deriving DecidableEq

inductive Branch
  /-- A value, inline tables and arrays included. -/
  | leaf (value : Toml)
  | table (origin : Origin) (entries : List (String × Branch))
  /-- An array of tables; the last one is still open.  The tables are listed from
  the last to the first. -/
  | tables (last : List (String × Branch))
      (earlier : List (List (String × Branch)))

abbrev Entries := List (String × Branch)

/-- Replaces an entry where it stands, or adds it at the end. -/
def setEntry (key : String) (branch : Branch) : Entries → Entries
  | [] => [(key, branch)]
  | head :: rest =>
    if key = head.1 then (key, branch) :: rest
    else head :: setEntry key branch rest

/-- The entries without the one under a key. -/
def dropEntry (key : String) (entries : Entries) : Entries :=
  entries.filter fun entry => entry.1 ≠ key

/-- Adds a key to a table that accepts keys, if the key is new. -/
def addKey (accepts : Bool) (key : String) (value : Toml) (entries : Entries) :
    Option Entries :=
  if accepts && (entries.lookup key).isNone then
    some (setEntry key (.leaf value) entries)
  else none

/-- Adds a value under a dotted key.  The steps of the path lead through tables
that are not closed, and the last of them must be a table of dotted keys. -/
def addPath (key : String) (value : Toml) :
    Bool → List String → Entries → Option Entries
  | accepts, [], entries => addKey accepts key value entries
  | _, step :: path, entries =>
    match entries.lookup step with
    | none =>
      (addPath key value true path []).map fun inner =>
        setEntry step (.table .dotted inner) entries
    | some (.leaf _) => none
    | some (.table .header _) => none
    | some (.table origin inner) =>
      (addPath key value (origin == .dotted) path inner).map fun inner =>
        setEntry step (.table origin inner) entries
    | some (.tables last earlier) =>
      (addPath key value false path last).map fun last =>
        setEntry step (.tables last earlier) entries

/-- Changes the table that the path of a header leads to.  Steps that do not
exist are implied. -/
def changeAt (change : Entries → Option Entries) :
    List String → Entries → Option Entries
  | [], entries => change entries
  | step :: path, entries =>
    match entries.lookup step with
    | none =>
      (changeAt change path []).map fun inner =>
        setEntry step (.table .implied inner) entries
    | some (.leaf _) => none
    | some (.table origin inner) =>
      (changeAt change path inner).map fun inner =>
        setEntry step (.table origin inner) entries
    | some (.tables last earlier) =>
      (changeAt change path last).map fun last =>
        setEntry step (.tables last earlier) entries

/-- Opens a table with its own header and fills it.  A table that was implied
before moves to the end. -/
def openTable (key : String) (fill : Entries → Option Entries)
    (entries : Entries) : Option Entries :=
  match entries.lookup key with
  | none =>
    (fill []).map fun inner => setEntry key (.table .header inner) entries
  | some (.table .implied existing) =>
    (fill existing).map fun inner =>
      setEntry key (.table .header inner) (dropEntry key entries)
  | some _ => none

/-- Opens the next table of an array of tables and fills it. -/
def openArrayTable (key : String) (fill : Entries → Option Entries)
    (entries : Entries) : Option Entries :=
  match entries.lookup key with
  | none => (fill []).map fun inner => setEntry key (.tables inner []) entries
  | some (.tables last earlier) =>
    (fill []).map fun inner =>
      setEntry key (.tables inner (last :: earlier)) entries
  | some _ => none

mutual

def Branch.value : Branch → Toml
  | .leaf value => value
  | .table _ entries => .table (entryValues entries)
  | .tables last earlier =>
    .array (tableValues [.table (entryValues last)] earlier)

def entryValues : List (String × Branch) → List (String × Toml)
  | [] => []
  | (key, branch) :: entries => (key, branch.value) :: entryValues entries

/-- The tables from the first to the last. -/
def tableValues (later : List Toml) :
    List (List (String × Branch)) → List Toml
  | [] => later
  | entries :: earlier =>
    tableValues (.table (entryValues entries) :: later) earlier

end

/-- A value with the dotted key before it. -/
structure Assignment where
  path : List String
  key : String
  value : Toml

/-- Fills an open table with assignments. -/
def assignAll (entries : Entries) : List Assignment → Option Entries
  | [] => some entries
  | assignment :: assignments =>
    match addPath assignment.key assignment.value true assignment.path entries with
    | none => none
    | some entries => assignAll entries assignments

/-- An inline table from its assignments. -/
def inlineTable (assignments : List Assignment) : Option Toml :=
  (assignAll [] assignments).map fun entries => .table (entryValues entries)

end TournamentScoring.Toml
