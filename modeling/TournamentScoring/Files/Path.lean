/-!
# Paths

A path is a text with its names between slashes.  Nothing is tidied up: a path is
shown as it was given or joined.
-/

namespace TournamentScoring.Path

/-- The names between the slashes, empty ones included. -/
def components : List Char → List (List Char)
  | [] => [[]]
  | head :: rest =>
    if head = '/' then [] :: components rest
    else
      match components rest with
      | [] => [[head]]
      | first :: others => (head :: first) :: others

def isAbsolute (path : String) : Bool :=
  path.toList.head? == some '/'

/-- A path as seen from a directory.  An absolute path is the same from
everywhere. -/
def join (directory path : String) : String :=
  if isAbsolute path ∨ directory.isEmpty then path
  else if directory.toList.getLast? == some '/' then directory ++ path
  else directory ++ "/" ++ path

/-- The last name of a path. -/
def lastName (path : String) : List Char :=
  (components path.toList).getLastD []

/-- What follows the last point of the last name, where something stands before
that point. -/
def extension? (path : String) : Option String :=
  match (lastName path).reverse.span (· ≠ '.') with
  | (ending, '.' :: _ :: _) => some (String.ofList ending.reverse)
  | _ => none

end TournamentScoring.Path
