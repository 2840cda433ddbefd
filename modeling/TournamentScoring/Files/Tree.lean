import TournamentScoring.Files.Entry
import TournamentScoring.Files.Path
import TournamentScoring.KeyedTable

/-!
# A tree of files in memory

A tree holds files and directories under names that are relative to its top.  A
path is followed name by name, and each step needs a directory to start from, so
a path that goes on behind a file leads nowhere.  Around the tree there are
directories, but nothing else can be seen there.
-/

namespace TournamentScoring

inductive FileContent
  | directory
  | file (content : ByteArray)

/-- Files and directories by name.  The directories on the way to a name need no
entry of their own. -/
structure FileTree where
  contents : KeyedTable FileContent

/-- Where a path has led so far. -/
inductive Place
  /-- The names from the top of the tree down to here. -/
  | inside (names : List String)
  /-- A directory around the tree. -/
  | outside
deriving DecidableEq

namespace FileTree

def nameOf (names : List String) : String :=
  String.intercalate "/" names

/-- Whether some name goes on below a directory. -/
def hasBelow (tree : FileTree) (directory : String) : Bool :=
  tree.contents.keys.any fun name =>
    (directory ++ "/").toList.isPrefixOf name.toList

def entryAt (tree : FileTree) : Place → Entry
  | .outside => .directory
  | .inside [] => .directory
  | .inside names =>
    match tree.contents.get? (nameOf names) with
    | some (.file content) => .file content
    | some .directory => .directory
    | none => if tree.hasBelow (nameOf names) then .directory else .absent

def isDirectory (tree : FileTree) (place : Place) : Bool :=
  match tree.entryAt place with
  | .directory => true
  | _ => false

/-- One step from a directory. -/
def step (place : Place) (component : String) : Option Place :=
  match component, place with
  | "", place => some place
  | ".", place => some place
  | "..", .inside [] => some .outside
  | "..", .inside names => some (.inside names.dropLast)
  | "..", .outside => some .outside
  | name, .inside names => some (.inside (names ++ [name]))
  | _, .outside => none

/-- Follows the components of a path. -/
def follow (tree : FileTree) (place : Place) : List String → Option Place
  | [] => some place
  | component :: components =>
    if tree.isDirectory place then
      match step place component with
      | some next => tree.follow next components
      | none => none
    else none

/-- What stands at a path, seen from the top of the tree. -/
def look (tree : FileTree) (path : String) : Entry :=
  if path.isEmpty then .absent
  else
    let start := if Path.isAbsolute path then Place.outside else .inside []
    let components := (Path.components path.toList).map String.ofList
    match tree.follow start components with
    | some place => tree.entryAt place
    | none => .absent

end FileTree

end TournamentScoring
