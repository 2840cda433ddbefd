/-!
# What stands at a path

Programs of this library never open a file by themselves.  They are given a way
to look at a path, in whatever monad the files live: a tree in memory needs no
effect, the real files need one.
-/

namespace TournamentScoring

inductive Entry
  | absent
  | directory
  | file (content : ByteArray)
  /-- Something that cannot be read, with the reason. -/
  | unreadable (reason : String)

/-- Looks at a path. -/
abbrev Lookup (m : Type → Type) := String → m Entry

/-- Why the content of an entry cannot be had as text. -/
inductive FileFault
  | isDirectory
  | notText
  | unreadable (reason : String)
deriving DecidableEq

def FileFault.message : FileFault → String
  | isDirectory => "io error: Is a directory (os error 21)"
  | notText => "io error: stream did not contain valid UTF-8"
  | unreadable reason => s!"io error: {reason}"

namespace Entry

def isPresent : Entry → Bool
  | absent => false
  | _ => true

/-- The text of an entry; none if there is no entry. -/
def text? : Entry → Option (Except FileFault String)
  | absent => none
  | directory => some (.error .isDirectory)
  | unreadable reason => some (.error (.unreadable reason))
  | file content =>
    match String.fromUTF8? content with
    | some text => some (.ok text)
    | none => some (.error .notText)

end Entry

end TournamentScoring
