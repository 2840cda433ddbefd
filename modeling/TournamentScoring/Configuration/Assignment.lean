import TournamentScoring.Configuration.Basic
import TournamentScoring.Files.Path

/-!
# The profile of a stage

A stage has the profile that is assigned to it, or else the one of the whole
tournament.  Its path is seen from the directory of the configuration.
-/

namespace TournamentScoring

/-- Where the profile of a stage was assigned. -/
inductive AssignmentLevel
  | stage
  | tournament
deriving DecidableEq

def AssignmentLevel.name : AssignmentLevel → String
  | stage => "stage"
  | tournament => "tournament"

/-- The profile that a stage is assigned, `ResolvedProfile`. -/
structure Assignment where
  level : AssignmentLevel
  path : String
deriving DecidableEq

namespace Configuration

/-- The assignment of a stage, with the path as it is configured. -/
def assignment? (configuration : Configuration) (stage : String) :
    Option Assignment :=
  match configuration.profiles with
  | none => none
  | some profiles =>
    match profiles.stages.get? stage, profiles.tournament with
    | some path, _ => some ⟨.stage, path⟩
    | none, some path => some ⟨.tournament, path⟩
    | none, none => none

/-- The assignment of a stage, with its path seen from `root`:
`resolve_profile`. -/
def resolve? (configuration : Configuration) (root stage : String) :
    Option Assignment :=
  (configuration.assignment? stage).map fun assignment =>
    { assignment with path := Path.join root assignment.path }

end Configuration

def noProfileAssignedMessage (stage : String) : String :=
  s!"no score profile assigned to stage '{stage}' or its tournament"

end TournamentScoring
