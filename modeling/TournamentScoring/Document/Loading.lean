import TournamentScoring.Document.Format
import TournamentScoring.Document.InputDecoding
import TournamentScoring.Document.ProfileDecoding
import TournamentScoring.Document.Refusal
import TournamentScoring.Files.Entry
import TournamentScoring.Files.Path
import TournamentScoring.Profile.Validation

/-!
# Loading documents from files

The format of a document is the extension of its path, exactly as written.  The
file is read before its extension is looked at.  A profile that is loaded for
scoring must have a valid structure; its formula is left to the engine.
-/

namespace TournamentScoring

open Document

/-- Why a document cannot be loaded: the variants of `AppError` that
`load_document` and `load_valid_profile` return. -/
inductive LoadError
  | notFound (path : String)
  | unreadable (fault : FileFault)
  | unsupportedFormat (path : String)
  /-- A text that was refused as a document of its kind. -/
  | document {kind : DocumentKind} {text : String} (cause : DocumentError)
  | invalidProfile (path : String) (issues : List Issue)
deriving DecidableEq

def pathNotFoundMessage (path : String) : String :=
  s!"path does not exist: {path}"

def LoadError.message (error : LoadError) (wording : Wording := .unknown) : String :=
  match error with
  | notFound path => pathNotFoundMessage path
  | unreadable fault => fault.message
  | unsupportedFormat path =>
    s!"unsupported document format: {path} (expected .json or .toml)"
  | @document kind text (.json _) =>
    wording.explain (.document kind .json text) "json error"
  | @document kind text .toml =>
    wording.explain (.document kind .toml text) "toml parse error"
  | invalidProfile path issues =>
    let list := String.intercalate "; " (issues.map Issue.message)
    s!"invalid score profile {path}: {list}"

def Document.Format.ofPath? (path : String) : Option Format :=
  match Path.extension? path with
  | some "json" => some .json
  | some "toml" => some .toml
  | _ => none

/-- The document in an entry that was found at a path, `load_document`. -/
def decodeEntry {α : Type} (kind : DocumentKind) (decoder : Decoder α)
    (path : String) (entry : Entry) : Except LoadError α :=
  match entry.text? with
  | none => .error (.notFound path)
  | some (.error fault) => .error (.unreadable fault)
  | some (.ok text) =>
    match Format.ofPath? path with
    | none => .error (.unsupportedFormat path)
    | some format =>
      match decoder.ofText format text with
      | .error cause => .error (@LoadError.document kind text cause)
      | .ok value => .ok value

/-- A profile whose structure is valid. -/
def Profile.withValidStructure (profile : Profile) (path : String) :
    Except LoadError Profile :=
  match profile.structureIssues with
  | [] => .ok profile
  | issues => .error (.invalidProfile path issues)

section

variable {m : Type → Type} [Monad m]

/-- Loads an input, `load_input`. -/
def ScoreInput.load (look : Lookup m) (path : String) :
    m (Except LoadError ScoreInput) := do
  return decodeEntry .input ScoreInput.decoder path (← look path)

/-- Loads a profile whatever its issues are, `load_profile`. -/
def Profile.load (look : Lookup m) (path : String) :
    m (Except LoadError Profile) := do
  return decodeEntry .profile Profile.decoder path (← look path)

/-- Loads a profile and checks its structure, `load_valid_profile`. -/
def Profile.loadValid (look : Lookup m) (path : String) :
    m (Except LoadError Profile) := do
  match ← Profile.load look path with
  | .error cause => return .error cause
  | .ok profile => return profile.withValidStructure path

end

end TournamentScoring
