import TournamentScoring.Configuration.Decoding
import TournamentScoring.Configuration.Layer
import TournamentScoring.Document.Refusal
import TournamentScoring.Files.Entry
import TournamentScoring.Files.Path
import TournamentScoring.Toml.NormalForm
import TournamentScoring.Toml.Reader

/-!
# Loading a configuration

The configuration of a directory is merged from three files: the user's global
one, the repository's and a personal one beside it.  Without the repository's
file there is no configuration and the other files are not read.  Types and rules
are checked after merging, so a faulty value that a later layer replaces does no
harm.
-/

namespace TournamentScoring

/-- Why a configuration cannot be loaded: the variants of `AppError` that
`load_config_with_global` returns. -/
inductive ConfigurationError
  | unreadable (fault : FileFault)
  /-- A file whose text is no TOML or spells a moment wrongly. -/
  | illFormed {text : String} (path : String)
  /-- Layers that make a setting of the wrong type together. -/
  | mismatch {merged : Toml}
  | broken (rule : ConfigurationRule)

def ConfigurationError.message (error : ConfigurationError)
    (wording : Wording := .unknown) : String :=
  match error with
  | unreadable fault => fault.message
  | @illFormed text path =>
    wording.explain (.layer text) s!"config parse error: {path}"
  | @mismatch merged =>
    wording.explain (.settings merged) "config parse error"
  | broken rule => s!"config parse error: {rule.message}"

/-- A configuration and the settings that later layers replaced in it. -/
structure LayeredConfiguration where
  configuration : Configuration
  overrides : List String
deriving DecidableEq

namespace LayeredConfiguration

/-- The configuration that the layers make together. -/
def ofLayers (layers : List (Layer × Toml)) :
    Except ConfigurationError LayeredConfiguration :=
  let merged := Toml.mergeLayers (.table []) layers
  match Configuration.ofToml? merged.value with
  | none => .error (@ConfigurationError.mismatch merged.value)
  | some configuration =>
    match configuration.brokenRules with
    | [] => .ok ⟨configuration, merged.replaced⟩
    | rule :: _ => .error (.broken rule)

/-- The document in an entry in normal form, `read_toml_value`, if there is an
entry at all. -/
def layer? (path : String) (entry : Entry) :
    Except ConfigurationError (Option Toml) :=
  match entry.text? with
  | none => .ok none
  | some (.error fault) => .error (.unreadable fault)
  | some (.ok text) =>
    match (Toml.read text).bind Toml.normalForm? with
    | none => .error (@ConfigurationError.illFormed text path)
    | some document => .ok (some document)

def repositoryPath (root : String) : String :=
  Path.join root "matchscore.toml"

def personalPath (root : String) : String :=
  Path.join root ".matchscore/local.toml"

def globalPath (home : String) : String :=
  Path.join home ".config/matchscore/config.toml"

/-- The files of the layers in their order. -/
def layerPaths (root : String) (globalPath : Option String) :
    List (Layer × String) :=
  (globalPath.map fun path => (Layer.global, path)).toList ++
    [(.repository, repositoryPath root), (.personal, personalPath root)]

section

variable {m : Type → Type} [Monad m]

/-- Reads the layers that exist, up to the first one that cannot be read. -/
def readLayers (look : Lookup m) :
    List (Layer × String) → m (Except ConfigurationError (List (Layer × Toml)))
  | [] => return .ok []
  | (layer, path) :: paths => do
    match layer? path (← look path) with
    | .error cause => return .error cause
    | .ok document =>
      match ← readLayers look paths with
      | .error cause => return .error cause
      | .ok layers =>
        return .ok ((document.map fun value => (layer, value)).toList ++ layers)

/-- The configuration of a directory, if it has one:
`load_config_with_global`. -/
def load (look : Lookup m) (root : String) (globalPath : Option String) :
    m (Except ConfigurationError (Option LayeredConfiguration)) := do
  if !(← look (repositoryPath root)).isPresent then return .ok none
  match ← readLayers look (layerPaths root globalPath) with
  | .error cause => return .error cause
  | .ok layers => return (ofLayers layers).map some

end

end LayeredConfiguration

end TournamentScoring
