import TournamentScoring.KeyedTable
import TournamentScoring.Toml.Basic

/-!
# Layers of settings

Settings come in layers, and a later layer wins.  Two tables are merged key by
key; any other pair of values is decided for the later one, and the path of the
value that it replaces is noted.  The layers are in normal form, and so is what
they make together.
-/

namespace TournamentScoring

inductive Layer
  | global
  | repository
  | personal
deriving DecidableEq

/-- A layer as it is named where its values replace others. -/
def Layer.name : Layer → String
  | global => "global"
  | repository => "repo"
  | personal => "local"

namespace Toml

/-- The path of a key below a path.  The path of the whole document is empty. -/
def keyPath (path key : String) : String :=
  if path.isEmpty then key else path ++ "." ++ key

/-- A value under an overlay, and the paths whose values were replaced. -/
structure Merge (α : Type) where
  value : α
  replaced : List String

mutual

/-- Merges an overlay into a value, `merge_toml`. -/
def merge (path : String) (base : Toml) : Toml → Merge Toml
  | table overlay =>
    match base with
    | table entries =>
      let merged := mergeEntries path entries overlay
      ⟨table merged.value, merged.replaced⟩
    | _ => ⟨table overlay, [path]⟩
  | value => ⟨value, [path]⟩

/-- Merges the entries of an overlay in their order. -/
def mergeEntries (path : String) (entries : List (String × Toml)) :
    List (String × Toml) → Merge (List (String × Toml))
  | [] => ⟨entries, []⟩
  | (key, value) :: overlay =>
    match entries.lookup key with
    | none => mergeEntries path (insertEntry key value entries) overlay
    | some existing =>
      let merged := merge (keyPath path key) existing value
      let others :=
        mergeEntries path (insertEntry key merged.value entries) overlay
      ⟨others.value, merged.replaced ++ others.replaced⟩

end

/-- One document of all layers, from the first to the last, and the values that
were replaced, each with the layer that replaced it. -/
def mergeLayers (base : Toml) : List (Layer × Toml) → Merge Toml
  | [] => ⟨base, []⟩
  | (layer, overlay) :: layers =>
    let merged := merge "" base overlay
    let others := mergeLayers merged.value layers
    ⟨others.value,
      merged.replaced.map (fun path => layer.name ++ ":" ++ path) ++
        others.replaced⟩

end Toml

end TournamentScoring
