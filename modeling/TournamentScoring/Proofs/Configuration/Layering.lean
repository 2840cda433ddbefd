import TournamentScoring.CommandLine.Run
import Mathlib.Data.List.Forall2
import TournamentScoring.Proofs.Configuration.Settings

/-!
# The last layer wins

The documents of the layers are merged before they are decoded.  Where every layer
spells a configuration by itself, the merged document spells these configurations
one under the other, so each setting has the value of the last layer that sets it.
Rules are asked only of the result.
-/

namespace TournamentScoring

open Toml

/-! ## Settings of layers -/

namespace Configuration

variable {α : Type}

def maxFormulaLength (configuration : Configuration) : Option Nat :=
  configuration.engine.bind EngineSection.maxFormulaLength

def scoreDecimals (configuration : Configuration) : Option UInt32 :=
  configuration.engine.bind EngineSection.scoreDecimals

def tournament (configuration : Configuration) : Option String :=
  configuration.profiles.bind ProfilesSection.tournament

def stagePath (stage : String) (configuration : Configuration) : Option String :=
  configuration.profiles.bind fun profiles => profiles.stages.get? stage

theorem assignment?_eq (configuration : Configuration) (stage : String) :
    configuration.assignment? stage =
      match configuration.stagePath stage, configuration.tournament with
      | some path, _ => some ⟨.stage, path⟩
      | none, some path => some ⟨.tournament, path⟩
      | none, none => none := by
  obtain ⟨engine, profiles⟩ := configuration
  cases profiles <;> rfl

/-- What the last layer that has a setting sets it to. -/
def lastSet (setting : Configuration → Option α) (layers : List Configuration) :
    Option α :=
  layers.reverse.findSome? setting

/-- A configuration in which the last layer wins, setting by setting. -/
structure IsLastOf (combined : Configuration) (layers : List Configuration) :
    Prop where
  maxFormulaLength_eq : combined.maxFormulaLength = lastSet maxFormulaLength layers
  scoreDecimals_eq : combined.scoreDecimals = lastSet scoreDecimals layers
  logLevel_eq : combined.logLevel = lastSet logLevel layers
  tournament_eq : combined.tournament = lastSet tournament layers
  stagePath_eq : ∀ stage, combined.stagePath stage = lastSet (stagePath stage) layers

/-- Nothing set at all. -/
def blank : Configuration := ⟨none, none⟩

/-- A setting that a later configuration wins. -/
def LaterWins (setting : Configuration → Option α) : Prop :=
  ∀ earlier later : Configuration,
    setting (earlier.under later) = (setting later).or (setting earlier)

theorem bind_merge {β : Type} {combine : β → β → β} {setting : β → Option α}
    (hcombine : ∀ earlier later,
      setting (combine earlier later) = (setting later).or (setting earlier))
    (earlier later : Option β) :
    (Option.merge combine earlier later).bind setting =
      (later.bind setting).or (earlier.bind setting) := by
  cases earlier with
  | none => cases later <;> simp
  | some first =>
    cases later with
    | none => rfl
    | some second => exact hcombine first second

theorem laterWins_maxFormulaLength : LaterWins maxFormulaLength := fun earlier later =>
  bind_merge (fun _ _ => rfl) earlier.engine later.engine

theorem laterWins_scoreDecimals : LaterWins scoreDecimals := fun earlier later =>
  bind_merge (fun _ _ => rfl) earlier.engine later.engine

theorem laterWins_logLevel : LaterWins logLevel := fun earlier later =>
  bind_merge (fun _ _ => rfl) earlier.engine later.engine

theorem laterWins_tournament : LaterWins tournament := fun earlier later =>
  bind_merge (fun _ _ => rfl) earlier.profiles later.profiles

theorem laterWins_stagePath (stage : String) : LaterWins (stagePath stage) :=
  fun earlier later =>
    bind_merge (fun _ _ => KeyedTable.get?_under _ _ stage) earlier.profiles
      later.profiles

theorem foldl_under {setting : Configuration → Option α} (hwins : LaterWins setting)
    (earliest : Configuration) (layers : List Configuration) :
    setting (layers.foldl under earliest) =
      (lastSet setting layers).or (setting earliest) := by
  induction layers generalizing earliest with
  | nil => rfl
  | cons first layers ih =>
    calc setting (layers.foldl under (earliest.under first))
        = (lastSet setting layers).or (setting (earliest.under first)) := ih _
      _ = (lastSet setting layers).or ((setting first).or (setting earliest)) := by
        rw [hwins]
      _ = (lastSet setting (first :: layers)).or (setting earliest) := by
        rw [lastSet, lastSet, List.reverse_cons, List.findSome?_append,
          Option.or_assoc, List.findSome?_singleton]

theorem isLastOf_foldl_under (layers : List Configuration) :
    (layers.foldl under blank).IsLastOf layers where
  maxFormulaLength_eq :=
    (foldl_under laterWins_maxFormulaLength blank layers).trans (Option.or_none ..)
  scoreDecimals_eq :=
    (foldl_under laterWins_scoreDecimals blank layers).trans (Option.or_none ..)
  logLevel_eq :=
    (foldl_under laterWins_logLevel blank layers).trans (Option.or_none ..)
  tournament_eq :=
    (foldl_under laterWins_tournament blank layers).trans (Option.or_none ..)
  stagePath_eq stage :=
    (foldl_under (laterWins_stagePath stage) blank layers).trans (Option.or_none ..)

end Configuration

/-! ## Merged documents -/

namespace Toml

/-- What stands under a key of a table. -/
def at? (key : String) : Toml → Option Toml
  | table entries => entries.lookup key
  | _ => none

/-- A document that spells a configuration by itself, with tables for its sections.
Stages are never spelled by anything else. -/
structure Spells (document : Toml) (configuration : Configuration) : Prop where
  ofToml?_eq : Configuration.ofToml? document = some configuration
  engine_isTable : (document.at? "engine").all isTable = true
  profiles_isTable : (document.at? "profiles").all isTable = true

instance (document : Toml) (configuration : Configuration) :
    Decidable (Spells document configuration) :=
  decidable_of_iff
    (Configuration.ofToml? document = some configuration ∧
      (document.at? "engine").all isTable = true ∧
      (document.at? "profiles").all isTable = true)
    ⟨fun ⟨hread, hengine, hprofiles⟩ => ⟨hread, hengine, hprofiles⟩,
      fun ⟨hread, hengine, hprofiles⟩ => ⟨hread, hengine, hprofiles⟩⟩

theorem Spells.exists_entries {document : Toml} {configuration : Configuration}
    (hspells : Spells document configuration) :
    ∃ entries, document = table entries := by
  have hread := hspells.ofToml?_eq
  cases document with
  | table entries => exact ⟨entries, rfl⟩
  | _ => cases hread

theorem all_isTable_mergeEntries {entries overlay : List (String × Toml)}
    (hoverlay : Ordered (table overlay)) {key : String}
    (hbase : (entries.lookup key).all isTable = true)
    (htable : (overlay.lookup key).all isTable = true) (path : String) :
    ((mergeEntries path entries overlay).value.lookup key).all isTable = true := by
  rw [lookup_mergeEntries path (KeyedTable.nodup_map_fst hoverlay.1)]
  cases hvalue : overlay.lookup key with
  | none => exact hbase
  | some value =>
    rw [hvalue] at htable
    exact (isTable_mergeAt _ _ value).trans htable

/-- Merging is one configuration under another. -/
theorem Spells.merge {base overlay : Toml} {earlier later : Configuration}
    (hbase : Ordered base) (hoverlay : Ordered overlay)
    (hearlier : Spells base earlier) (hlater : Spells overlay later) (path : String) :
    Spells (Toml.merge path base overlay).value (earlier.under later) := by
  obtain ⟨entries, rfl⟩ := hearlier.exists_entries
  obtain ⟨others, rfl⟩ := hlater.exists_entries
  obtain ⟨hread, hengine, hprofiles⟩ := hearlier
  obtain ⟨hlaterRead, hlaterEngine, hlaterProfiles⟩ := hlater
  rw [Configuration.ofToml?_table_eq_some_iff] at hread hlaterRead
  rw [Toml.merge]
  refine ⟨Configuration.ofToml?_table_eq_some_iff.mpr ⟨?_, ?_⟩, ?_, ?_⟩
  · exact setting?_mergeEntries_table mergesTables_engineSection hbase hoverlay hengine
      hlaterEngine hread.1 hlaterRead.1 path
  · exact setting?_mergeEntries_table mergesTables_profilesSection hbase hoverlay
      hprofiles hlaterProfiles hread.2 hlaterRead.2 path
  · exact all_isTable_mergeEntries hoverlay hengine hlaterEngine path
  · exact all_isTable_mergeEntries hoverlay hprofiles hlaterProfiles path

/-- Layers over a document that spells a configuration: all of them together spell
their configurations one under the other. -/
theorem Spells.mergeLayers {layers : List (Layer × Toml)}
    {configurations : List Configuration}
    (hlayers : List.Forall₂ Spells (layers.map (·.2)) configurations)
    (hordered : ∀ layer ∈ layers, Ordered layer.2) {base : Toml}
    {earliest : Configuration} (hbase : Ordered base) (hearliest : Spells base earliest) :
    Spells (Toml.mergeLayers base layers).value
      (configurations.foldl Configuration.under earliest) := by
  induction layers generalizing configurations base earliest with
  | nil =>
    cases hlayers
    exact hearliest
  | cons layer layers ih =>
    obtain ⟨configuration, configurations, hfirst, hrest, rfl⟩ :=
      List.forall₂_cons_left_iff.mp hlayers
    obtain ⟨hlayer, hothers⟩ := List.forall_mem_cons.mp hordered
    exact ih hrest hothers (ordered_merge hbase hlayer)
      (hearliest.merge hbase hlayer hfirst "")

end Toml

/-! ## Loading -/

namespace LayeredConfiguration

/-- Merging starts from an empty document. -/
theorem spells_blank : Spells (.table []) Configuration.blank := ⟨rfl, rfl, rfl⟩

theorem ordered_of_layer? {path : String} {entry : Entry} {document : Option Toml}
    (hlayer : layer? path entry = .ok document) :
    ∀ value ∈ document, Ordered value := by
  unfold layer? at hlayer
  split at hlayer
  · cases hlayer
    nofun
  · cases hlayer
  · split at hlayer
    · cases hlayer
    · rename_i hread
      cases hlayer
      obtain ⟨tree, -, hnormal⟩ := Option.bind_eq_some_iff.mp hread
      rintro value ⟨⟩
      exact ordered_of_normalForm? hnormal

theorem isPresent_of_layer? {path : String} {entry : Entry} {document : Toml}
    (hlayer : layer? path entry = .ok (some document)) : entry.isPresent = true := by
  cases entry with
  | absent => cases hlayer
  | _ => rfl

theorem ofLayers_eq {layers : List (Layer × Toml)} {configurations : List Configuration}
    (hlayers : List.Forall₂ Spells (layers.map (·.2)) configurations)
    (hordered : ∀ layer ∈ layers, Ordered layer.2) :
    ofLayers layers =
      match (configurations.foldl Configuration.under .blank).brokenRules with
      | [] => .ok ⟨configurations.foldl Configuration.under .blank,
          (mergeLayers (.table []) layers).replaced⟩
      | rule :: _ => .error (.broken rule) := by
  have hblank : Ordered (.table []) := ⟨List.Pairwise.nil, trivial⟩
  have hspells := Spells.mergeLayers hlayers hordered hblank spells_blank
  cases hbroken : (configurations.foldl Configuration.under .blank).brokenRules with
  | nil => simp only [ofLayers, hspells.ofToml?_eq, hbroken]
  | cons rule rules => simp only [ofLayers, hspells.ofToml?_eq, hbroken]

section

variable {look : Lookup Id}

theorem readLayers_cons {layer : Layer} {path : String} {paths : List (Layer × String)}
    {document : Option Toml} {others : List (Layer × Toml)}
    (hdocument : layer? path (look path) = .ok document)
    (hothers : readLayers look paths = Except.ok others) :
    readLayers look ((layer, path) :: paths) =
      Except.ok ((document.map fun value => (layer, value)).toList ++ others) := by
  simp only [readLayers, bind, pure, hdocument, hothers]

/-- The documents of the three files, those that there are. -/
def layersOf (global : Option Toml) (repository : Toml) (personal : Option Toml) :
    List (Layer × Toml) :=
  (global.map fun value => (Layer.global, value)).toList ++
    (.repository, repository) :: (personal.map fun value => (Layer.personal, value)).toList

theorem readLayers_layerPaths {root : String} {globalPath : Option String}
    {global personal : Option Toml} {repository : Toml}
    (hglobal : (globalPath.elim (.ok none) fun path => layer? path (look path)) =
      .ok global)
    (hrepository : layer? (repositoryPath root) (look (repositoryPath root)) =
      .ok (some repository))
    (hpersonal : layer? (personalPath root) (look (personalPath root)) = .ok personal) :
    readLayers look (layerPaths root globalPath) =
      Except.ok (layersOf global repository personal) := by
  have hlast : readLayers look [(.personal, personalPath root)] =
      Except.ok ((personal.map fun value => (Layer.personal, value)).toList ++ []) :=
    readLayers_cons hpersonal rfl
  rw [List.append_nil] at hlast
  have hlocal : readLayers look
      [(.repository, repositoryPath root), (.personal, personalPath root)] = _ :=
    readLayers_cons hrepository hlast
  cases globalPath with
  | none =>
    cases hglobal
    exact hlocal
  | some path => exact readLayers_cons hglobal hlocal

theorem ordered_layersOf {global personal : Option Toml} {repository : Toml}
    (hglobal : ∀ value ∈ global, Ordered value) (hrepository : Ordered repository)
    (hpersonal : ∀ value ∈ personal, Ordered value) :
    ∀ layer ∈ layersOf global repository personal, Ordered layer.2 := by
  intro layer hlayer
  rcases List.mem_append.mp hlayer with hfirst | hothers
  · obtain ⟨value, hvalue, rfl⟩ := Option.map_eq_some_iff.mp (Option.mem_toList.mp hfirst)
    exact hglobal value hvalue
  · rcases List.mem_cons.mp hothers with rfl | hlast
    · exact hrepository
    · obtain ⟨value, hvalue, rfl⟩ :=
        Option.map_eq_some_iff.mp (Option.mem_toList.mp hlast)
      exact hpersonal value hvalue

theorem map_snd_layersOf (global personal : Option Toml) (repository : Toml) :
    (layersOf global repository personal).map (·.2) =
      global.toList ++ repository :: personal.toList := by
  cases global <;> cases personal <;> rfl

theorem load_eq {root : String} {globalPath : Option String} {layers : List (Layer × Toml)}
    (hpresent : (look (repositoryPath root)).isPresent = true)
    (hlayers : readLayers look (layerPaths root globalPath) = Except.ok layers) :
    load look root globalPath = (ofLayers layers).map some := by
  change (if !(look (repositoryPath root)).isPresent then Except.ok none
    else match readLayers look (layerPaths root globalPath) with
      | .error cause => Except.error cause
      | .ok layers => (ofLayers layers).map some) = _
  rw [hpresent, hlayers]
  rfl

/-- The profile of a stage is the one that its last layer assigns to it, or else the
last one for the whole tournament. -/
theorem resolve_of_isLastOf {combined : Configuration} {configurations : List Configuration}
    (hlast : combined.IsLastOf configurations) (root stage : String) :
    ((ProfileChoice.stage stage).resolve root (some combined)).map Prod.fst =
      match (Configuration.lastSet (Configuration.stagePath stage) configurations).or
        (Configuration.lastSet Configuration.tournament configurations) with
      | some path => .ok (Path.join root path)
      | none => .error (.noProfileAssigned stage) := by
  rw [← hlast.stagePath_eq, ← hlast.tournament_eq]
  simp only [ProfileChoice.resolve, Option.bind_some, Configuration.resolve?,
    Configuration.assignment?_eq]
  cases combined.stagePath stage with
  | some path => rfl
  | none => cases combined.tournament <;> rfl

/-- Where the layers at hand each spell a configuration, the one that is loaded has
every setting and every stage from the last layer that sets it.  Rules are asked of
it alone: it is loaded unless it breaks one of them, whatever the layers broke. -/
theorem load_last_layer_wins {root : String} {globalPath : Option String}
    {global personal : Option Toml} {repository : Toml}
    (hglobal : (globalPath.elim (.ok none) fun path => layer? path (look path)) =
      .ok global)
    (hrepository : layer? (repositoryPath root) (look (repositoryPath root)) =
      .ok (some repository))
    (hpersonal : layer? (personalPath root) (look (personalPath root)) = .ok personal)
    {configurations : List Configuration}
    (hspells : List.Forall₂ Spells (global.toList ++ repository :: personal.toList)
      configurations) :
    ∃ combined overrides,
      combined.IsLastOf configurations ∧
      load look root globalPath =
        (match combined.brokenRules with
        | [] => Except.ok (some ⟨combined, overrides⟩)
        | rule :: _ => Except.error (.broken rule)) ∧
      ∀ stage, ((ProfileChoice.stage stage).resolve root (some combined)).map Prod.fst =
        match (Configuration.lastSet (Configuration.stagePath stage) configurations).or
          (Configuration.lastSet Configuration.tournament configurations) with
        | some path => .ok (Path.join root path)
        | none => .error (.noProfileAssigned stage) := by
  have hlast := Configuration.isLastOf_foldl_under configurations
  refine ⟨_, (mergeLayers (.table []) (layersOf global repository personal)).replaced,
    hlast, ?_, resolve_of_isLastOf hlast root⟩
  have hglobalOrdered : ∀ value ∈ global, Ordered value := by
    cases globalPath with
    | none =>
      cases hglobal
      nofun
    | some path => exact ordered_of_layer? hglobal
  have hordered := ordered_layersOf hglobalOrdered
    (ordered_of_layer? hrepository repository rfl) (ordered_of_layer? hpersonal)
  rw [← map_snd_layersOf] at hspells
  rw [load_eq (isPresent_of_layer? hrepository)
    (readLayers_layerPaths hglobal hrepository hpersonal), ofLayers_eq hspells hordered]
  cases (configurations.foldl Configuration.under .blank).brokenRules <;> rfl

end

theorem exists_layer?_of_text {look : Lookup Id} {path text : String}
    (hentry : look path = .file text.toUTF8) {configuration : Configuration}
    (hspells : ((Toml.read text).bind normalForm?).any
      (fun document => decide (document.Spells configuration)) = true) :
    ∃ document, layer? path (look path) = .ok (some document) ∧
      document.Spells configuration := by
  obtain ⟨document, hdocument, hdecide⟩ := (Option.any_eq_true _ _).mp hspells
  refine ⟨document, ?_, of_decide_eq_true hdecide⟩
  have hdecoded : String.fromUTF8? text.toUTF8 = some text := dif_pos text.isValidUTF8
  have htext : (look path).text? = some (.ok text) := by
    rw [hentry]
    dsimp only [Entry.text?]
    rw [hdecoded]
  rw [layer?, htext]
  dsimp only
  rw [hdocument]

/-- Three files.  The global one leaves no room for any formula, which is mended in
the repository. -/
def threeFiles : Lookup Id := fun path =>
  if path = "global.toml" then
    .file "[engine]\nmax_formula_length = 0\nlog_level = \"info\"\n".toUTF8
  else if path = repositoryPath "cup" then
    .file "[engine]\nmax_formula_length = 80\n[profiles]\ntournament = \"all\"\n".toUTF8
  else if path = personalPath "cup" then
    .file "[profiles.stages]\nfinal = \"gala\"\n".toUTF8
  else .absent

def threeConfigurations : List Configuration :=
  [⟨some ⟨some 0, none, some "info"⟩, none⟩,
    ⟨some ⟨some 80, none, none⟩, some ⟨some "all", .empty⟩⟩,
    ⟨none, some ⟨none, .ofList [("final", "gala")]⟩⟩]

theorem threeFiles_loaded :
    ∃ combined overrides,
      load threeFiles "cup" (some "global.toml") =
        Except.ok (some ⟨combined, overrides⟩) ∧
      combined.IsLastOf threeConfigurations ∧ combined.maxFormulaLength = some 80 ∧
      ((ProfileChoice.stage "final").resolve "cup" (some combined)).map Prod.fst =
        .ok (Path.join "cup" "gala") ∧
      ((ProfileChoice.stage "heat").resolve "cup" (some combined)).map Prod.fst =
        .ok (Path.join "cup" "all") := by
  have hfirst : ∃ document,
      layer? "global.toml" (threeFiles "global.toml") = .ok (some document) ∧
        document.Spells ⟨some ⟨some 0, none, some "info"⟩, none⟩ :=
    exists_layer?_of_text (if_pos rfl) (by decide +kernel)
  have hsecond : ∃ document,
      layer? (repositoryPath "cup") (threeFiles (repositoryPath "cup")) =
          .ok (some document) ∧
        document.Spells ⟨some ⟨some 80, none, none⟩, some ⟨some "all", .empty⟩⟩ :=
    exists_layer?_of_text ((if_neg (by decide +kernel)).trans (if_pos rfl))
      (by decide +kernel)
  have hthird : ∃ document,
      layer? (personalPath "cup") (threeFiles (personalPath "cup")) =
          .ok (some document) ∧
        document.Spells ⟨none, some ⟨none, .ofList [("final", "gala")]⟩⟩ :=
    exists_layer?_of_text ((if_neg (by decide +kernel)).trans
      ((if_neg (by decide +kernel)).trans (if_pos rfl))) (by decide +kernel)
  obtain ⟨global, hglobal, hglobalSpells⟩ := hfirst
  obtain ⟨repository, hrepository, hrepositorySpells⟩ := hsecond
  obtain ⟨personal, hpersonal, hpersonalSpells⟩ := hthird
  have hgiven : ((some "global.toml").elim (.ok none) fun path =>
      layer? path (threeFiles path)) = .ok (some global) := by
    rw [Option.elim_some, hglobal]
  have hspells : List.Forall₂ Spells [global, repository, personal]
      threeConfigurations :=
    .cons hglobalSpells (.cons hrepositorySpells (.cons hpersonalSpells .nil))
  obtain ⟨combined, overrides, hlast, hload, hresolve⟩ :=
    load_last_layer_wins hgiven hrepository hpersonal hspells
  have hloaded :
      Except.isOk (load (m := Id) threeFiles "cup" (some "global.toml")) = true := by
    decide +kernel
  have hfinal : (Configuration.lastSet (Configuration.stagePath "final")
      threeConfigurations).or
        (Configuration.lastSet Configuration.tournament threeConfigurations) =
      some "gala" := by
    decide +kernel
  have hheat : (Configuration.lastSet (Configuration.stagePath "heat")
      threeConfigurations).or
        (Configuration.lastSet Configuration.tournament threeConfigurations) =
      some "all" := by
    decide +kernel
  refine ⟨combined, overrides, ?_, hlast,
    hlast.maxFormulaLength_eq.trans (by decide +kernel), ?_, ?_⟩
  · rw [hload] at hloaded ⊢
    cases hbroken : combined.brokenRules with
    | nil => rfl
    | cons rule rules =>
      rw [hbroken] at hloaded
      cases hloaded
  · rw [hresolve, hfinal]
  · rw [hresolve, hheat]

end LayeredConfiguration

end TournamentScoring
