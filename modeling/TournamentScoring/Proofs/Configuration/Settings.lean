import TournamentScoring.Configuration.Decoding
import TournamentScoring.Proofs.Toml.Merge

/-!
# Settings of merged documents

A setting of a merged table is the one of the overlay, or else the one of the base,
because a setting is never a table.  Sections and the table of stages are tables,
so they are merged setting by setting and stage by stage.
-/

namespace TournamentScoring

/-! ## Sections under later ones -/

/-- A section under a later one, whose settings win. -/
def EngineSection.under (earlier later : EngineSection) : EngineSection where
  maxFormulaLength := later.maxFormulaLength.or earlier.maxFormulaLength
  scoreDecimals := later.scoreDecimals.or earlier.scoreDecimals
  logLevel := later.logLevel.or earlier.logLevel

def ProfilesSection.under (earlier later : ProfilesSection) : ProfilesSection where
  tournament := later.tournament.or earlier.tournament
  stages := earlier.stages.under later.stages

/-- A configuration under a later one.  A section that only one of them has is
kept. -/
def Configuration.under (earlier later : Configuration) : Configuration where
  engine := Option.merge EngineSection.under earlier.engine later.engine
  profiles := Option.merge ProfilesSection.under earlier.profiles later.profiles

namespace Toml

variable {α : Type}

/-! ## What reads no table, and what reads nothing else -/

theorem natural?_of_isTable {value : Toml} (htable : value.isTable = true) :
    value.natural? = none := by
  cases value with
  | table entries => rfl
  | _ => cases htable

theorem word32?_of_isTable {value : Toml} (htable : value.isTable = true) :
    value.word32? = none := by
  rw [word32?, natural?_of_isTable htable]

theorem text?_of_isTable {value : Toml} (htable : value.isTable = true) :
    value.text? = none := by
  cases value with
  | table entries => rfl
  | _ => cases htable

theorem isTable_of_textTable? {value : Toml} {texts : KeyedTable String}
    (htexts : value.textTable? = some texts) : value.isTable = true := by
  cases value with
  | table entries => rfl
  | _ => cases htexts

/-! ## Settings -/

theorem setting?_mergeEntries {read : Toml → Option α}
    (hread : ∀ {value}, isTable value = true → read value = none)
    {entries overlay : List (String × Toml)} (hoverlay : Ordered (table overlay))
    {key : String} {earlier later : Option α}
    (hearlier : setting? read (entries.lookup key) = some earlier)
    (hlater : setting? read (overlay.lookup key) = some later) (path : String) :
    setting? read ((mergeEntries path entries overlay).value.lookup key) =
      some (later.or earlier) := by
  rw [lookup_mergeEntries path (KeyedTable.nodup_map_fst hoverlay.1)]
  cases hcase : overlay.lookup key with
  | none =>
    rw [hcase] at hlater
    cases hlater
    exact hearlier
  | some value =>
    rw [hcase] at hlater
    obtain ⟨found, hfound, rfl⟩ := Option.map_eq_some_iff.mp hlater
    have hvalue : value.isTable = false := by
      refine Bool.eq_false_iff.mpr fun htable => ?_
      rw [hread htable] at hfound
      cases hfound
    change (read (mergeAt _ _ value)).map some = _
    rw [mergeAt_of_not_isTable hvalue, hfound]
    rfl

/-- A reader of tables reads a merged table as what it reads in both of them. -/
def MergesTables (read : Toml → Option α) (combine : α → α → α) : Prop :=
  ∀ (path : String) {entries overlay : List (String × Toml)} {earlier later : α},
    Ordered (table entries) → Ordered (table overlay) →
      read (table entries) = some earlier → read (table overlay) = some later →
        read (table (mergeEntries path entries overlay).value) =
          some (combine earlier later)

theorem setting?_mergeEntries_table {read : Toml → Option α} {combine : α → α → α}
    (hread : MergesTables read combine) {entries overlay : List (String × Toml)}
    (hentries : Ordered (table entries)) (hoverlay : Ordered (table overlay))
    {key : String} (hbase : (entries.lookup key).all isTable = true)
    (htable : (overlay.lookup key).all isTable = true) {earlier later : Option α}
    (hearlier : setting? read (entries.lookup key) = some earlier)
    (hlater : setting? read (overlay.lookup key) = some later) (path : String) :
    setting? read ((mergeEntries path entries overlay).value.lookup key) =
      some (Option.merge combine earlier later) := by
  rw [lookup_mergeEntries path (KeyedTable.nodup_map_fst hoverlay.1)]
  cases hvalue : overlay.lookup key with
  | none =>
    rw [hvalue] at hlater
    cases hlater
    rw [hearlier]
    cases earlier <;> rfl
  | some value =>
    have hvalueOrdered := hoverlay.lookup hvalue
    rw [hvalue] at hlater htable
    obtain ⟨found, hfound, rfl⟩ := Option.map_eq_some_iff.mp hlater
    cases hexisting : entries.lookup key with
    | none =>
      rw [hexisting] at hearlier
      cases hearlier
      exact hlater
    | some existing =>
      have hexistingOrdered := hentries.lookup hexisting
      rw [hexisting] at hearlier hbase
      obtain ⟨known, hknown, rfl⟩ := Option.map_eq_some_iff.mp hearlier
      cases existing with
      | table base =>
        cases value with
        | table others =>
          change (read (merge _ (table base) (table others)).value).map some = _
          rw [merge, hread _ hexistingOrdered hvalueOrdered hknown hfound]
          rfl
        | _ => cases htable
      | _ => cases hbase

/-! ## Tables of texts -/

theorem lookup_of_mapM_text? {entries : List (String × Toml)}
    {texts : List (String × String)}
    (htexts : (entries.mapM fun entry =>
      entry.2.text?.map fun value => (entry.1, value)) = some texts) :
    texts.map (·.1) = entries.map (·.1) ∧
      ∀ key, setting? text? (entries.lookup key) = some (texts.lookup key) := by
  induction entries generalizing texts with
  | nil =>
    cases htexts
    exact ⟨rfl, fun _ => rfl⟩
  | cons entry entries ih =>
    rw [List.mapM_cons] at htexts
    obtain ⟨first, hfirst, hrest⟩ := Option.bind_eq_some_iff.mp htexts
    obtain ⟨others, hothers, hcons⟩ := Option.bind_eq_some_iff.mp hrest
    obtain ⟨value, hvalue, rfl⟩ := Option.map_eq_some_iff.mp hfirst
    cases hcons
    obtain ⟨hkeys, hlookup⟩ := ih hothers
    refine ⟨congrArg (List.cons entry.1) hkeys, fun key => ?_⟩
    rw [KeyedTable.lookup_cons_eq_ite, KeyedTable.lookup_cons_eq_ite]
    by_cases heq : key = entry.1
    · rw [if_pos heq, if_pos heq, setting?, hvalue]
      rfl
    · rw [if_neg heq, if_neg heq]
      exact hlookup key

theorem exists_mapM_text? {entries : List (String × Toml)}
    (htexts : ∀ entry ∈ entries, ∃ value, entry.2.text? = some value) :
    ∃ texts, (entries.mapM fun entry =>
      entry.2.text?.map fun value => (entry.1, value)) = some texts := by
  induction entries with
  | nil => exact ⟨[], rfl⟩
  | cons entry entries ih =>
    obtain ⟨⟨value, hvalue⟩, hrest⟩ := List.forall_mem_cons.mp htexts
    obtain ⟨texts, hall⟩ := ih hrest
    refine ⟨(entry.1, value) :: texts, ?_⟩
    rw [List.mapM_cons, hvalue, hall]
    rfl

/-- A table of texts is read as the texts that its keys are set to. -/
theorem textTable?_eq_some_iff {entries : List (String × Toml)}
    (hordered : KeyOrdered entries) (texts : KeyedTable String) :
    textTable? (table entries) = some texts ↔
      ∀ key, setting? text? (entries.lookup key) = some (texts.get? key) := by
  have hdistinct := KeyedTable.nodup_map_fst hordered
  have hforward : ∀ {found}, textTable? (table entries) = some found →
      ∀ key, setting? text? (entries.lookup key) = some (found.get? key) := by
    intro found hfound key
    obtain ⟨list, hlist, hof⟩ := Option.bind_eq_some_iff.mp hfound
    cases hof
    obtain ⟨hkeys, hlookup⟩ := lookup_of_mapM_text? hlist
    rw [hlookup, KeyedTable.get?_ofList, KeyedTable.lookup_eq_of_perm
      (List.reverse_perm list).symm (hkeys ▸ hdistinct)]
  refine ⟨hforward, fun hlookup => ?_⟩
  obtain ⟨list, hlist⟩ := exists_mapM_text? fun entry hentry => by
    have hentryLookup := hlookup entry.1
    rw [(KeyedTable.lookup_eq_some_iff_mem hdistinct).mpr hentry] at hentryLookup
    obtain ⟨value, hvalue, -⟩ := Option.map_eq_some_iff.mp hentryLookup
    exact ⟨value, hvalue⟩
  have hfound : textTable? (table entries) = some (KeyedTable.ofList list) := by
    rw [textTable?, hlist]
    rfl
  rw [hfound, Option.some.injEq]
  ext1 key
  exact Option.some.inj ((hforward hfound key).symm.trans (hlookup key))

theorem mergesTables_textTable? : MergesTables textTable? KeyedTable.under := by
  intro path entries overlay earlier later hentries hoverlay hearlier hlater
  have hmerged : Ordered (table (mergeEntries path entries overlay).value) :=
    ordered_mergeEntries hentries hoverlay.2
  rw [textTable?_eq_some_iff hmerged.1]
  intro key
  rw [KeyedTable.get?_under]
  exact setting?_mergeEntries text?_of_isTable hoverlay
    ((textTable?_eq_some_iff hentries.1 earlier).mp hearlier key)
    ((textTable?_eq_some_iff hoverlay.1 later).mp hlater key) path

theorem setting?_textTable?_isTable {found : Option Toml}
    {texts : Option (KeyedTable String)}
    (htexts : setting? textTable? found = some texts) :
    found.all isTable = true := by
  cases found with
  | none => rfl
  | some value =>
    obtain ⟨stages, hstages, -⟩ := Option.map_eq_some_iff.mp htexts
    exact isTable_of_textTable? hstages

end Toml

open Toml

/-! ## Sections -/

theorem EngineSection.ofToml?_table_eq_some_iff {entries : List (String × Toml)}
    {engine : EngineSection} :
    EngineSection.ofToml? (.table entries) = some engine ↔
      setting? natural? (entries.lookup "max_formula_length") =
          some engine.maxFormulaLength ∧
        setting? word32? (entries.lookup "score_decimals") =
          some engine.scoreDecimals ∧
        setting? text? (entries.lookup "log_level") = some engine.logLevel := by
  constructor
  · intro hengine
    obtain ⟨maxFormulaLength, hlength, hengine⟩ := Option.bind_eq_some_iff.mp hengine
    obtain ⟨scoreDecimals, hdecimals, hengine⟩ := Option.bind_eq_some_iff.mp hengine
    obtain ⟨logLevel, hlevel, hengine⟩ := Option.bind_eq_some_iff.mp hengine
    cases hengine
    exact ⟨hlength, hdecimals, hlevel⟩
  · rintro ⟨hlength, hdecimals, hlevel⟩
    rw [EngineSection.ofToml?, hlength, hdecimals, hlevel]
    rfl

theorem mergesTables_engineSection :
    MergesTables EngineSection.ofToml? EngineSection.under := by
  intro path entries overlay earlier later _ hoverlay hearlier hlater
  rw [EngineSection.ofToml?_table_eq_some_iff] at hearlier hlater ⊢
  obtain ⟨hlength, hdecimals, hlevel⟩ := hearlier
  obtain ⟨hlaterLength, hlaterDecimals, hlaterLevel⟩ := hlater
  refine ⟨?_, ?_, ?_⟩
  · exact setting?_mergeEntries natural?_of_isTable hoverlay hlength hlaterLength path
  · exact setting?_mergeEntries word32?_of_isTable hoverlay hdecimals hlaterDecimals
      path
  · exact setting?_mergeEntries text?_of_isTable hoverlay hlevel hlaterLevel path

theorem ProfilesSection.ofToml?_table_eq_some_iff {entries : List (String × Toml)}
    {profiles : ProfilesSection} :
    ProfilesSection.ofToml? (.table entries) = some profiles ↔
      setting? text? (entries.lookup "tournament") = some profiles.tournament ∧
        ∃ stages, setting? textTable? (entries.lookup "stages") = some stages ∧
          stages.getD .empty = profiles.stages := by
  constructor
  · intro hprofiles
    obtain ⟨tournament, htournament, hprofiles⟩ :=
      Option.bind_eq_some_iff.mp hprofiles
    obtain ⟨stages, hstages, hprofiles⟩ := Option.bind_eq_some_iff.mp hprofiles
    cases hprofiles
    exact ⟨htournament, stages, hstages, rfl⟩
  · rintro ⟨htournament, stages, hstages, hgetD⟩
    rw [ProfilesSection.ofToml?, htournament, hstages]
    change some (ProfilesSection.mk _ (stages.getD .empty)) = _
    rw [hgetD]

theorem getD_merge_under {α : Type} (earlier later : Option (KeyedTable α)) :
    (Option.merge KeyedTable.under earlier later).getD .empty =
      (earlier.getD .empty).under (later.getD .empty) := by
  cases earlier <;> cases later <;> ext1 key <;>
    simp [KeyedTable.get?_under, KeyedTable.get?_empty]

theorem mergesTables_profilesSection :
    MergesTables ProfilesSection.ofToml? ProfilesSection.under := by
  intro path entries overlay earlier later hentries hoverlay hearlier hlater
  rw [ProfilesSection.ofToml?_table_eq_some_iff] at hearlier hlater ⊢
  obtain ⟨htournament, stages, hstages, hgetD⟩ := hearlier
  obtain ⟨hlaterTournament, laterStages, hlaterStages, hlaterGetD⟩ := hlater
  refine ⟨?_, Option.merge KeyedTable.under stages laterStages, ?_, ?_⟩
  · exact setting?_mergeEntries text?_of_isTable hoverlay htournament
      hlaterTournament path
  · exact setting?_mergeEntries_table mergesTables_textTable? hentries hoverlay
      (setting?_textTable?_isTable hstages) (setting?_textTable?_isTable hlaterStages)
      hstages hlaterStages path
  · rw [getD_merge_under, hgetD, hlaterGetD]
    rfl

theorem Configuration.ofToml?_table_eq_some_iff {entries : List (String × Toml)}
    {configuration : Configuration} :
    Configuration.ofToml? (.table entries) = some configuration ↔
      setting? EngineSection.ofToml? (entries.lookup "engine") =
          some configuration.engine ∧
        setting? ProfilesSection.ofToml? (entries.lookup "profiles") =
          some configuration.profiles := by
  constructor
  · intro hconfiguration
    obtain ⟨engine, hengine, hconfiguration⟩ :=
      Option.bind_eq_some_iff.mp hconfiguration
    obtain ⟨profiles, hprofiles, hconfiguration⟩ :=
      Option.bind_eq_some_iff.mp hconfiguration
    cases hconfiguration
    exact ⟨hengine, hprofiles⟩
  · rintro ⟨hengine, hprofiles⟩
    rw [Configuration.ofToml?, hengine, hprofiles]
    rfl

end TournamentScoring
