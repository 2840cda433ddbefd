import TournamentScoring.Logging.Event
import TournamentScoring.Proofs.Scoring.Relevance

/-!
# What an evaluation warns about

A value that belongs to no part is ignored, and a warning names it.  A group that belongs to
no part is ignored too, but nothing says so: groups are only looked up by the ids of parts,
and no event of any severity depends on the others.  So the warnings name every ignored entry
just where each such group shares its id with a value.
-/

namespace TournamentScoring

/-- The part that a log line is about. -/
def LogLine.part? (line : LogLine) : Option String :=
  line.fields.lookup "part"

theorem filter_warn_of_debug {events : List ScoringEvent}
    (hdebug : ∀ event ∈ events, event.line.severity = .debug) :
    (events.map ScoringEvent.line).filter (fun line => line.severity = .warn) = [] := by
  rw [List.filter_eq_nil_iff]
  intro line hline
  obtain ⟨event, hevent, rfl⟩ := List.mem_map.mp hline
  rw [hdebug event hevent]
  exact Bool.false_ne_true

namespace Profile

/-- The log lines of an evaluation that are warnings. -/
def warnings (profile : Profile) (input : ScoreInput) (settings : EngineSettings) :
    List LogLine :=
  ((profile.scoringEvents input settings).map ScoringEvent.line).filter fun line =>
    line.severity = .warn

/-- The parts that the warnings name, in the order of the warnings. -/
def warnedParts (profile : Profile) (input : ScoreInput) (settings : EngineSettings) :
    List String :=
  (profile.warnings input settings).filterMap LogLine.part?

/-- The input has an entry under an id, a value or a group, and no part has this id. -/
def Ignores (profile : Profile) (input : ScoreInput) (id : String) : Prop :=
  (id ∈ input.values.keys ∨ id ∈ input.cooperative.keys) ∧ id ∉ profile.parts.map Part.id

/-! ## The warnings among the events -/

section

variable {profile : Profile} {input : ScoreInput} {settings : EngineSettings}

theorem severity_of_mem_closingEvents {event : ScoringEvent}
    (hevent : event ∈ profile.closingEvents input settings) :
    event.line.severity = .debug := by
  rw [closingEvents] at hevent
  -- The input is refused for its penalties or for its parts, or it reaches the formula.
  split at hevent
  · rw [List.mem_singleton.mp hevent]
    rfl
  · split at hevent
    · rw [List.mem_singleton.mp hevent]
      rfl
    · rcases List.mem_cons.mp hevent with rfl | hformula
      · rfl
      · split at hformula
        · rw [List.mem_singleton.mp hformula]
          rfl
        · cases hformula

/-- The ignored values are all that is warned about, however the scoring ends. -/
theorem warnings_eq (profile : Profile) (input : ScoreInput) (settings : EngineSettings) :
    profile.warnings input settings =
      (profile.ignoredValues input).map fun id => (ScoringEvent.ignoredValue id).line := by
  have hignored : ∀ line ∈ (profile.ignoredValues input).map fun id =>
      (ScoringEvent.ignoredValue id).line, decide (line.severity = .warn) = true := by
    intro line hline
    obtain ⟨id, -, rfl⟩ := List.mem_map.mp hline
    rfl
  have hscored : ∀ event ∈ (profile.partPass input).scores.map fun score =>
      ScoringEvent.scoredPart score.id score.points score.bonus,
      event.line.severity = .debug := by
    intro event hevent
    obtain ⟨score, -, rfl⟩ := List.mem_map.mp hevent
    rfl
  have hclosing : ∀ event ∈ profile.closingEvents input settings,
      event.line.severity = .debug :=
    fun _ hevent => severity_of_mem_closingEvents hevent
  rw [warnings, scoringEvents, List.map_append, List.map_append, List.filter_append,
    List.filter_append, filter_warn_of_debug hscored, filter_warn_of_debug hclosing,
    List.append_nil, List.append_nil, List.map_map]
  exact List.filter_eq_self.mpr hignored

theorem warnedParts_eq (profile : Profile) (input : ScoreInput) (settings : EngineSettings) :
    profile.warnedParts input settings = profile.ignoredValues input := by
  have hpart : LogLine.part? ∘ (fun id => (ScoringEvent.ignoredValue id).line) = some := by
    funext id
    rfl
  rw [warnedParts, warnings_eq, List.filterMap_map, hpart, List.filterMap_some]

theorem mem_ignoredValues_iff {id : String} :
    id ∈ profile.ignoredValues input ↔
      id ∈ input.values.keys ∧ id ∉ profile.parts.map Part.id := by
  have hdeclares : profile.declaresPart id = true ↔ id ∈ profile.parts.map Part.id := by
    rw [declaresPart, List.any_eq_true, List.mem_map]
    simp only [beq_iff_eq]
  rw [ignoredValues, List.mem_filter, Bool.not_eq_true', ← Bool.not_eq_true, hdeclares]

/-- Each ignored value is named once. -/
theorem pairwise_ignoredValues (profile : Profile) (input : ScoreInput) :
    (profile.ignoredValues input).Pairwise (· < ·) :=
  input.values.pairwise_keys.filter _

end

/-! ## Events and what an evaluation looks at -/

namespace Equates

variable {profile : Profile} {input other : ScoreInput}

/-- Groups may differ where no part has their id. -/
theorem of_groups {groups : KeyedTable (List RawValue)}
    (hgroups : ∀ id ∈ profile.parts.map Part.id,
      groups.get? id = input.cooperative.get? id) :
    profile.Equates { input with cooperative := groups } input :=
  { refl profile input with
    group_eq := fun part hpart _ => hgroups part.id (List.mem_map_of_mem hpart) }

theorem partPass_eq (hequates : profile.Equates input other) :
    profile.partPass input = profile.partPass other := by
  rw [TournamentScoring.partPass_eq, TournamentScoring.partPass_eq,
    hequates.filterMap_entry?_eq,
    List.flatMap_congr fun _ hpart => hequates.missingErrors_eq hpart,
    List.flatMap_congr fun _ hpart => hequates.faults_eq hpart]

theorem aggregatePenalties_eq (hequates : profile.Equates input other) :
    aggregatePenalties profile.penalties input.penalties =
      aggregatePenalties profile.penalties other.penalties := by
  rw [aggregatePenalties, aggregatePenalties, unknownPenalties_eq, unknownPenalties_eq,
    hequates.flatMap_occurrenceErrors_eq, hequates.lines_eq]

theorem closingEvents_eq (hequates : profile.Equates input other)
    (settings : EngineSettings) :
    profile.closingEvents input settings = profile.closingEvents other settings := by
  rw [closingEvents, closingEvents, scoreMatch, scoreMatch, hequates.partPass_eq,
    hequates.aggregatePenalties_eq]

/-- Inputs that a profile equates differ in the warnings at most. -/
theorem scoringEvents_eq (hequates : profile.Equates input other)
    (hvalues : input.values.keys = other.values.keys) (settings : EngineSettings) :
    profile.scoringEvents input settings = profile.scoringEvents other settings := by
  rw [scoringEvents, scoringEvents, ignoredValues, ignoredValues, hvalues,
    hequates.partPass_eq, hequates.closingEvents_eq]

end Equates

end Profile

/-- The warnings of an evaluation, however it ends, name the values that belong to no part,
once each and in order.  They name every ignored entry just where each group that belongs to
no part shares its id with a value; elsewhere such a group goes unnoticed, for no event of any
severity depends on it. -/
theorem warnings_name_ignored_values (profile : Profile) (input : ScoreInput)
    (settings : EngineSettings) :
    (∀ line ∈ profile.warnings input settings, ∃ id,
      line = ⟨.warn, "ignoring score input for undeclared part", [("part", id)]⟩) ∧
    (profile.warnedParts input settings).Pairwise (· < ·) ∧
    (∀ id, id ∈ profile.warnedParts input settings ↔
      id ∈ input.values.keys ∧ id ∉ profile.parts.map Part.id) ∧
    ((∀ id, id ∈ profile.warnedParts input settings ↔ profile.Ignores input id) ↔
      ∀ id ∈ input.cooperative.keys, id ∉ profile.parts.map Part.id →
        id ∈ input.values.keys) ∧
    ∀ groups : KeyedTable (List RawValue),
      (∀ id ∈ profile.parts.map Part.id, groups.get? id = input.cooperative.get? id) →
        profile.scoringEvents { input with cooperative := groups } settings =
          profile.scoringEvents input settings := by
  have hmem : ∀ id, id ∈ profile.warnedParts input settings ↔
      id ∈ input.values.keys ∧ id ∉ profile.parts.map Part.id := by
    intro id
    rw [Profile.warnedParts_eq, Profile.mem_ignoredValues_iff]
  refine ⟨?_, ?_, hmem, ?_, ?_⟩
  · intro line hline
    rw [Profile.warnings_eq] at hline
    obtain ⟨id, -, rfl⟩ := List.mem_map.mp hline
    exact ⟨id, rfl⟩
  · rw [Profile.warnedParts_eq]
    exact profile.pairwise_ignoredValues input
  · constructor
    · intro hnamed id hgroup hundeclared
      have hwarned := (hnamed id).mpr ⟨.inr hgroup, hundeclared⟩
      exact ((hmem id).mp hwarned).1
    · intro hshared id
      rw [hmem, Profile.Ignores]
      refine and_congr_left fun hundeclared => ⟨.inl, ?_⟩
      rintro (hvalue | hgroup)
      · exact hvalue
      · exact hshared id hgroup hundeclared
  · intro groups hgroups
    exact (Profile.Equates.of_groups hgroups).scoringEvents_eq rfl settings

/-- A pair that climbed, with a value for a part of another season and a misspelt group. -/
def misspeltInput : ScoreInput where
  values := (climbInput true).values.insert "park" (.number 1.0)
  penalties := KeyedTable.empty
  cooperative := (climbInput true).cooperative.insert "clmib" [.flag true, .flag true]

theorem climbProfile_ignores_clmib : climbProfile.Ignores misspeltInput "clmib" := by
  refine ⟨.inr ?_, by decide⟩
  rw [misspeltInput, KeyedTable.mem_keys_insert]
  exact .inl rfl

/-- The value is warned about and the group is not, and without the group the events are the
same. -/
theorem misspeltInput_warnings :
    climbProfile.structureIssues = [] ∧
      "park" ∈ climbProfile.warnedParts misspeltInput EngineSettings.default ∧
      climbProfile.Ignores misspeltInput "clmib" ∧
      "clmib" ∉ climbProfile.warnedParts misspeltInput EngineSettings.default ∧
      climbProfile.scoringEvents
          { misspeltInput with cooperative := (climbInput true).cooperative }
          EngineSettings.default =
        climbProfile.scoringEvents misspeltInput EngineSettings.default := by
  obtain ⟨-, -, hmem, -, hevents⟩ :=
    warnings_name_ignored_values climbProfile misspeltInput EngineSettings.default
  refine ⟨by decide +kernel, (hmem _).mpr ⟨by decide, by decide⟩,
    climbProfile_ignores_clmib, ?_, hevents _ ?_⟩
  · intro hwarned
    exact absurd ((hmem _).mp hwarned).1 (by decide)
  · intro id hid
    obtain rfl : id = "climb" := List.mem_singleton.mp hid
    rfl

/-- A misspelt group of a sound profile is not warned about. -/
theorem ignored_group_without_warning :
    ¬∀ (profile : Profile) (input : ScoreInput) (settings : EngineSettings),
      profile.structureIssues = [] →
        ∀ id, id ∈ profile.warnedParts input settings ↔ profile.Ignores input id := by
  intro hclaim
  have hwarned := (hclaim climbProfile misspeltInput EngineSettings.default
    (by decide +kernel) "clmib").mpr climbProfile_ignores_clmib
  rw [Profile.warnedParts_eq, Profile.mem_ignoredValues_iff] at hwarned
  exact absurd hwarned.1 (by decide)

end TournamentScoring
