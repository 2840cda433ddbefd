import TournamentScoring.Proofs.Scoring.Breakdown

/-!
# The order of the parts

Every part is judged on its own, and the formula looks parts up by their ids.  So
a profile whose ids are distinct scores alike in whatever order it lists its
parts: only the entries of the breakdown, or the errors, come out in that order.
-/

namespace TournamentScoring

/-! ## Failures -/

/-- The summary of a failure does not depend on the order of its errors. -/
theorem EvaluationFailure.message_eq_of_perm {failure other : EvaluationFailure}
    (hperm : failure.errors.Perm other.errors) : failure.message = other.message := by
  obtain ⟨errors⟩ := failure
  obtain ⟨others⟩ := other
  change errors.Perm others at hperm
  have hlength : errors.length = others.length := hperm.length_eq
  match errors with
  | [] =>
    rw [hperm.nil_eq]
  | [error] =>
    rw [List.singleton_perm.mp hperm]
  | first :: second :: rest =>
    -- Neither list has one error, so both messages count the errors.
    match others with
    | [] => simp at hlength
    | [_] => simp at hlength
    | _ :: _ :: _ => simp only [message, hlength]

theorem inputErrors_perm {profile : Profile} {parts : List Part}
    (hperm : parts.Perm profile.parts) (input : ScoreInput) :
    (Profile.inputErrors { profile with parts := parts } input).Perm
      (profile.inputErrors input) := by
  rw [Profile.inputErrors, Profile.inputErrors]
  apply List.Perm.append_right
  exact (hperm.flatMap_right _).append (hperm.flatMap_right _)

/-! ## Entries -/

/-- Where every part has an entry, parts and entries stand side by side. -/
theorem zip_entries {input : ScoreInput} {parts : List Part}
    (hentry : ∀ part ∈ parts, (part.entry? input).isSome = true) :
    parts.zip (parts.filterMap fun part => part.entry? input) =
      parts.filterMap fun part => (part.entry? input).map (Prod.mk part) := by
  induction parts with
  | nil => rfl
  | cons part rest ih =>
    obtain ⟨entry, hpart⟩ :=
      Option.isSome_iff_exists.mp (hentry part List.mem_cons_self)
    rw [List.filterMap_cons, List.filterMap_cons, hpart, Option.map_some,
      List.zip_cons_cons,
      ih fun other hother => hentry other (List.mem_cons_of_mem _ hother)]

theorem isSome_entry {profile : Profile} {input : ScoreInput}
    (herrors : profile.inputErrors input = []) {part : Part}
    (hpart : part ∈ profile.parts) : (part.entry? input).isSome = true := by
  obtain ⟨points, bonus, _, _, hentry⟩ := entry?_eq_some herrors hpart
  rw [hentry, Option.isSome_some]

/-! ## Symbols -/

/-- Entries with distinct ids mean the same in every order. -/
theorem symbolTable_eq_of_perm {entries others : List PartScore}
    (hperm : entries.Perm others) (hdistinct : (entries.map PartScore.id).Nodup)
    (totals : PenaltyTotals) :
    symbolTable entries totals = symbolTable others totals := by
  have hkeys : ((entries.map fun entry => (entry.id, entry.total)).map
      (·.1)).Nodup := by
    rw [List.map_map]
    exact hdistinct
  ext1 name
  rw [symbolTable, symbolTable, KeyedTable.get?_ofList_append,
    KeyedTable.get?_ofList_append, KeyedTable.ofList_eq_of_perm (hperm.map _) hkeys]

theorem symbols_eq_of_perm {profile : Profile} {parts : List Part}
    (hperm : parts.Perm profile.parts)
    (hdistinct : (profile.parts.map Part.id).Nodup) {input : ScoreInput}
    (herrors : profile.inputErrors input = []) :
    Profile.symbols { profile with parts := parts } input =
      profile.symbols input := by
  rw [← map_id_entries herrors] at hdistinct
  exact (symbolTable_eq_of_perm (hperm.symm.filterMap _) hdistinct _).symm

/-! ## The outcome -/

/-- Two scores that differ only in the order in which two lists of parts are
listed. -/
structure MatchScore.Reorders (parts others : List Part)
    (result other : MatchScore) : Prop where
  score_eq : result.score = other.score
  formulaValue_eq : result.breakdown.formulaValue = other.breakdown.formulaValue
  penalties_eq : result.breakdown.penalties = other.breakdown.penalties
  totals_eq : result.breakdown.penaltyTotals = other.breakdown.penaltyTotals
  length_eq : result.breakdown.parts.length = parts.length
  /-- Each part has the same entry in both breakdowns. -/
  entries_perm : (parts.zip result.breakdown.parts).Perm
    (others.zip other.breakdown.parts)

/-- Two failures that differ at most in the order of their errors, and not at all
where the formula failed. -/
structure EvaluationFailure.Reorders (failure other : EvaluationFailure) :
    Prop where
  errors_perm : failure.errors.Perm other.errors
  message_eq : failure.message = other.message
  formula_eq : (∃ error ∈ other.errors, error.kind ∈ formulaKinds) → failure = other

theorem breakdown_reorders {profile : Profile} {parts : List Part}
    (hperm : parts.Perm profile.parts) {input : ScoreInput}
    (herrors : profile.inputErrors input = []) (score formulaValue : Float) :
    MatchScore.Reorders parts profile.parts
      ⟨score, Profile.breakdown { profile with parts := parts } input formulaValue⟩
      ⟨score, profile.breakdown input formulaValue⟩ := by
  have hothers : Profile.inputErrors { profile with parts := parts } input = [] :=
    (herrors ▸ inputErrors_perm hperm input).eq_nil
  have hlength : (parts.filterMap fun part => part.entry? input).length =
      parts.length :=
    (forall₂_earns_breakdown hothers formulaValue).length_eq.symm
  refine ⟨rfl, rfl, rfl, rfl, hlength, ?_⟩
  change (parts.zip (parts.filterMap fun part => part.entry? input)).Perm
    (profile.parts.zip (profile.parts.filterMap fun part => part.entry? input))
  rw [zip_entries fun _ hpart => isSome_entry herrors hpart,
    zip_entries fun _ hpart => isSome_entry hothers hpart]
  exact hperm.filterMap _

/-- A profile with distinct ids gives one result in every order of its parts, up
to that order: the same score and the same figures, or the same errors. -/
theorem scoreMatch_of_reordered_parts (profile : Profile) {parts : List Part}
    (hperm : parts.Perm profile.parts)
    (hdistinct : (profile.parts.map Part.id).Nodup) (input : ScoreInput)
    (settings : EngineSettings) :
    (∃ result other,
      Profile.scoreMatch { profile with parts := parts } input settings = .ok result ∧
        profile.scoreMatch input settings = .ok other ∧
        MatchScore.Reorders parts profile.parts result other) ∨
      ∃ failure other,
        Profile.scoreMatch { profile with parts := parts } input settings =
            .error failure ∧
          profile.scoreMatch input settings = .error other ∧
          EvaluationFailure.Reorders failure other := by
  have herrorsPerm := inputErrors_perm hperm input
  by_cases herrors : profile.inputErrors input = []
  · have hothers : Profile.inputErrors { profile with parts := parts } input = [] :=
      (herrors ▸ herrorsPerm).eq_nil
    rw [scoreMatch_of_inputErrors_eq_nil _ _ _ herrors,
      scoreMatch_of_inputErrors_eq_nil _ _ _ hothers,
      symbols_eq_of_perm hperm hdistinct herrors]
    cases evaluateFormula profile.totalFormula (profile.symbols input) settings with
    | ok formulaValue =>
      exact Or.inl ⟨_, _, rfl, rfl, breakdown_reorders hperm herrors _ _⟩
    | error cause =>
      exact Or.inr ⟨_, _, rfl, rfl, List.Perm.refl _, rfl, fun _ => rfl⟩
  · have hothers : Profile.inputErrors { profile with parts := parts } input ≠ [] :=
      fun hnil => herrors (hnil ▸ herrorsPerm).nil_eq.symm
    rw [scoreMatch_of_inputErrors_ne_nil _ _ _ herrors,
      scoreMatch_of_inputErrors_ne_nil _ _ _ hothers]
    refine Or.inr ⟨_, _, rfl, rfl, herrorsPerm,
      EvaluationFailure.message_eq_of_perm herrorsPerm, ?_⟩
    rintro ⟨error, herror, hkind⟩
    exact absurd hkind (kind_not_mem_of_mem_inputErrors herror)

/-- The flag for pairs after a count with a cap. -/
def relayProfile : Profile where
  version := 1
  parts := [⟨"auto", "Auto", none, none, .number 0.1 (some 3)⟩, climbPart]
  penalties := [⟨"foul", "Foul", none, 5, .opponent, .subtract⟩]
  totalFormula := "climb + auto - NET_PENALTIES"
  notes := none

def relayInput : ScoreInput where
  values := (climbInput true).values.insert "auto" (.number 12.0)
  penalties := KeyedTable.empty.insert "foul" 1
  cooperative := (climbInput true).cooperative

theorem relayProfile_reversed :
    relayProfile.parts.reverse.Perm relayProfile.parts ∧
      (relayProfile.parts.map Part.id).Nodup ∧
      ∃ result other,
        Profile.scoreMatch { relayProfile with parts := relayProfile.parts.reverse }
            relayInput centSettings = .ok result ∧
          relayProfile.scoreMatch relayInput centSettings = .ok other ∧
          MatchScore.Reorders relayProfile.parts.reverse relayProfile.parts
            result other := by
  have hdistinct : (relayProfile.parts.map Part.id).Nodup := by
    decide
  have hperm := List.reverse_perm relayProfile.parts
  refine ⟨hperm, hdistinct, ?_⟩
  rcases scoreMatch_of_reordered_parts relayProfile hperm hdistinct relayInput
    centSettings with hscores | ⟨_, _, _, hfailure, _⟩
  · exact hscores
  · have herrors : relayProfile.inputErrors relayInput = [] := by
      rfl
    have hvalue : (evaluateFormula relayProfile.totalFormula
        (relayProfile.symbols relayInput) centSettings).toOption.isSome = true := by
      decide +kernel
    rw [scoreMatch_of_inputErrors_eq_nil _ _ _ herrors] at hfailure
    cases hcase : evaluateFormula relayProfile.totalFormula
        (relayProfile.symbols relayInput) centSettings with
    | ok formulaValue =>
      rw [hcase] at hfailure
      cases hfailure
    | error cause =>
      rw [hcase] at hvalue
      cases hvalue

end TournamentScoring
