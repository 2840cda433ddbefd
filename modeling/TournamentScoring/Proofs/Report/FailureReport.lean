import TournamentScoring.Proofs.Scoring.FinalScore
import TournamentScoring.Proofs.Scoring.Messages
import TournamentScoring.Report.Markdown

/-!
# Reports of failures

The report of a failure has no line for a score, apart from what an input puts into
it: a penalty id that belongs to no rule is repeated as it is, with its line
breaks, and such an id can continue with a line of its own.
-/

namespace TournamentScoring

open TournamentScoring.Text

/-- How the line of a score begins. -/
def scoreLabel : List Char :=
  "Score:".toList

/-! ## The list of errors -/

/-- The lines of a list of errors that are not the beginnings of its items. -/
theorem hasLine_items_iff (errors : List ScoringError) :
    HasLine scoreLabel
        (String.join (errors.map fun error => s!"- {error.describe}\n")).toList ↔
      ∃ error ∈ errors, HasLaterLine scoreLabel error.describe.toList := by
  induction errors with
  | nil =>
    have hempty : ¬HasLine scoreLabel [] :=
      not_hasLine_of_not_prefix List.not_mem_nil (by decide)
    simpa using hempty
  | cons error rest ih =>
    have htext : (String.join ((error :: rest).map fun error =>
          s!"- {error.describe}\n")).toList =
        ("- ".toList ++ error.describe.toList) ++ '\n' ::
          (String.join (rest.map fun error =>
            s!"- {error.describe}\n")).toList := by
      have hbreak : (toString "\n").toList = ['\n'] := by decide
      rw [List.map_cons, String.join_cons]
      simp only [String.toList_append, hbreak, List.append_assoc,
        List.cons_append, List.nil_append]
      rfl
    have hitem : HasLine scoreLabel ("- ".toList ++ error.describe.toList) ↔
        HasLaterLine scoreLabel error.describe.toList := by
      refine hasLine_append_of_not_mem (by decide) (fun text hprefix => ?_) _
      exact absurd (List.cons_prefix_cons.mp hprefix).1 (by decide)
    rw [htext, hasLine_append_lineBreak, hitem, ih]
    simp

/-! ## The whole report -/

/-- The summary of a failure is one line or the only error. -/
theorem exists_hasLaterLine_of_message {failure : EvaluationFailure}
    (hline : HasLaterLine scoreLabel (failure.message.toList ++ [')'])) :
    ∃ error ∈ failure.errors, HasLaterLine scoreLabel error.describe.toList := by
  have hmessage : HasLaterLine scoreLabel failure.message.toList :=
    hasLaterLine_of_concat (by decide) (by decide) hline
  unfold EvaluationFailure.message at hmessage
  split at hmessage
  · rename_i error herrors
    exact ⟨error, herrors ▸ List.mem_singleton_self error, hmessage⟩
  · have hstart : IsOneLine "score input failed validation (" := by decide
    have hend : IsOneLine " errors)" := by decide
    have hsummary := (hstart.append
      (isOneLine_toString_nat failure.errors.length)).append hend
    exact absurd hmessage hsummary.not_hasLaterLine

theorem hasLine_failureMarkdown_iff (failure : EvaluationFailure) :
    HasLine scoreLabel failure.markdown.toList ↔
      ∃ error ∈ failure.errors, HasLaterLine scoreLabel error.describe.toList := by
  have htext : failure.markdown.toList =
      ("Status: not scored (".toList ++ (failure.message.toList ++ [')'])) ++
        '\n' :: ([] ++ '\n' :: ("## Errors".toList ++ '\n' :: ([] ++ '\n' ::
          (String.join (failure.errors.map fun error =>
            s!"- {error.describe}\n")).toList))) := by
    have hclose : (toString ")\n\n").toList = [')', '\n', '\n'] := by decide
    have hheading : "## Errors\n\n".toList =
        "## Errors".toList ++ ['\n', '\n'] := by decide
    unfold EvaluationFailure.markdown
    simp only [String.toList_append, hclose, hheading, List.append_assoc,
      List.cons_append, List.nil_append]
    rfl
  have hstatus : HasLine scoreLabel
      ("Status: not scored (".toList ++ (failure.message.toList ++ [')'])) ↔
        HasLaterLine scoreLabel (failure.message.toList ++ [')']) := by
    refine hasLine_append_of_not_mem (by decide) (fun text hprefix => ?_) _
    have hrest := (List.cons_prefix_cons.mp hprefix).2
    exact absurd (List.cons_prefix_cons.mp hrest).1 (by decide)
  have hempty : ¬HasLine scoreLabel [] :=
    not_hasLine_of_not_prefix List.not_mem_nil (by decide)
  have hheading : ¬HasLine scoreLabel "## Errors".toList :=
    not_hasLine_of_not_prefix (by decide) (by decide)
  rw [htext]
  simp only [hasLine_append_lineBreak, hstatus, hempty, hheading, false_or,
    hasLine_items_iff]
  exact or_iff_right_of_imp exists_hasLaterLine_of_message

theorem hasLine_toMarkdown_iff {path : String} (hpath : IsOneLine path)
    (profile : Profile) (failure : EvaluationFailure) :
    HasLine scoreLabel
        (EvaluationReport.ofOutcome path profile (.error failure)).toMarkdown.toList ↔
      ∃ error ∈ failure.errors, HasLaterLine scoreLabel error.describe.toList := by
  have hprofile : IsOneLine
      (s!"Profile: {path} (v{profile.version.toNat}, " ++
        s!"sha256 {profile.digest})") := by
    have hstart : IsOneLine "Profile: " := by decide
    have hversion : IsOneLine " (v" := by decide
    have hcomma : IsOneLine ", " := by decide
    have hdigest : IsOneLine "sha256 " := by decide
    have hend : IsOneLine ")" := by decide
    have hleft := (((hstart.append hpath).append hversion).append
      (isOneLine_toString_nat profile.version.toNat)).append hcomma
    exact hleft.append ((hdigest.append (isOneLine_digest _)).append hend)
  have htext :
      (EvaluationReport.ofOutcome path profile (.error failure)).toMarkdown.toList =
        "# Match Score".toList ++ '\n' :: ([] ++ '\n' ::
          ((s!"Profile: {path} (v{profile.version.toNat}, " ++
            s!"sha256 {profile.digest})").toList ++ '\n' :: ([] ++ '\n' ::
              failure.markdown.toList))) := by
    have hheading : "# Match Score\n\n".toList =
        "# Match Score".toList ++ ['\n', '\n'] := by decide
    have hend : (toString ")\n\n").toList =
        (toString ")").toList ++ ['\n', '\n'] := by decide
    unfold EvaluationReport.toMarkdown EvaluationReport.ofOutcome
    simp only [String.toList_append, hheading, hend, List.append_assoc,
      List.cons_append, List.nil_append]
  have hempty : ¬HasLine scoreLabel [] :=
    not_hasLine_of_not_prefix List.not_mem_nil (by decide)
  have hheading : ¬HasLine scoreLabel "# Match Score".toList :=
    not_hasLine_of_not_prefix (by decide) (by decide)
  have hprofileLine : ¬HasLine scoreLabel
      (s!"Profile: {path} (v{profile.version.toNat}, " ++
        s!"sha256 {profile.digest})").toList := by
    refine not_hasLine_of_not_prefix hprofile fun hprefix => ?_
    simp only [String.toList_append] at hprefix
    exact absurd (List.cons_prefix_cons.mp hprefix).1 (by decide)
  rw [htext]
  simp only [hasLine_append_lineBreak, hheading, hempty, hprofileLine, false_or,
    hasLine_failureMarkdown_iff]

/-! ## Unknown penalties -/

/-- The description of an unknown penalty goes on with the id as it is. -/
theorem hasLaterLine_unknownPenaltyId (id : String) :
    HasLaterLine scoreLabel (ScoringError.unknownPenaltyId id).describe.toList ↔
      HasLaterLine scoreLabel id.toList := by
  have htext : (ScoringError.unknownPenaltyId id).describe.toList =
      ("UnknownPenaltyId".toList ++ ": ".toList ++ "unknown penalty id: ".toList) ++
        id.toList := by
    change ("UnknownPenaltyId" ++ ": " ++ ("unknown penalty id: " ++ id)).toList = _
    simp only [String.toList_append, List.append_assoc]
  rw [htext, hasLaterLine_append_of_not_mem (by decide)]

theorem unknownPenaltyId_mem_inputErrors {profile : Profile} {input : ScoreInput}
    (id : String) (hid : id ∈ input.penalties.keys)
    (hnorule : id ∉ profile.penalties.map PenaltyRule.id) :
    ScoringError.unknownPenaltyId id ∈ profile.inputErrors input := by
  refine List.mem_append_right _ (List.mem_flatMap.mpr ⟨id, hid, ?_⟩)
  rw [occurrenceErrors, if_neg hnorule]
  exact List.mem_singleton_self _

/-- Among the errors of an input, only unknown penalties have later lines. -/
theorem exists_mem_inputErrors_hasLaterLine_iff {profile : Profile}
    (hvalid : profile.structureIssues = []) (input : ScoreInput) :
    (∃ error ∈ profile.inputErrors input,
        HasLaterLine scoreLabel error.describe.toList) ↔
      ∃ id ∈ input.penalties.keys, id ∉ profile.penalties.map PenaltyRule.id ∧
        HasLaterLine scoreLabel id.toList := by
  constructor
  · rintro ⟨error, herror, hline⟩
    rcases isOneLine_or_unknownPenaltyId hvalid herror with
      honeLine | ⟨id, hid, hnorule, rfl⟩
    · exact absurd hline honeLine.not_hasLaterLine
    · exact ⟨id, hid, hnorule, (hasLaterLine_unknownPenaltyId id).mp hline⟩
  · rintro ⟨id, hid, hnorule, hline⟩
    exact ⟨_, unknownPenaltyId_mem_inputErrors id hid hnorule,
      (hasLaterLine_unknownPenaltyId id).mpr hline⟩

/-- The report of a failed match has a line that begins like the line of a score
exactly if a penalty id of the input that belongs to no rule goes on with such a
line. -/
theorem failureReport_hasScoreLine_iff {profile : Profile} {input : ScoreInput}
    {settings : EngineSettings} {failure : EvaluationFailure} {path : String}
    (hvalid : profile.structureIssues = [])
    (hfailure : profile.scoreMatch input settings = .error failure)
    (hpath : IsOneLine path) :
    HasLine scoreLabel
        (EvaluationReport.ofOutcome path profile
          (profile.scoreMatch input settings)).toMarkdown.toList ↔
      ∃ id ∈ input.penalties.keys, id ∉ profile.penalties.map PenaltyRule.id ∧
        HasLaterLine scoreLabel id.toList := by
  rw [hfailure, hasLine_toMarkdown_iff hpath,
    ← exists_mem_inputErrors_hasLaterLine_iff hvalid]
  by_cases herrors : profile.inputErrors input = []
  · -- Only the formula can fail now, and what it says is one line.
    rw [scoreMatch_of_inputErrors_eq_nil profile input settings herrors]
      at hfailure
    cases hvalue : evaluateFormula profile.totalFormula (profile.symbols input)
        settings with
    | ok formulaValue =>
      rw [hvalue] at hfailure
      cases hfailure
    | error cause =>
      rw [hvalue] at hfailure
      obtain rfl := Except.error.inj hfailure
      have honeLine := isOneLine_of_evaluateFormula hvalue
      simp [herrors, honeLine.not_hasLaterLine]
  · rw [scoreMatch_of_inputErrors_ne_nil profile input settings herrors]
      at hfailure
    obtain rfl := Except.error.inj hfailure
    rfl

/-- An occurrence whose id belongs to no rule and has a second line. -/
def forgedInput : ScoreInput where
  values := KeyedTable.empty.insert "auto" (.number 1.0)
  penalties := KeyedTable.empty.insert "x\nScore: 100" 1
  cooperative := KeyedTable.empty

theorem unitProfile_failureReport_hasScoreLine :
    unitProfile.structureIssues = [] ∧ IsOneLine "profile.json" ∧
      ∃ failure,
        unitProfile.scoreMatch forgedInput EngineSettings.default =
          .error failure ∧
        HasLine scoreLabel
          (EvaluationReport.ofOutcome "profile.json" unitProfile
            (unitProfile.scoreMatch forgedInput
              EngineSettings.default)).toMarkdown.toList := by
  have hvalid : unitProfile.structureIssues = [] := by
    decide +kernel
  have hpath : IsOneLine "profile.json" := by
    decide
  have herrors : unitProfile.inputErrors forgedInput ≠ [] :=
    List.ne_nil_of_mem
      (unknownPenaltyId_mem_inputErrors "x\nScore: 100" (by decide) (by decide))
  have hfailure := scoreMatch_of_inputErrors_ne_nil unitProfile forgedInput
    EngineSettings.default herrors
  refine ⟨hvalid, hpath, _, hfailure, ?_⟩
  rw [failureReport_hasScoreLine_iff hvalid hfailure hpath]
  refine ⟨"x\nScore: 100", by decide, by decide, ?_⟩
  exact ⟨"Score: 100".toList, by decide, by decide⟩

end TournamentScoring
