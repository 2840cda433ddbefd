import TournamentScoring.Proofs.Document.Keeping
import TournamentScoring.Report.Structured

/-!
# Reports as JSON are read back

The JSON text of a report is read as one object.  Its keys tell a score from a
failure, and every text in it comes back as it was, whatever characters it has.  A figure
comes back as the reader of JSON reads its shortest digits.
-/

namespace TournamentScoring

open Document

namespace Json

/-- The keys of an object, in their order. -/
def keys : Json → List String
  | object members => members.map (·.1)
  | _ => []

/-- What an object has under a key. -/
def member? (key : String) : Json → Option Json
  | object members => members.lookup key
  | _ => none

/-- The figure stands under the key as its digits are read: as the figure itself where its
shortest digits read back, bit by bit, and as null where it is not finite. -/
structure HasFigure (value : Json) (key : String) (figure : Float) : Prop where
  member : value.member? key = some (.ofFloat figure)
  unchanged : figure.isFinite = true → ReadsBack figure →
    value.member? key = some (.float figure)
  absent : figure.isFinite = false → value.member? key = some .null

theorem hasFigure_of_member? {value : Json} {key : String} {figure : Float}
    (hmember : value.member? key = some (.ofFloat figure)) : value.HasFigure key figure where
  member := hmember
  unchanged := by
    intro hfinite hback
    rw [hmember, ofFloat, if_pos hfinite, show reread figure = figure from hback]
  absent := by
    intro hfinite
    rw [hmember, ofFloat, if_neg (Bool.eq_false_iff.mp hfinite)]

end Json

/-! ## What is read back -/

structure PartScore.IsReadAs (score : PartScore) (value : Json) : Prop where
  keys_eq : value.keys =
    if score.bonusScope.isSome then ["bonus", "bonusScope", "id", "label", "points"]
    else ["bonus", "id", "label", "points"]
  bonus : value.HasFigure "bonus" score.bonus
  bonusScope : value.member? "bonusScope" =
    score.bonusScope.map fun scope => .text scope.name
  id : value.member? "id" = some (.text score.id)
  label : value.member? "label" = some (.text score.label)
  points : value.HasFigure "points" score.points

structure PenaltyLine.IsReadAs (line : PenaltyLine) (value : Json) : Prop where
  keys_eq : value.keys = ["contribution", "count", "id", "target"]
  contribution : value.HasFigure "contribution" line.contribution
  count : value.member? "count" = some (.word line.count)
  id : value.member? "id" = some (.text line.id)
  target : value.member? "target" = some (.text line.target.name)

structure PenaltyTotals.IsReadAs (totals : PenaltyTotals) (value : Json) : Prop where
  keys_eq : value.keys = [netPenaltiesName, opponentPenaltiesName, selfPenaltiesName]
  net : value.HasFigure netPenaltiesName totals.net
  opponentTotal : value.HasFigure opponentPenaltiesName totals.opponentTotal
  selfTotal : value.HasFigure selfPenaltiesName totals.selfTotal

/-- There is one item for each part and for each penalty line, in their order. -/
structure ScoreBreakdown.IsReadAs (breakdown : ScoreBreakdown) (value : Json) : Prop where
  keys_eq : value.keys = ["formulaValue", "parts", "penalties", "penaltyTotals"]
  formulaValue : value.HasFigure "formulaValue" breakdown.formulaValue
  parts : ∃ items, value.member? "parts" = some (.array items) ∧
    List.Forall₂ PartScore.IsReadAs breakdown.parts items
  penalties : ∃ items, value.member? "penalties" = some (.array items) ∧
    List.Forall₂ PenaltyLine.IsReadAs breakdown.penalties items
  penaltyTotals : ∃ totals, value.member? "penaltyTotals" = some totals ∧
    breakdown.penaltyTotals.IsReadAs totals

/-- There is one text for each error, in their order. -/
structure EvaluationFailure.IsReadAs (failure : EvaluationFailure) (value : Json) :
    Prop where
  keys_eq : value.keys = ["error", "errors", "profile"]
  error : value.member? "error" = some (.text failure.message)
  errors : value.member? "errors" =
    some (.array (failure.errors.map fun error => .text error.describe))

structure MatchScore.IsReadAs (score : MatchScore) (value : Json) : Prop where
  keys_eq : value.keys = ["breakdown", "profile", "score"]
  breakdown : ∃ breakdown, value.member? "breakdown" = some breakdown ∧
    score.breakdown.IsReadAs breakdown
  score : value.HasFigure "score" score.score

namespace EvaluationReport

structure ProfileIsReadAs (report : EvaluationReport) (value : Json) : Prop where
  keys_eq : value.keys = ["path", "sha256", "version"]
  path : value.member? "path" = some (.text report.profilePath)
  sha256 : value.member? "sha256" = some (.text report.profileDigest)
  version : value.member? "version" = some (.word report.profileVersion)

/-- The value is the object of a score or of a failure, with the profile in it. -/
structure IsReadAs (report : EvaluationReport) (value : Json) : Prop where
  outcome :
    match report.outcome with
    | .ok score => score.IsReadAs value
    | .error failure => failure.IsReadAs value
  profile : ∃ profile, value.member? "profile" = some profile ∧
    report.ProfileIsReadAs profile

end EvaluationReport

/-! ## What is written -/

open Json

theorem forall₂_itemsAsWritten {α : Type} {encode : α → Json} {related : α → Json → Prop}
    (hrelated : ∀ value, related value (encode value).asWritten) (values : List α) :
    List.Forall₂ related values (itemsAsWritten (values.map encode)) := by
  rw [itemsAsWritten_eq_map, List.map_map, List.forall₂_map_right_iff, List.forall₂_same]
  exact fun value _ => hrelated value

theorem PartScore.isReadAs_asWritten (score : PartScore) :
    score.IsReadAs score.toJson.asWritten := by
  obtain ⟨id, label, points, bonus, bonusScope⟩ := score
  cases bonusScope with
  | none => exact ⟨rfl, hasFigure_of_member? rfl, rfl, rfl, rfl, hasFigure_of_member? rfl⟩
  | some scope =>
    exact ⟨rfl, hasFigure_of_member? rfl, rfl, rfl, rfl, hasFigure_of_member? rfl⟩

theorem PenaltyLine.isReadAs_asWritten (line : PenaltyLine) :
    line.IsReadAs line.toJson.asWritten :=
  ⟨rfl, hasFigure_of_member? rfl, rfl, rfl, rfl⟩

theorem PenaltyTotals.isReadAs_asWritten (totals : PenaltyTotals) :
    totals.IsReadAs totals.toJson.asWritten :=
  ⟨rfl, hasFigure_of_member? rfl, hasFigure_of_member? rfl, hasFigure_of_member? rfl⟩

theorem ScoreBreakdown.isReadAs_asWritten (breakdown : ScoreBreakdown) :
    breakdown.IsReadAs breakdown.toJson.asWritten where
  keys_eq := rfl
  formulaValue := hasFigure_of_member? rfl
  parts := ⟨_, rfl, forall₂_itemsAsWritten PartScore.isReadAs_asWritten _⟩
  penalties := ⟨_, rfl, forall₂_itemsAsWritten PenaltyLine.isReadAs_asWritten _⟩
  penaltyTotals := ⟨_, rfl, breakdown.penaltyTotals.isReadAs_asWritten⟩

/-! ## What can be written -/

theorem PartScore.writable_toJson (score : PartScore) : score.toJson.Writable 1 := by
  obtain ⟨id, label, points, bonus, bonusScope⟩ := score
  cases bonusScope with
  | none =>
    refine writable_object ["bonus", "id", "label", "points"] rfl (by decide) ?_
    simp [optionalMember, writable_text, writable_float]
  | some scope =>
    refine writable_object ["bonus", "bonusScope", "id", "label", "points"] rfl
      (by decide) ?_
    simp [optionalMember, writable_text, writable_float]

theorem PenaltyLine.writable_toJson (line : PenaltyLine) : line.toJson.Writable 1 := by
  refine writable_object ["contribution", "count", "id", "target"] rfl (by decide) ?_
  simp [writable_text, writable_word, writable_float]

theorem PenaltyTotals.writable_toJson (totals : PenaltyTotals) :
    totals.toJson.Writable 2 := by
  refine writable_object [netPenaltiesName, opponentPenaltiesName, selfPenaltiesName] rfl
    (by decide) ?_
  simp [writable_float]

theorem ScoreBreakdown.writable_toJson (breakdown : ScoreBreakdown) :
    breakdown.toJson.Writable 3 := by
  have hparts : (Json.array (breakdown.parts.map PartScore.toJson)).Writable 2 :=
    writable_array (List.forall_mem_map.mpr fun score _ => score.writable_toJson)
  have hpenalties : (Json.array (breakdown.penalties.map PenaltyLine.toJson)).Writable 2 :=
    writable_array (List.forall_mem_map.mpr fun line _ => line.writable_toJson)
  have htotals := breakdown.penaltyTotals.writable_toJson
  refine writable_object ["formulaValue", "parts", "penalties", "penaltyTotals"] rfl
    (by decide) ?_
  simp [writable_float, hparts, hpenalties, htotals]

namespace EvaluationReport

theorem writable_profileJson (report : EvaluationReport) :
    report.profileJson.Writable 3 := by
  refine writable_object ["path", "sha256", "version"] rfl (by decide) ?_
  simp [writable_text, writable_word]

theorem writable_toJson (report : EvaluationReport) : report.toJson.Writable 4 := by
  have hprofile := report.writable_profileJson
  rw [toJson]
  cases report.outcome with
  | ok score =>
    have hbreakdown := score.breakdown.writable_toJson
    refine writable_object ["breakdown", "profile", "score"] rfl (by decide) ?_
    simp [writable_float, hbreakdown, hprofile]
  | error failure =>
    have herrors : (Json.array
        (failure.errors.map fun error => .text error.describe)).Writable 3 :=
      writable_array (List.forall_mem_map.mpr fun error _ => writable_text 2 _)
    refine writable_object ["error", "errors", "profile"] rfl (by decide) ?_
    simp [writable_text, herrors, hprofile]

theorem isReadAs_asWritten (report : EvaluationReport) :
    report.IsReadAs report.toJson.asWritten := by
  obtain ⟨path, version, digest, outcome⟩ := report
  cases outcome with
  | ok score =>
    refine ⟨⟨rfl, ⟨_, rfl, score.breakdown.isReadAs_asWritten⟩, hasFigure_of_member? rfl⟩,
      _, rfl, ?_⟩
    exact ⟨rfl, rfl, rfl, rfl⟩
  | error failure =>
    have herrors : itemsAsWritten (failure.errors.map fun error => .text error.describe) =
        failure.errors.map fun error => .text error.describe := by
      rw [itemsAsWritten_eq_map, List.map_map]
      rfl
    refine ⟨⟨rfl, rfl, congrArg (fun items => some (array items)) herrors⟩, _, rfl, ?_⟩
    exact ⟨rfl, rfl, rfl, rfl⟩

/-- The JSON text of a report is read as an object that tells a score from a failure by
its keys and that has every text, every part, every penalty line and every error of the
report.  A finite figure comes back bit by bit where its shortest digits read back, and a
figure that is not finite as null. -/
theorem toJsonText_is_read_back (report : EvaluationReport) :
    ∃ value, Decoder.whole.ofJsonText report.toJsonText = .ok value ∧
      report.IsReadAs value :=
  ⟨report.toJson.asWritten,
    Decoder.ofJsonText_pretty (report.writable_toJson.mono (by decide)),
    report.isReadAs_asWritten⟩

end EvaluationReport

end TournamentScoring
