import TournamentScoring.Proofs.Report.StructuredReport
import TournamentScoring.Report.Markdown

/-!
# What a printed report says

A report in JSON is read back.  A report in Markdown has the profile first, then either
the score with all figures of its breakdown or the status with all errors, each as it
is written on its own.
-/

namespace TournamentScoring

open Decimal Document

/-! ## Pieces of a text -/

namespace Text

/-- The pieces stand in the text one after the other. -/
inductive Shows : List String → String → Prop
  | nothing (text : String) : Shows [] text
  | piece (before first : String) {pieces : List String} {rest : String}
      (hrest : Shows pieces rest) : Shows (first :: pieces) (before ++ first ++ rest)

theorem shows_self (text : String) : Shows [text] text := by
  have hshows := Shows.piece "" text (.nothing "")
  rwa [String.empty_append, String.append_empty] at hshows

section

variable {pieces more : List String} {text rest : String}

theorem Shows.after (before : String) (hshows : Shows pieces text) :
    Shows pieces (before ++ text) := by
  cases hshows with
  | nothing => exact .nothing _
  | piece between first hrest =>
    rw [← String.append_assoc, ← String.append_assoc]
    exact .piece _ first hrest

theorem Shows.append (hshows : Shows pieces text) (hmore : Shows more rest) :
    Shows (pieces ++ more) (text ++ rest) := by
  induction hshows with
  | nothing text => exact hmore.after text
  | piece before first hrest ih =>
    rw [String.append_assoc]
    exact .piece before first ih

theorem Shows.before (hshows : Shows pieces text) (rest : String) :
    Shows pieces (text ++ rest) := by
  have happend := hshows.append (.nothing rest)
  rwa [List.append_nil] at happend

/-- A piece follows the ones before it. -/
theorem Shows.next (hshows : Shows pieces text) (between piece : String) :
    Shows (pieces ++ [piece]) (text ++ between ++ piece) :=
  (hshows.before between).append (shows_self piece)

end

/-- The pieces of each text stand in the texts together. -/
theorem shows_join {α : Type} {pieces : α → List String} {text : α → String}
    (hshows : ∀ value, Shows (pieces value) (text value)) (values : List α) :
    Shows (values.flatMap pieces) (String.join (values.map text)) := by
  induction values with
  | nil => exact .nothing _
  | cons value values ih =>
    rw [List.flatMap_cons, List.map_cons, String.join_cons]
    exact (hshows value).append ih

end Text

open Text

/-! ## What Markdown shows -/

def PartScore.pieces (score : PartScore) : List String :=
  [score.label, score.id, plainText score.points] ++
    match score.bonusScope with
    | some scope => [plainText score.bonus, scope.heading]
    | none => []

def PenaltyLine.pieces (line : PenaltyLine) : List String :=
  [line.id, toString line.count.toNat, line.target.heading, plainText line.contribution]

def PenaltyTotals.pieces (totals : PenaltyTotals) : List String :=
  [plainText totals.selfTotal, plainText totals.opponentTotal, plainText totals.net]

/-- The line of the score, and then every figure of its breakdown. -/
def MatchScore.pieces (score : MatchScore) : List String :=
  [s!"Score: {plainText score.score}\n\n"] ++
    score.breakdown.parts.flatMap PartScore.pieces ++
    score.breakdown.penalties.flatMap PenaltyLine.pieces ++
    score.breakdown.penaltyTotals.pieces ++ [plainText score.breakdown.formulaValue]

/-- The line of the status, and then an item for each error. -/
def EvaluationFailure.pieces (failure : EvaluationFailure) : List String :=
  s!"Status: not scored ({failure.message})\n\n" ::
    failure.errors.flatMap fun error => [s!"- {error.describe}\n"]

def EvaluationReport.pieces (report : EvaluationReport) : List String :=
  [report.profilePath, toString report.profileVersion.toNat, report.profileDigest] ++
    match report.outcome with
    | .ok score => score.pieces
    | .error failure => failure.pieces

theorem PartScore.shows_markdownLine (score : PartScore) :
    Shows score.pieces score.markdownLine := by
  obtain ⟨id, label, points, bonus, bonusScope⟩ := score
  have hpoints : Shows [label, id, plainText points]
      s!"- {label} ({id}): {plainText points}" :=
    (((shows_self label).after "- ").next " (" id).next "): " (plainText points)
  cases bonusScope with
  | none => exact hpoints.before "\n"
  | some scope =>
    exact ((hpoints.next " + " (plainText bonus)).next " bonus (" scope.heading).before ")\n"

theorem PenaltyLine.shows_markdownLine (line : PenaltyLine) :
    Shows line.pieces line.markdownLine := by
  have hcount : Shows [line.id, toString line.count.toNat, line.target.heading]
      s!"- {line.id} x{line.count.toNat} -> {line.target.heading}: " :=
    ((((shows_self line.id).after "- ").next " x" (toString line.count.toNat)).next " -> "
      line.target.heading).before ": "
  exact hcount.append ((shows_self (plainText line.contribution)).before "\n")

theorem shows_penaltiesMarkdown (lines : List PenaltyLine) :
    Shows (lines.flatMap PenaltyLine.pieces) (penaltiesMarkdown lines) := by
  cases lines with
  | nil => exact .nothing _
  | cons line lines => exact shows_join PenaltyLine.shows_markdownLine (line :: lines)

theorem PenaltyTotals.shows_markdown (totals : PenaltyTotals) :
    Shows totals.pieces totals.markdown := by
  have hline (start : String) (total : Float) :
      Shows [plainText total] (start ++ ": " ++ plainText total ++ "\n") :=
    ((shows_self (plainText total)).after (start ++ ": ")).before "\n"
  have hself := hline ("\n- " ++ selfPenaltiesName) totals.selfTotal
  have hopponent := hline ("- " ++ opponentPenaltiesName) totals.opponentTotal
  have hnet := hline ("- " ++ netPenaltiesName) totals.net
  exact (hself.append hopponent).append hnet

theorem MatchScore.shows_markdown (score : MatchScore) :
    Shows score.pieces score.markdown := by
  have hscore := shows_self s!"Score: {plainText score.score}\n\n"
  have hparts := shows_join PartScore.shows_markdownLine score.breakdown.parts
  have hpenalties := shows_penaltiesMarkdown score.breakdown.penalties
  have htotals := score.breakdown.penaltyTotals.shows_markdown
  have hvalue := ((shows_self (plainText score.breakdown.formulaValue)).after
    "\nFormula value: ").before "\n"
  exact (((((hscore.before "## Parts\n\n").append hparts).before
    "\n## Penalties\n\n").append hpenalties).append htotals).append hvalue

theorem EvaluationFailure.shows_markdown (failure : EvaluationFailure) :
    Shows failure.pieces failure.markdown := by
  have hstatus := shows_self s!"Status: not scored ({failure.message})\n\n"
  have herrors := shows_join (fun error => shows_self s!"- {error.describe}\n") failure.errors
  exact (hstatus.before "## Errors\n\n").append herrors

/-! ## Both formats -/

namespace EvaluationReport

theorem shows_toMarkdown (report : EvaluationReport) :
    Shows report.pieces report.toMarkdown := by
  obtain ⟨path, version, digest, outcome⟩ := report
  have hpath : Shows [path, toString version.toNat]
      ("# Match Score\n\n" ++ s!"Profile: {path} (v{version.toNat}, ") :=
    ((((shows_self path).after "Profile: ").next " (v" (toString version.toNat)).before
      ", ").after "# Match Score\n\n"
  have hdigest : Shows [digest] s!"sha256 {digest})\n\n" :=
    ((shows_self digest).after "sha256 ").before ")\n\n"
  have hprofile := hpath.append hdigest
  cases outcome with
  | ok score => exact hprofile.append score.shows_markdown
  | error failure => exact hprofile.append failure.shows_markdown

/-- What the text of a report says in a format. -/
def IsRenderedAs (report : EvaluationReport) : ReportFormat → String → Prop
  | .json, text =>
    ∃ value, Decoder.whole.ofJsonText text = .ok value ∧ report.IsReadAs value
  | .markdown, text => Shows report.pieces text

theorem isRenderedAs_render (report : EvaluationReport) (format : ReportFormat) :
    report.IsRenderedAs format (report.render format) := by
  cases format with
  | json =>
    exact ⟨report.toJson.asWritten,
      Decoder.ofJsonText_pretty (report.writable_toJson.mono (by decide)),
      report.isReadAs_asWritten⟩
  | markdown => exact report.shows_toMarkdown

end EvaluationReport

end TournamentScoring
