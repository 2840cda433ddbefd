import TournamentScoring.CommandLine.Arguments
import TournamentScoring.Configuration.Loading
import TournamentScoring.Document.Loading
import TournamentScoring.Logging.Event
import TournamentScoring.Report.Markdown

/-!
# Running a command

A run ends in one of three ways: it fails and prints nothing but the error, it
evaluates a match side and prints one report, or it checks a profile and prints
what it found.  Events are collected beside the result, so the filter of the log
decides about the log alone.
-/

namespace TournamentScoring

/-- What a run takes from its environment. -/
structure Environment where
  home : Option String
  logFilter : Option String

/-- Why a run fails: the variants of `AppError` that reach `main`. -/
inductive RunError
  | rootNotFound (root : String)
  | configuration (cause : ConfigurationError)
  | logFilter (text : String)
  | noProfileAssigned (stage : String)
  | document (cause : LoadError)

def RunError.message (error : RunError) (wording : Wording := .unknown) : String :=
  match error with
  | rootNotFound root => pathNotFoundMessage root
  | configuration cause => cause.message wording
  | logFilter text =>
    wording.explain (.logFilter text)
      s!"telemetry error: invalid log level/filter '{text}'"
  | noProfileAssigned stage => noProfileAssignedMessage stage
  | document cause => cause.message wording

/-- What a run that does not fail has to show. -/
inductive Finding
  | evaluated (report : EvaluationReport) (format : ReportFormat)
  | checked (path : String) (profile : Profile) (issues : List Issue)

namespace Finding

/-- Whether the side was scored, or the profile has no issues. -/
def isAccepted : Finding → Bool
  | evaluated report _ => report.outcome.toBool
  | checked _ _ issues => issues.isEmpty

def checkText (path : String) (profile : Profile) : List Issue → String
  | [] =>
    s!"check: {path} v{profile.version.toNat} ok " ++
      s!"({profile.parts.length} parts, {profile.penalties.length} penalties)\n"
  | issues =>
    s!"check: {path} has {issues.length} issue(s)\n" ++
      String.join (issues.map fun issue => s!"- {issue.message}\n")

/-- What is printed. -/
def text : Finding → String
  | evaluated report format => report.render format ++ "\n"
  | checked path profile issues => checkText path profile issues

end Finding

/-- A result and the events on the way to it. -/
structure Course where
  events : List Event
  result : Except RunError Finding

/-! ## The commands -/

/-- The path of the chosen profile, from the option itself or by
`resolve_profile`, and the event of its choice. -/
def ProfileChoice.resolve (choice : ProfileChoice) (root : String)
    (configuration : Option Configuration) :
    Except RunError (String × List Event) :=
  match choice with
  | file path => .ok (path, [])
  | stage name =>
    match configuration.bind fun known => known.resolve? root name with
    | none => .error (.noProfileAssigned name)
    | some assignment =>
      .ok (assignment.path, [.resolvedProfile name assignment])

/-- The event that closes an evaluation. -/
def outcomeEvent : Except EvaluationFailure MatchScore → Event
  | .ok score => .scored score.score
  | .error failure => .notScored failure.errors.length

/-- Evaluates an input under a profile that was found at a path. -/
def evaluationCourse (path : String) (profile : Profile) (input : ScoreInput)
    (settings : EngineSettings) (format : ReportFormat) : Course :=
  let outcome := profile.scoreMatch input settings
  { events :=
      (profile.scoringEvents input settings).map Event.scoring ++
        [outcomeEvent outcome]
    result :=
      .ok (.evaluated (EvaluationReport.ofOutcome path profile outcome) format) }

section

variable {m : Type → Type} [Monad m]

/-- Loads the documents of an evaluation, the profile first. -/
def loadAndEvaluate (look : Lookup m) (profilePath inputPath : String)
    (settings : EngineSettings) (format : ReportFormat) : m Course := do
  match ← Profile.loadValid look profilePath with
  | .error cause => return ⟨[], .error (.document cause)⟩
  | .ok profile =>
    match ← ScoreInput.load look inputPath with
    | .error cause => return ⟨[], .error (.document cause)⟩
    | .ok input =>
      return evaluationCourse profilePath profile input settings format

def loadAndCheck (look : Lookup m) (path : String)
    (settings : EngineSettings) : m Course := do
  match ← Profile.load look path with
  | .error cause => return ⟨[], .error (.document cause)⟩
  | .ok profile =>
    return ⟨[],
      .ok (.checked path profile (profile.issues settings.maxFormulaLength))⟩

/-- Carries out a command under the configuration of its root. -/
def Command.execute (look : Lookup m) (root : String)
    (configuration : Option Configuration) (command : Command) : m Course := do
  let settings :=
    (configuration.map Configuration.engineSettings).getD EngineSettings.default
  match command with
  | .check path => loadAndCheck look path settings
  | .evaluate input choice format =>
    match choice.resolve root configuration with
    | .error cause => return ⟨[], .error cause⟩
    | .ok (path, events) =>
      let course ← loadAndEvaluate look path input settings format
      return ⟨events ++ course.events, course.result⟩

end

/-! ## A whole run -/

/-- What a run leaves behind: the log, and the result. -/
structure Response where
  log : List LogLine
  result : Except RunError Finding

namespace Response

/-- The exit code of `main`: 3 for an error, 2 for a side that is not scored or
a profile with issues. -/
def exitCode (response : Response) : Nat :=
  match response.result with
  | .error _ => 3
  | .ok finding => if finding.isAccepted then 0 else 2

/-- What is printed; a run that fails prints nothing. -/
def output (response : Response) : String :=
  match response.result with
  | .error _ => ""
  | .ok finding => finding.text

def errorText? (response : Response) (wording : Wording := .unknown) :
    Option String :=
  match response.result with
  | .error cause => some (cause.message wording)
  | .ok _ => none

/-- The response of a run that fails before its log is open. -/
def refusal (cause : RunError) : Response where
  log := []
  result := .error cause

end Response

section

variable {m : Type → Type} [Monad m]

/-- Runs a command once its configuration is known. -/
def Invocation.runWith (look : Lookup m) (environment : Environment)
    (invocation : Invocation) (layered : Option LayeredConfiguration)
    (readFilter : LogFilterReader) : m Response := do
  let configuration := layered.map (·.configuration)
  let overrides := (layered.map (·.overrides)).getD []
  let level := LogFilter.chosenLevel invocation.verbosity invocation.quiet
    (configuration.bind Configuration.logLevel)
  match LogFilter.choose readFilter environment.logFilter level with
  | none => return .refusal (.logFilter level)
  | some filter =>
    let course ←
      invocation.command.execute look invocation.root configuration
    let events := overrides.map Event.overriddenSetting ++ course.events
    return ⟨(events.map Event.line).filter filter.admits, course.result⟩

/-- Runs a command in the directory that it names as its root, `run` of the
program.  Filters are spelled by plain levels unless another reader is given. -/
def Invocation.run (look : Lookup m) (environment : Environment)
    (invocation : Invocation)
    (readFilter : LogFilterReader := LogFilter.ofPlainLevel?) : m Response := do
  if !(← look invocation.root).isPresent then
    return .refusal (.rootNotFound invocation.root)
  let globalPath := environment.home.map LayeredConfiguration.globalPath
  match ← LayeredConfiguration.load look invocation.root globalPath with
  | .error cause => return .refusal (.configuration cause)
  | .ok layered => invocation.runWith look environment layered readFilter

end

end TournamentScoring
