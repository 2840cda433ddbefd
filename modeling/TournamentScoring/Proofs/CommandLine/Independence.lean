import TournamentScoring.Proofs.CommandLine.Outcome
import TournamentScoring.Proofs.Configuration.Layering
import TournamentScoring.Proofs.Document.Ignoring

/-!
# What a result does not depend on

A command sees of the configuration what it needs for scoring and for choosing a profile,
and of the files those that it reads.  The level of the log is not among this, so however
it is chosen, runs that get as far as their command show the same.  A stage only chooses a
path, and whoever names this path gets the same result.

Who takes a configuration for a document may see its level, as the libraries quote a text
that they refuse.  Nothing else depends on it.
-/

namespace TournamentScoring

open Document

/-! ## Configurations -/

namespace Configuration

/-- Every setting is the same, apart from the level of the log. -/
structure AgreesApartFromLogLevel (configuration other : Configuration) : Prop where
  maxFormulaLength_eq : configuration.maxFormulaLength = other.maxFormulaLength
  scoreDecimals_eq : configuration.scoreDecimals = other.scoreDecimals
  tournament_eq : configuration.tournament = other.tournament
  stagePath_eq : ∀ stage, configuration.stagePath stage = other.stagePath stage

theorem engineSettings_eq (configuration : Configuration) :
    configuration.engineSettings =
      ⟨configuration.maxFormulaLength.getD EngineSettings.default.maxFormulaLength,
        configuration.scoreDecimals⟩ := by
  obtain ⟨engine, profiles⟩ := configuration
  cases engine <;> rfl

theorem AgreesApartFromLogLevel.engineSettings {configuration other : Configuration}
    (hagrees : configuration.AgreesApartFromLogLevel other) :
    configuration.engineSettings = other.engineSettings := by
  rw [engineSettings_eq, engineSettings_eq, hagrees.maxFormulaLength_eq,
    hagrees.scoreDecimals_eq]

theorem AgreesApartFromLogLevel.resolve? {configuration other : Configuration}
    (hagrees : configuration.AgreesApartFromLogLevel other) (root stage : String) :
    configuration.resolve? root stage = other.resolve? root stage := by
  rw [Configuration.resolve?, Configuration.resolve?, assignment?_eq, assignment?_eq,
    hagrees.stagePath_eq, hagrees.tournament_eq]

end Configuration

/-- Without a configuration nothing is set. -/
def Configuration.orBlank (configuration : Option Configuration) : Configuration :=
  configuration.getD .blank

open TournamentScoring.Configuration (orBlank)

theorem settingsUnder_eq (configuration : Option Configuration) :
    settingsUnder configuration = (orBlank configuration).engineSettings := by
  cases configuration <;> rfl

theorem bind_resolve?_eq (configuration : Option Configuration) (root stage : String) :
    (configuration.bind fun known => known.resolve? root stage) =
      (orBlank configuration).resolve? root stage := by
  cases configuration <;> rfl

/-! ## Commands -/

theorem ProfileChoice.names_of_resolve_eq_ok {root path : String}
    {configuration : Option Configuration} {choice : ProfileChoice} {events : List Event}
    (hresolve : choice.resolve root configuration = .ok (path, events)) :
    choice.Names root configuration path := by
  cases choice with
  | file given =>
    obtain ⟨rfl, -⟩ := Prod.mk.inj (Except.ok.inj hresolve)
    exact .file given
  | stage name =>
    cases hassigned : configuration.bind fun known => known.resolve? root name with
    | none =>
      rw [resolve, hassigned] at hresolve
      cases hresolve
    | some assignment =>
      rw [resolve, hassigned] at hresolve
      obtain ⟨rfl, -⟩ := Prod.mk.inj (Except.ok.inj hresolve)
      exact .stage hassigned

/-- The documents that a command reads. -/
inductive Command.Reads (root : String) (configuration : Option Configuration) :
    Command → String → Prop
  | profile {inputPath path : String} {choice : ProfileChoice} {format : ReportFormat}
      (hpath : choice.Names root configuration path) :
      Reads root configuration (.evaluate inputPath choice format) path
  | input (inputPath : String) (choice : ProfileChoice) (format : ReportFormat) :
      Reads root configuration (.evaluate inputPath choice format) inputPath
  | checked (path : String) : Reads root configuration (.check path) path

section

variable {root : String} {configuration otherConfiguration : Option Configuration}
  {look other : Lookup Id}

theorem ProfileChoice.Names.of_agrees {choice : ProfileChoice} {path : String}
    (hpath : choice.Names root configuration path)
    (hagrees : (orBlank configuration).AgreesApartFromLogLevel
      (orBlank otherConfiguration)) :
    choice.Names root otherConfiguration path := by
  cases hpath with
  | file => exact .file path
  | stage hassigned =>
    refine .stage ?_
    rw [bind_resolve?_eq, ← hagrees.resolve?, ← bind_resolve?_eq]
    exact hassigned

/-- Outcomes that are seen alike are the same value, or errors that are seen alike. -/
theorem mapError_eq_cases {ε δ α : Type} {view : ε → δ} {left right : Except ε α}
    (hview : left.mapError view = right.mapError view) :
    (∃ value, left = .ok value ∧ right = .ok value) ∨
      ∃ cause otherCause, left = .error cause ∧ right = .error otherCause ∧
        view cause = view otherCause := by
  cases left with
  | ok value =>
    cases right with
    | ok other =>
      obtain rfl : value = other := Except.ok.inj hview
      exact .inl ⟨value, rfl, rfl⟩
    | error => cases hview
  | error cause =>
    cases right with
    | ok => cases hview
    | error other => exact .inr ⟨cause, other, rfl, rfl, Except.error.inj hview⟩

/-- An error, with the errors of documents as they are seen. -/
def RunError.mapDocument (view : LoadError → LoadError) : RunError → RunError
  | document cause => .document (view cause)
  | error => error

section

variable {view : LoadError → LoadError}

theorem RunError.mapDocument_congr {cause otherCause : LoadError}
    (hsame : view cause = view otherCause) :
    (document cause).mapDocument view = (document otherCause).mapDocument view :=
  congrArg document hsame

theorem loadAndEvaluate_congr {profilePath inputPath : String}
    (hprofile : (decodeEntry .profile Profile.decoder profilePath
        (look profilePath)).mapError view =
      (decodeEntry .profile Profile.decoder profilePath (other profilePath)).mapError view)
    (hinput : (decodeEntry .input ScoreInput.decoder inputPath
        (look inputPath)).mapError view =
      (decodeEntry .input ScoreInput.decoder inputPath (other inputPath)).mapError view)
    (settings : EngineSettings) (format : ReportFormat) :
    (Id.run (loadAndEvaluate look profilePath inputPath settings format)).result.mapError
        (RunError.mapDocument view) =
      (Id.run (loadAndEvaluate other profilePath inputPath settings format)).result.mapError
        (RunError.mapDocument view) := by
  rcases mapError_eq_cases hprofile with
    ⟨profile, hleft, hright⟩ | ⟨cause, otherCause, hleft, hright, hsame⟩
  · by_cases hvalid : profile.structureIssues = []
    · rw [loadAndEvaluate_of_profile_ok (Profile.loadValid_of_valid hleft hvalid),
        loadAndEvaluate_of_profile_ok (Profile.loadValid_of_valid hright hvalid)]
      rcases mapError_eq_cases hinput with
        ⟨input, hleft, hright⟩ | ⟨cause, otherCause, hleft, hright, hsame⟩
      · rw [hleft, hright]
      · rw [hleft, hright]
        exact congrArg Except.error (RunError.mapDocument_congr hsame)
    · rw [loadAndEvaluate_of_profile_error (Profile.loadValid_of_invalid hleft hvalid),
        loadAndEvaluate_of_profile_error (Profile.loadValid_of_invalid hright hvalid)]
  · rw [loadAndEvaluate_of_profile_error (Profile.loadValid_of_error hleft),
      loadAndEvaluate_of_profile_error (Profile.loadValid_of_error hright)]
    exact congrArg Except.error (RunError.mapDocument_congr hsame)

/-- A command leads to the same result where the documents that it reads are seen alike,
whatever the level of the log is. -/
theorem Command.result_congr {command : Command}
    (hprofiles : ∀ path, command.Reads root configuration path →
      (decodeEntry .profile Profile.decoder path (look path)).mapError view =
        (decodeEntry .profile Profile.decoder path (other path)).mapError view)
    (hinputs : ∀ path, command.Reads root configuration path →
      (decodeEntry .input ScoreInput.decoder path (look path)).mapError view =
        (decodeEntry .input ScoreInput.decoder path (other path)).mapError view)
    (hagrees : (orBlank configuration).AgreesApartFromLogLevel
      (orBlank otherConfiguration)) :
    (command.result look root configuration).mapError (RunError.mapDocument view) =
      (command.result other root otherConfiguration).mapError
        (RunError.mapDocument view) := by
  have hsettings : settingsUnder configuration = settingsUnder otherConfiguration := by
    rw [settingsUnder_eq, settingsUnder_eq, hagrees.engineSettings]
  cases command with
  | check path =>
    rw [result_check, result_check, hsettings]
    rcases mapError_eq_cases (hprofiles path (.checked path)) with
      ⟨profile, hleft, hright⟩ | ⟨cause, otherCause, hleft, hright, hsame⟩
    · rw [hleft, hright]
    · rw [hleft, hright]
      exact congrArg Except.error (RunError.mapDocument_congr hsame)
  | evaluate inputPath choice format =>
    rcases choice.names_or_unassigned root configuration with
      ⟨path, hpath⟩ | ⟨name, rfl, hunassigned⟩
    · rw [result_evaluate hpath, result_evaluate (hpath.of_agrees hagrees), hsettings]
      exact loadAndEvaluate_congr (hprofiles path (.profile hpath))
        (hinputs inputPath (.input inputPath choice format)) _ format
    · have hotherUnassigned :
          (otherConfiguration.bind fun known => known.resolve? root name) = none := by
        rw [bind_resolve?_eq, ← hagrees.resolve?, ← bind_resolve?_eq]
        exact hunassigned
      rw [(Fails.unassigned hunassigned).result_eq,
        (Fails.unassigned hotherUnassigned).result_eq]

end

end

/-! ## Runs -/

/-- What can be seen of two runs is the same, apart from their logs, when the libraries
word their refusals in this way. -/
structure Response.ShowsSame (wording : Wording) (response other : Response) : Prop where
  output_eq : response.output = other.output
  exitCode_eq : response.exitCode = other.exitCode
  errorText_eq : response.errorText? wording = other.errorText? wording

theorem Response.showsSame_of_result_eq {response other : Response}
    (hresult : response.result = other.result) (wording : Wording) :
    response.ShowsSame wording other := by
  constructor
  · rw [output, output, hresult]
  · rw [exitCode, exitCode, hresult]
  · rw [errorText?, errorText?, hresult]

theorem RunError.message_mapDocument {view : LoadError → LoadError} {wording : Wording}
    (hview : ∀ cause, (view cause).message wording = cause.message wording)
    (error : RunError) : (error.mapDocument view).message wording = error.message wording := by
  cases error with
  | document cause => exact hview cause
  | _ => rfl

/-- A view that keeps the messages of errors loses nothing that can be seen. -/
theorem Response.showsSame_of_mapError_eq {response other : Response}
    (view : LoadError → LoadError) {wording : Wording}
    (hview : ∀ cause, (view cause).message wording = cause.message wording)
    (hresult : response.result.mapError (RunError.mapDocument view) =
      other.result.mapError (RunError.mapDocument view)) :
    response.ShowsSame wording other := by
  rcases mapError_eq_cases hresult with
    ⟨finding, hleft, hright⟩ | ⟨cause, otherCause, hleft, hright, hsame⟩
  · exact showsSame_of_result_eq (hleft.trans hright.symm) wording
  · have hmessage : cause.message wording = otherCause.message wording := by
      rw [← RunError.message_mapDocument hview cause, hsame,
        RunError.message_mapDocument hview otherCause]
    constructor
    · rw [output, output, hleft, hright]
    · rw [exitCode, exitCode, hleft, hright]
    · rw [errorText?, errorText?, hleft, hright]
      exact congrArg some hmessage

namespace Invocation

/-- The settings of a run, whether it has a configuration or not. -/
def merged (layered : Option LayeredConfiguration) : Configuration :=
  orBlank (layered.map (·.configuration))

section

variable {look other : Lookup Id} {environment otherEnvironment : Environment}
  {readFilter : LogFilterReader} {invocation otherInvocation : Invocation}
  {layered otherLayered : Option LayeredConfiguration} {filter otherFilter : LogFilter}

/-- Runs of one command that open their logs lead to the same, however they chose the level
of the log, where their documents are seen alike. -/
theorem Starts.mapError_result_eq {view : LoadError → LoadError}
    (hstarts : invocation.Starts look environment readFilter layered filter)
    (hother : otherInvocation.Starts other otherEnvironment readFilter otherLayered
      otherFilter)
    (hroot : invocation.root = otherInvocation.root)
    (hcommand : invocation.command = otherInvocation.command)
    (hagrees : (merged layered).AgreesApartFromLogLevel (merged otherLayered))
    (hprofiles : ∀ path, invocation.command.Reads invocation.root
        (layered.map (·.configuration)) path →
      (decodeEntry .profile Profile.decoder path (look path)).mapError view =
        (decodeEntry .profile Profile.decoder path (other path)).mapError view)
    (hinputs : ∀ path, invocation.command.Reads invocation.root
        (layered.map (·.configuration)) path →
      (decodeEntry .input ScoreInput.decoder path (look path)).mapError view =
        (decodeEntry .input ScoreInput.decoder path (other path)).mapError view) :
    (invocation.response look environment readFilter).result.mapError
        (RunError.mapDocument view) =
      (otherInvocation.response other otherEnvironment readFilter).result.mapError
        (RunError.mapDocument view) := by
  rw [hstarts.result_eq, hother.result_eq, ← hroot, ← hcommand]
  exact Command.result_congr hprofiles hinputs hagrees

theorem result_of_loaded (hpresent : (look invocation.root).isPresent = true)
    (hloaded : invocation.loaded look environment = .ok layered) :
    (invocation.response look environment readFilter).result =
      match LogFilter.choose readFilter environment.logFilter
        (invocation.logLevel (layered.map (·.configuration))) with
      | none => .error (.logFilter (invocation.logLevel (layered.map (·.configuration))))
      | some _ => invocation.command.result look invocation.root
          (layered.map (·.configuration)) := by
  rw [response_of_present hpresent, hloaded]
  exact result_runWith layered

/-- A profile that is chosen by its stage leads to what its path leads to, even where the
run fails before it reads the profile. -/
theorem result_eq_of_names {inputPath path : String} {choice : ProfileChoice}
    {format : ReportFormat} (hcommand : invocation.command = .evaluate inputPath choice format)
    (hloaded : invocation.loaded look environment = .ok layered)
    (hpath : choice.Names invocation.root (layered.map (·.configuration)) path) :
    (invocation.response look environment readFilter).result =
      ({ invocation with command := .evaluate inputPath (.file path) format }.response look
        environment readFilter).result := by
  let direct := { invocation with command := .evaluate inputPath (.file path) format }
  have hdirect : direct.loaded look environment = .ok layered := hloaded
  by_cases hpresent : (look invocation.root).isPresent = true
  · have hdirectPresent : (look direct.root).isPresent = true := hpresent
    have hresult : invocation.command.result look invocation.root
        (layered.map (·.configuration)) =
          direct.command.result look direct.root (layered.map (·.configuration)) := by
      rw [hcommand, Command.result_evaluate hpath, Command.result_evaluate (.file path)]
    rw [result_of_loaded hpresent hloaded, result_of_loaded hdirectPresent hdirect, hresult]
    rfl
  · have habsent : (look direct.root).isPresent = false := eq_false_of_ne_true hpresent
    rw [response_of_absent habsent, response_of_absent (eq_false_of_ne_true hpresent)]

end

/-- The log and the way to choose a profile do not change a result, whatever spells a log
filter.  Two runs of one command that open their logs print the same and end with the same
code and error, in any words of the libraries, if their documents are the same and their
configurations agree on everything but the level of the log.  Where a document is such a
configuration, so that it differs in the level, the words of the libraries alone may differ.
And a run for a stage prints and ends as the run for the path that the stage resolves to. -/
theorem results_ignore_the_log_and_the_choice (readFilter : LogFilterReader) :
    (∀ (look other : Lookup Id) (environment otherEnvironment : Environment)
      (invocation otherInvocation : Invocation)
      (layered otherLayered : Option LayeredConfiguration) (filter otherFilter : LogFilter),
      invocation.Starts look environment readFilter layered filter →
      otherInvocation.Starts other otherEnvironment readFilter otherLayered otherFilter →
      invocation.root = otherInvocation.root →
      invocation.command = otherInvocation.command →
      (merged layered).AgreesApartFromLogLevel (merged otherLayered) →
      ((∀ path, invocation.command.Reads invocation.root (layered.map (·.configuration)) path →
          look path = other path) →
        ∀ wording, (invocation.response look environment readFilter).ShowsSame wording
          (otherInvocation.response other otherEnvironment readFilter)) ∧
      ((∀ path, invocation.command.Reads invocation.root (layered.map (·.configuration)) path →
          SameApartFrom "engine" path (look path) (other path)) →
        (invocation.response look environment readFilter).ShowsSame .unknown
          (otherInvocation.response other otherEnvironment readFilter))) ∧
    ∀ (look : Lookup Id) (environment : Environment) (invocation : Invocation)
      (layered : Option LayeredConfiguration) (inputPath stage path : String)
      (format : ReportFormat) (events : List Event) (wording : Wording),
      invocation.command = .evaluate inputPath (.stage stage) format →
      invocation.loaded look environment = .ok layered →
      (ProfileChoice.stage stage).resolve invocation.root (layered.map (·.configuration)) =
        .ok (path, events) →
      (invocation.response look environment readFilter).ShowsSame wording
        ({ invocation with command := .evaluate inputPath (.file path) format }.response look
          environment readFilter) := by
  refine ⟨?_, ?_⟩
  · intro look other environment otherEnvironment invocation otherInvocation layered
      otherLayered filter otherFilter hstarts hother hroot hcommand hagrees
    refine ⟨fun hdocuments wording => ?_, fun hdocuments => ?_⟩
    · refine Response.showsSame_of_mapError_eq id (fun _ => rfl)
        (hstarts.mapError_result_eq hother hroot hcommand hagrees ?_ ?_)
      all_goals
        intro path hreads
        rw [hdocuments path hreads]
    · refine Response.showsSame_of_mapError_eq LoadError.withoutText
        LoadError.message_withoutText (hstarts.mapError_result_eq hother hroot hcommand
          hagrees ?_ ?_)
      · exact fun path hreads =>
          (hdocuments path hreads).decodeEntry_eq Profile.lacks_engine .profile
      · exact fun path hreads =>
          (hdocuments path hreads).decodeEntry_eq ScoreInput.lacks_engine .input
  · intro look environment invocation layered inputPath stage path format events wording
      hcommand hloaded hresolve
    exact Response.showsSame_of_result_eq (result_eq_of_names hcommand hloaded
      (ProfileChoice.names_of_resolve_eq_ok hresolve)) wording

/-! A cup whose configuration sets the level of the log. -/

def cupText (level : String) : String :=
  "[engine]\nlog_level = \"" ++ level ++
    "\"\n[profiles]\ntournament = \"season.json\"\n"

def seasonText : String :=
  "\x7b\"version\": 1, \"totalFormula\": \"auto\", \"parts\": [\x7b\"id\": \"auto\", " ++
    "\"label\": \"Auto\", \"type\": \"boolean\", \"truePoints\": 5\x7d]\x7d"

def cupFiles (level : String) : Lookup Id := fun path =>
  if path = "cup/matchscore.toml" then .file (cupText level).toUTF8
  else if path = "cup" then .directory
  else if path = "cup/season.json" then .file seasonText.toUTF8
  else if path = "side.json" then
    .file "\x7b\"values\": \x7b\"auto\": true\x7d\x7d".toUTF8
  else .absent

def cupLayers (level : String) : LayeredConfiguration :=
  ⟨⟨some ⟨none, none, some level⟩, some ⟨some "season.json", .empty⟩⟩, []⟩

/-- Evaluates a side of the final, which the cup has no profile of its own for. -/
def cupRun (verbosity : Nat) : Invocation where
  verbosity := verbosity
  quiet := false
  root := "cup"
  command := .evaluate "side.json" (.stage "final") .json

/-- What the run leaves behind under a configured level and a filter of the environment. -/
def cupResponse (verbosity : Nat) (level : String) (logFilter : Option String) : Response :=
  (cupRun verbosity).response (cupFiles level) ⟨none, logFilter⟩ LogFilter.ofPlainLevel?

/-- The run gets past its configuration and opens its log. -/
theorem exists_starts_of_isSome {verbosity : Nat} {level : String} {logFilter : Option String}
    (hloaded : ((cupRun verbosity).loaded (cupFiles level) ⟨none, logFilter⟩).toOption =
      some (some (cupLayers level)))
    (hfilter : (LogFilter.choose LogFilter.ofPlainLevel? logFilter
      ((cupRun verbosity).logLevel (some (cupLayers level).configuration))).isSome = true) :
    ∃ filter, (cupRun verbosity).Starts (cupFiles level) ⟨none, logFilter⟩
      LogFilter.ofPlainLevel? (some (cupLayers level)) filter := by
  obtain ⟨filter, hfilter⟩ := Option.isSome_iff_exists.mp hfilter
  refine ⟨filter, rfl, ?_, hfilter⟩
  cases hresult : (cupRun verbosity).loaded (cupFiles level) ⟨none, logFilter⟩ with
  | error cause =>
    rw [hresult] at hloaded
    cases hloaded
  | ok layered =>
    rw [hresult] at hloaded
    exact congrArg Except.ok (Option.some.inj hloaded)

/-- A level that spells no filter refuses a plain run.  Behind `-vv` it does no harm. -/
theorem unreadable_level_behind_flags :
    (cupResponse 0 "a=b=c" none).exitCode = 3 ∧
      (cupResponse 2 "a=b=c" none).exitCode = 0 ∧
      (∀ wording, (cupResponse 2 "a=b=c" none).ShowsSame wording
        (cupResponse 0 "info" (some "off"))) ∧
      ∀ wording, (cupResponse 2 "a=b=c" none).ShowsSame wording
        ({ cupRun 2 with
          command := .evaluate "side.json" (.file "cup/season.json") .json }.response
            (cupFiles "a=b=c") ⟨none, none⟩ LogFilter.ofPlainLevel?) := by
  obtain ⟨_, hloud⟩ := @exists_starts_of_isSome 2 "a=b=c" none (by decide +kernel)
    (by decide +kernel)
  obtain ⟨_, hplain⟩ := @exists_starts_of_isSome 0 "info" (some "off") (by decide +kernel)
    (by decide +kernel)
  have hresolve : (ProfileChoice.stage "final").resolve "cup"
      (some (cupLayers "a=b=c").configuration) =
        .ok ("cup/season.json",
          [.resolvedProfile "final" ⟨.tournament, "cup/season.json"⟩]) := by
    rfl
  have hdocuments : ∀ path, (cupRun 2).command.Reads "cup"
      (some (cupLayers "a=b=c").configuration) path →
        cupFiles "a=b=c" path = cupFiles "info" path := by
    intro path hreads
    -- Both views have the same file at any path but that of the configuration.
    have hpath : path ≠ "cup/matchscore.toml" := by
      cases hreads with
      | input => decide
      | profile hnames =>
        obtain ⟨events, hevents⟩ := ProfileChoice.exists_resolve_eq_ok hnames
        obtain ⟨rfl, -⟩ := Prod.mk.inj (Except.ok.inj (hresolve.symm.trans hevents))
        decide
    rw [cupFiles, cupFiles, if_neg hpath, if_neg hpath]
  obtain ⟨hlog, hchoice⟩ := results_ignore_the_log_and_the_choice LogFilter.ofPlainLevel?
  refine ⟨by decide +kernel, by decide +kernel, ?_, ?_⟩
  · exact (hlog _ _ _ _ _ _ _ _ _ _ hloud hplain rfl rfl
      ⟨rfl, rfl, rfl, fun _ => rfl⟩).1 hdocuments
  · exact fun wording => hchoice _ _ _ _ _ _ _ _ _ wording rfl hloud.loaded_eq hresolve

end Invocation

end TournamentScoring
