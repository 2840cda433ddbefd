import TournamentScoring.CommandLine.Run
import TournamentScoring.Proofs.Report.Rendering
import Mathlib.Logic.ExistsUnique

/-!
# A run ends in one of three ways

A run fails at the first stage that has a cause to fail, and prints nothing.  Else
the side is evaluated and one report is printed, or the profile is checked and its
issues are listed.  What the stages ask for is said here of the files alone; the run
does the same on any files that stay as they are.  It holds for every way to spell log
filters and for any words that the libraries put behind an error.
-/

namespace TournamentScoring

open Document

/-! ## Commands -/

/-- The settings of the engine under a configuration, if there is one. -/
def settingsUnder (configuration : Option Configuration) : EngineSettings :=
  (configuration.map Configuration.engineSettings).getD EngineSettings.default

section

variable (root : String) (configuration : Option Configuration)

/-- The path of a chosen profile: the file, or what its stage is assigned. -/
inductive ProfileChoice.Names : ProfileChoice → String → Prop
  | file (path : String) : Names (.file path) path
  | stage {name : String} {assignment : Assignment}
      (hassigned : (configuration.bind fun known => known.resolve? root name) =
        some assignment) :
      Names (.stage name) assignment.path

variable (look : Lookup Id)

namespace Command

/-- The first stage of a command that cannot be passed, with its cause. -/
inductive Fails : Command → RunError → Prop
  | unassigned {inputPath name : String} {format : ReportFormat}
      (hunassigned : (configuration.bind fun known => known.resolve? root name) = none) :
      Fails (.evaluate inputPath (.stage name) format) (.noProfileAssigned name)
  | unloadedProfile {inputPath path : String} {choice : ProfileChoice} {format : ReportFormat}
      {cause : LoadError} (hpath : choice.Names root configuration path)
      (hprofile : decodeEntry .profile Profile.decoder path (look path) = .error cause) :
      Fails (.evaluate inputPath choice format) (.document cause)
  | invalidProfile {inputPath path : String} {choice : ProfileChoice} {format : ReportFormat}
      {profile : Profile} (hpath : choice.Names root configuration path)
      (hprofile : decodeEntry .profile Profile.decoder path (look path) = .ok profile)
      (hinvalid : profile.structureIssues ≠ []) :
      Fails (.evaluate inputPath choice format)
        (.document (.invalidProfile path profile.structureIssues))
  | unloadedInput {inputPath path : String} {choice : ProfileChoice} {format : ReportFormat}
      {profile : Profile} {cause : LoadError}
      (hpath : choice.Names root configuration path)
      (hprofile : decodeEntry .profile Profile.decoder path (look path) = .ok profile)
      (hvalid : profile.structureIssues = [])
      (hinput : decodeEntry .input ScoreInput.decoder inputPath (look inputPath) =
        .error cause) :
      Fails (.evaluate inputPath choice format) (.document cause)
  | unloadedChecked {path : String} {cause : LoadError}
      (hprofile : decodeEntry .profile Profile.decoder path (look path) = .error cause) :
      Fails (.check path) (.document cause)

/-- All documents of an evaluation are loaded, and the profile is valid. -/
inductive Evaluates : Command → String → Profile → ScoreInput → ReportFormat → Prop
  | intro {inputPath path : String} {choice : ProfileChoice} {format : ReportFormat}
      {profile : Profile} {input : ScoreInput}
      (hpath : choice.Names root configuration path)
      (hprofile : decodeEntry .profile Profile.decoder path (look path) = .ok profile)
      (hvalid : profile.structureIssues = [])
      (hinput : decodeEntry .input ScoreInput.decoder inputPath (look inputPath) = .ok input) :
      Evaluates (.evaluate inputPath choice format) path profile input format

/-- The profile of a check is loaded, whatever its issues are. -/
inductive Checks : Command → String → Profile → Prop
  | intro {path : String} {profile : Profile}
      (hprofile : decodeEntry .profile Profile.decoder path (look path) = .ok profile) :
      Checks (.check path) path profile

end Command

end

section

variable {root : String} {configuration : Option Configuration} {look : Lookup Id}

theorem ProfileChoice.exists_resolve_eq_ok {choice : ProfileChoice} {path : String}
    (hpath : choice.Names root configuration path) :
    ∃ events, choice.resolve root configuration = .ok (path, events) := by
  cases hpath with
  | file => exact ⟨[], rfl⟩
  | stage hassigned =>
    rw [resolve, hassigned]
    exact ⟨_, rfl⟩

/-- A valid profile is one that is loaded and has no issues of structure. -/
theorem Profile.loadValid_eq (look : Lookup Id) (path : String) :
    Profile.loadValid look path =
      (decodeEntry .profile Profile.decoder path (look path)).bind
        (·.withValidStructure path) := by
  have hload : Profile.load look path =
      decodeEntry .profile Profile.decoder path (look path) := rfl
  rw [loadValid, hload]
  cases decodeEntry .profile Profile.decoder path (look path) <;> rfl

theorem Profile.loadValid_of_error {path : String} {cause : LoadError}
    (hprofile : decodeEntry .profile Profile.decoder path (look path) = .error cause) :
    Profile.loadValid look path = Except.error cause := by
  rw [loadValid_eq, hprofile]
  rfl

theorem Profile.loadValid_of_invalid {path : String} {profile : Profile}
    (hprofile : decodeEntry .profile Profile.decoder path (look path) = .ok profile)
    (hinvalid : profile.structureIssues ≠ []) :
    Profile.loadValid look path =
      Except.error (.invalidProfile path profile.structureIssues) := by
  obtain ⟨issue, issues, hissues⟩ := List.exists_cons_of_ne_nil hinvalid
  rw [loadValid_eq, hprofile, hissues]
  change profile.withValidStructure path = _
  rw [withValidStructure, hissues]

theorem Profile.loadValid_of_valid {path : String} {profile : Profile}
    (hprofile : decodeEntry .profile Profile.decoder path (look path) = .ok profile)
    (hvalid : profile.structureIssues = []) :
    Profile.loadValid look path = Except.ok profile := by
  rw [loadValid_eq, hprofile]
  change profile.withValidStructure path = _
  rw [withValidStructure, hvalid]

/-- What a command leads to. -/
def Command.result (look : Lookup Id) (root : String)
    (configuration : Option Configuration) (command : Command) : Except RunError Finding :=
  (Id.run (command.execute look root configuration)).result

theorem Command.result_evaluate {inputPath path : String} {choice : ProfileChoice}
    {format : ReportFormat} (hpath : choice.Names root configuration path) :
    Command.result look root configuration (.evaluate inputPath choice format) =
      (Id.run (loadAndEvaluate look path inputPath (settingsUnder configuration)
        format)).result := by
  obtain ⟨events, hevents⟩ := ProfileChoice.exists_resolve_eq_ok hpath
  rw [Command.result, Command.execute]
  simp only [hevents]
  rfl

theorem loadAndEvaluate_of_profile_error {path inputPath : String} {cause : LoadError}
    {settings : EngineSettings} {format : ReportFormat}
    (hprofile : Profile.loadValid look path = Except.error cause) :
    loadAndEvaluate look path inputPath settings format =
      (⟨[], .error (.document cause)⟩ : Course) := by
  unfold loadAndEvaluate
  rw [hprofile]
  rfl

theorem loadAndEvaluate_of_profile_ok {path inputPath : String} {profile : Profile}
    {settings : EngineSettings} {format : ReportFormat}
    (hprofile : Profile.loadValid look path = Except.ok profile) :
    loadAndEvaluate look path inputPath settings format =
      match decodeEntry .input ScoreInput.decoder inputPath (look inputPath) with
      | .error cause => (⟨[], .error (.document cause)⟩ : Course)
      | .ok input => evaluationCourse path profile input settings format := by
  unfold loadAndEvaluate
  rw [hprofile]
  rfl

theorem Command.result_check {path : String} :
    Command.result look root configuration (.check path) =
      match decodeEntry .profile Profile.decoder path (look path) with
      | .error cause => .error (.document cause)
      | .ok profile => .ok (.checked path profile
          (profile.issues (settingsUnder configuration).maxFormulaLength)) := by
  change Course.result (match decodeEntry .profile Profile.decoder path (look path) with
    | .error cause => ⟨[], .error (.document cause)⟩
    | .ok profile => ⟨[], .ok (.checked path profile
        (profile.issues (settingsUnder configuration).maxFormulaLength))⟩) = _
  cases decodeEntry .profile Profile.decoder path (look path) <;> rfl

theorem Command.Fails.result_eq {command : Command} {cause : RunError}
    (hfails : command.Fails root configuration look cause) :
    command.result look root configuration = .error cause := by
  cases hfails with
  | unassigned hunassigned =>
    rw [Command.result, Command.execute]
    simp only [ProfileChoice.resolve, hunassigned]
    rfl
  | unloadedProfile hpath hprofile =>
    rw [Command.result_evaluate hpath,
      loadAndEvaluate_of_profile_error (Profile.loadValid_of_error hprofile)]
    rfl
  | invalidProfile hpath hprofile hinvalid =>
    rw [Command.result_evaluate hpath,
      loadAndEvaluate_of_profile_error (Profile.loadValid_of_invalid hprofile hinvalid)]
    rfl
  | unloadedInput hpath hprofile hvalid hinput =>
    rw [Command.result_evaluate hpath,
      loadAndEvaluate_of_profile_ok (Profile.loadValid_of_valid hprofile hvalid), hinput]
    rfl
  | unloadedChecked hprofile => rw [Command.result_check, hprofile]

theorem Command.Evaluates.result_eq {command : Command} {path : String}
    {profile : Profile} {input : ScoreInput} {format : ReportFormat}
    (hevaluates : command.Evaluates root configuration look path profile input format) :
    command.result look root configuration =
      .ok (.evaluated (EvaluationReport.ofOutcome path profile
        (profile.scoreMatch input (settingsUnder configuration))) format) := by
  cases hevaluates with
  | intro hpath hprofile hvalid hinput =>
    rw [Command.result_evaluate hpath,
      loadAndEvaluate_of_profile_ok (Profile.loadValid_of_valid hprofile hvalid), hinput]
    rfl

theorem Command.Checks.result_eq {command : Command} {path : String} {profile : Profile}
    (hchecks : command.Checks look path profile) :
    command.result look root configuration =
      .ok (.checked path profile
        (profile.issues (settingsUnder configuration).maxFormulaLength)) := by
  cases hchecks with
  | intro hprofile => rw [Command.result_check, hprofile]

/-- A choice of a profile has a path unless its stage is not assigned any. -/
theorem ProfileChoice.names_or_unassigned (root : String)
    (configuration : Option Configuration) (choice : ProfileChoice) :
    (∃ path, choice.Names root configuration path) ∨
      ∃ name, choice = .stage name ∧
        (configuration.bind fun known => known.resolve? root name) = none := by
  cases choice with
  | file path => exact .inl ⟨path, .file path⟩
  | stage name =>
    cases hassigned : configuration.bind fun known => known.resolve? root name with
    | none => exact .inr ⟨name, rfl, hassigned⟩
    | some assignment => exact .inl ⟨assignment.path, .stage hassigned⟩

/-- A command fails at one of its stages, or it evaluates or checks. -/
theorem Command.fails_or_finds (look : Lookup Id) (root : String)
    (configuration : Option Configuration) (command : Command) :
    (∃ cause, command.Fails root configuration look cause) ∨
      (∃ path profile input format,
        command.Evaluates root configuration look path profile input format) ∨
      ∃ path profile, command.Checks look path profile := by
  cases command with
  | evaluate inputPath choice format =>
    rcases choice.names_or_unassigned root configuration with
      ⟨path, hpath⟩ | ⟨name, rfl, hunassigned⟩
    · cases hprofile : decodeEntry .profile Profile.decoder path (look path) with
      | error cause => exact .inl ⟨_, .unloadedProfile hpath hprofile⟩
      | ok profile =>
        by_cases hvalid : profile.structureIssues = []
        · cases hinput : decodeEntry .input ScoreInput.decoder inputPath (look inputPath) with
          | error cause => exact .inl ⟨_, .unloadedInput hpath hprofile hvalid hinput⟩
          | ok input =>
            exact .inr (.inl ⟨_, _, _, _, .intro hpath hprofile hvalid hinput⟩)
        · exact .inl ⟨_, .invalidProfile hpath hprofile hvalid⟩
    · exact .inl ⟨_, .unassigned hunassigned⟩
  | check path =>
    cases hprofile : decodeEntry .profile Profile.decoder path (look path) with
    | error cause => exact .inl ⟨_, .unloadedChecked hprofile⟩
    | ok profile => exact .inr (.inr ⟨_, _, .intro hprofile⟩)

end

/-! ## Runs -/

section

variable (look : Lookup Id) (environment : Environment) (readFilter : LogFilterReader)
  (invocation : Invocation)

namespace Invocation

/-- The configuration of the root, if there is one that can be loaded. -/
def loaded : Except ConfigurationError (Option LayeredConfiguration) :=
  Id.run (LayeredConfiguration.load look invocation.root
    (environment.home.map LayeredConfiguration.globalPath))

/-- The level that is asked of the log under a configuration. -/
def logLevel (configuration : Option Configuration) : String :=
  LogFilter.chosenLevel invocation.verbosity invocation.quiet
    (configuration.bind Configuration.logLevel)

/-- Everything before the command is done: the root is there, its configuration is
loaded and the log has a filter. -/
structure Starts (layered : Option LayeredConfiguration) (filter : LogFilter) : Prop where
  isPresent : (look invocation.root).isPresent = true
  loaded_eq : invocation.loaded look environment = .ok layered
  filter_eq : LogFilter.choose readFilter environment.logFilter
    (invocation.logLevel (layered.map (·.configuration))) = some filter

/-- The first stage of a run that cannot be passed, with its cause. -/
inductive Fails : RunError → Prop
  | missingRoot (habsent : (look invocation.root).isPresent = false) :
      Fails (.rootNotFound invocation.root)
  | unloadedConfiguration {cause : ConfigurationError}
      (hpresent : (look invocation.root).isPresent = true)
      (hloaded : invocation.loaded look environment = .error cause) :
      Fails (.configuration cause)
  | unreadFilter {layered : Option LayeredConfiguration}
      (hpresent : (look invocation.root).isPresent = true)
      (hloaded : invocation.loaded look environment = .ok layered)
      (hfilter : LogFilter.choose readFilter environment.logFilter
        (invocation.logLevel (layered.map (·.configuration))) = none) :
      Fails (.logFilter (invocation.logLevel (layered.map (·.configuration))))
  | command {layered : Option LayeredConfiguration} {filter : LogFilter} {cause : RunError}
      (hstarts : invocation.Starts look environment readFilter layered filter)
      (hfails : invocation.command.Fails invocation.root
        (layered.map (·.configuration)) look cause) :
      Fails cause

/-- What a run leaves behind. -/
def response : Response :=
  Id.run (invocation.run look environment readFilter)

end Invocation

end

section

variable {look : Lookup Id} {environment : Environment} {readFilter : LogFilterReader}
  {invocation : Invocation}

namespace Invocation

theorem response_of_absent (habsent : (look invocation.root).isPresent = false) :
    invocation.response look environment readFilter =
      .refusal (.rootNotFound invocation.root) := by
  change (if !(look invocation.root).isPresent then
      Response.refusal (.rootNotFound invocation.root)
    else _) = _
  rw [habsent]
  rfl

theorem response_of_present (hpresent : (look invocation.root).isPresent = true) :
    invocation.response look environment readFilter =
      match invocation.loaded look environment with
      | .error cause => .refusal (.configuration cause)
      | .ok layered => Id.run (invocation.runWith look environment layered readFilter) := by
  change (if !(look invocation.root).isPresent then
      Response.refusal (.rootNotFound invocation.root)
    else match invocation.loaded look environment with
      | .error cause => .refusal (.configuration cause)
      | .ok layered => Id.run (invocation.runWith look environment layered readFilter)) = _
  rw [hpresent]
  rfl

/-- With a filter for its log, a run leads to what its command leads to. -/
theorem result_runWith (layered : Option LayeredConfiguration) :
    (Id.run (invocation.runWith look environment layered readFilter)).result =
      match LogFilter.choose readFilter environment.logFilter
        (invocation.logLevel (layered.map (·.configuration))) with
      | none => .error (.logFilter (invocation.logLevel (layered.map (·.configuration))))
      | some _ => invocation.command.result look invocation.root
          (layered.map (·.configuration)) := by
  rw [runWith, logLevel]
  cases LogFilter.choose readFilter environment.logFilter
    (LogFilter.chosenLevel invocation.verbosity invocation.quiet
      ((layered.map (·.configuration)).bind Configuration.logLevel)) <;> rfl

theorem Starts.result_eq {layered : Option LayeredConfiguration} {filter : LogFilter}
    (hstarts : invocation.Starts look environment readFilter layered filter) :
    (invocation.response look environment readFilter).result =
      invocation.command.result look invocation.root (layered.map (·.configuration)) := by
  rw [response_of_present hstarts.isPresent, hstarts.loaded_eq]
  dsimp only
  rw [result_runWith, hstarts.filter_eq]

theorem Fails.result_eq {cause : RunError}
    (hfails : invocation.Fails look environment readFilter cause) :
    (invocation.response look environment readFilter).result = .error cause := by
  cases hfails with
  | missingRoot habsent =>
    rw [response_of_absent habsent]
    rfl
  | unloadedConfiguration hpresent hloaded =>
    rw [response_of_present hpresent, hloaded]
    rfl
  | unreadFilter hpresent hloaded hfilter =>
    rw [response_of_present hpresent, hloaded]
    dsimp only
    rw [result_runWith, hfilter]
  | command hstarts hfails => rw [hstarts.result_eq, hfails.result_eq]

variable (look environment readFilter invocation)

/-- A run fails before its command, or its command starts. -/
theorem fails_or_starts :
    (∃ cause, invocation.Fails look environment readFilter cause) ∨
      ∃ layered filter, invocation.Starts look environment readFilter layered filter := by
  by_cases hpresent : (look invocation.root).isPresent = true
  · cases hloaded : invocation.loaded look environment with
    | error cause => exact .inl ⟨_, .unloadedConfiguration hpresent hloaded⟩
    | ok layered =>
      cases hfilter : LogFilter.choose readFilter environment.logFilter
          (invocation.logLevel (layered.map (·.configuration))) with
      | none => exact .inl ⟨_, .unreadFilter hpresent hloaded hfilter⟩
      | some filter => exact .inr ⟨layered, filter, hpresent, hloaded, hfilter⟩
  · exact .inl ⟨_, .missingRoot (eq_false_of_ne_true hpresent)⟩

end Invocation

end

/-! ## What can be seen of a run -/

namespace Response

/-- The run fails with the error message of the cause, in whatever words the libraries put
behind it, and prints nothing. -/
structure Refuses (response : Response) (cause : RunError) : Prop where
  errorText_eq : ∀ wording, response.errorText? wording = some (cause.message wording)
  output_eq : response.output = ""
  exitCode_eq : response.exitCode = 3

/-- The run prints one report and nothing else.  The report says what the outcome is, a
score or a failure, with every figure and every error. -/
structure Reports (response : Response) (path : String) (profile : Profile)
    (outcome : Except EvaluationFailure MatchScore) (format : ReportFormat) : Prop where
  errorText_eq : ∀ wording, response.errorText? wording = none
  output_eq : response.output =
    (EvaluationReport.ofOutcome path profile outcome).render format ++ "\n"
  isRendered : (EvaluationReport.ofOutcome path profile outcome).IsRenderedAs format
    ((EvaluationReport.ofOutcome path profile outcome).render format)
  exitCode_zero_iff : response.exitCode = 0 ↔ ∃ score, outcome = .ok score
  exitCode_two_iff : response.exitCode = 2 ↔ ∃ failure, outcome = .error failure

/-- The run says that the profile is in order, or has one entry for each issue. -/
structure Lists (response : Response) (path : String) (profile : Profile)
    (issues : List Issue) : Prop where
  errorText_eq : ∀ wording, response.errorText? wording = none
  output_of_nil : issues = [] → response.output =
    s!"check: {path} v{profile.version.toNat} ok " ++
      s!"({profile.parts.length} parts, {profile.penalties.length} penalties)\n"
  output_of_ne_nil : issues ≠ [] → response.output =
    s!"check: {path} has {issues.length} issue(s)\n" ++
      String.join (issues.map fun issue => s!"- {issue.message}\n")
  exitCode_zero_iff : response.exitCode = 0 ↔ issues = []
  exitCode_two_iff : response.exitCode = 2 ↔ issues ≠ []

variable {response : Response}

theorem refuses_of_result_eq {cause : RunError} (hresult : response.result = .error cause) :
    response.Refuses cause := by
  constructor
  · intro wording
    rw [errorText?, hresult]
  · rw [output, hresult]
  · rw [exitCode, hresult]

theorem reports_of_result_eq {path : String} {profile : Profile}
    {outcome : Except EvaluationFailure MatchScore} {format : ReportFormat}
    (hresult : response.result =
      .ok (.evaluated (EvaluationReport.ofOutcome path profile outcome) format)) :
    response.Reports path profile outcome format := by
  have hcode : response.exitCode = if outcome.toBool then 0 else 2 := by
    rw [exitCode, hresult]
    rfl
  constructor
  · intro wording
    rw [errorText?, hresult]
  · rw [output, hresult]
    rfl
  · exact EvaluationReport.isRenderedAs_render _ format
  · rw [hcode]
    cases outcome <;> simp [Except.toBool]
  · rw [hcode]
    cases outcome <;> simp [Except.toBool]

theorem lists_of_result_eq {path : String} {profile : Profile} {issues : List Issue}
    (hresult : response.result = .ok (.checked path profile issues)) :
    response.Lists path profile issues := by
  have hcode : response.exitCode = if issues.isEmpty then 0 else 2 := by
    rw [exitCode, hresult]
    rfl
  have htext : response.output = Finding.checkText path profile issues := by
    rw [output, hresult]
    rfl
  constructor
  · intro wording
    rw [errorText?, hresult]
  · rintro rfl
    exact htext
  · intro hne
    obtain ⟨issue, rest, rfl⟩ := List.exists_cons_of_ne_nil hne
    exact htext
  · rw [hcode]
    cases issues <;> simp
  · rw [hcode]
    cases issues <;> simp

end Response

/-! ## The three ways to end -/

/-- How a run can end. -/
inductive Ending
  | refused
  | evaluated
  | checked
deriving DecidableEq

namespace Invocation

variable (look : Lookup Id) (environment : Environment) (readFilter : LogFilterReader)
  (invocation : Invocation)

/-- The run ends in this way: the stages before it are passed, and what can be seen of
the run follows from what they found. -/
def EndsAs : Ending → Prop
  | .refused => ∃ cause, invocation.Fails look environment readFilter cause ∧
      (invocation.response look environment readFilter).Refuses cause
  | .evaluated => ∃ layered filter path profile input format,
      invocation.Starts look environment readFilter layered filter ∧
      invocation.command.Evaluates invocation.root (layered.map (·.configuration)) look
        path profile input format ∧
      (invocation.response look environment readFilter).Reports path profile
        (profile.scoreMatch input (settingsUnder (layered.map (·.configuration)))) format
  | .checked => ∃ layered filter path profile,
      invocation.Starts look environment readFilter layered filter ∧
      invocation.command.Checks look path profile ∧
      (invocation.response look environment readFilter).Lists path profile
        (profile.issues (settingsUnder (layered.map (·.configuration))).maxFormulaLength)

/-- The way that the exit code and the command tell. -/
def seenEnding : Ending :=
  if (invocation.response look environment readFilter).exitCode = 3 then .refused
  else
    match invocation.command with
    | .evaluate _ _ _ => .evaluated
    | .check _ => .checked

variable {look environment readFilter invocation}

theorem EndsAs.eq_seenEnding {ending : Ending}
    (hends : invocation.EndsAs look environment readFilter ending) :
    ending = invocation.seenEnding look environment readFilter := by
  cases ending with
  | refused =>
    obtain ⟨cause, -, hrefuses⟩ := hends
    exact (if_pos hrefuses.exitCode_eq).symm
  | evaluated =>
    obtain ⟨layered, filter, path, profile, input, format, -, hevaluates, hreports⟩ := hends
    have hcode : (invocation.response look environment readFilter).exitCode ≠ 3 := by
      cases houtcome : profile.scoreMatch input
          (settingsUnder (layered.map (·.configuration))) with
      | ok score =>
        rw [hreports.exitCode_zero_iff.mpr ⟨score, houtcome⟩]
        decide
      | error failure =>
        rw [hreports.exitCode_two_iff.mpr ⟨failure, houtcome⟩]
        decide
    rw [seenEnding, if_neg hcode]
    cases hcommand : invocation.command with
    | evaluate => rfl
    | check =>
      rw [hcommand] at hevaluates
      cases hevaluates
  | checked =>
    obtain ⟨layered, filter, path, profile, -, hchecks, hlists⟩ := hends
    have hcode : (invocation.response look environment readFilter).exitCode ≠ 3 := by
      by_cases hissues : profile.issues
          (settingsUnder (layered.map (·.configuration))).maxFormulaLength = []
      · rw [hlists.exitCode_zero_iff.mpr hissues]
        decide
      · rw [hlists.exitCode_two_iff.mpr hissues]
        decide
    rw [seenEnding, if_neg hcode]
    cases hcommand : invocation.command with
    | evaluate =>
      rw [hcommand] at hchecks
      cases hchecks
    | check => rfl

variable (look environment readFilter invocation)

theorem exists_endsAs : ∃ ending, invocation.EndsAs look environment readFilter ending := by
  rcases invocation.fails_or_starts look environment readFilter with
    ⟨cause, hfails⟩ | ⟨layered, filter, hstarts⟩
  · exact ⟨.refused, cause, hfails, Response.refuses_of_result_eq hfails.result_eq⟩
  · rcases invocation.command.fails_or_finds look invocation.root
        (layered.map (·.configuration)) with
      ⟨cause, hcommand⟩ | ⟨path, profile, input, format, hevaluates⟩ |
        ⟨path, profile, hchecks⟩
    · have hfails : invocation.Fails look environment readFilter cause :=
        .command hstarts hcommand
      exact ⟨.refused, cause, hfails, Response.refuses_of_result_eq hfails.result_eq⟩
    · refine ⟨.evaluated, layered, filter, path, profile, input, format, hstarts,
        hevaluates, Response.reports_of_result_eq ?_⟩
      rw [hstarts.result_eq, hevaluates.result_eq]
    · refine ⟨.checked, layered, filter, path, profile, hstarts, hchecks,
        Response.lists_of_result_eq ?_⟩
      rw [hstarts.result_eq, hchecks.result_eq]

/-- A run has a cause to fail exactly if that is its result, so there is at most one. -/
theorem fails_iff_result_eq (cause : RunError) :
    invocation.Fails look environment readFilter cause ↔
      (invocation.response look environment readFilter).result = .error cause := by
  refine ⟨Fails.result_eq, fun hresult => ?_⟩
  obtain ⟨ending, hends⟩ := invocation.exists_endsAs look environment readFilter
  cases ending with
  | refused =>
    obtain ⟨found, hfails, -⟩ := hends
    obtain rfl : found = cause := Except.error.inj (hfails.result_eq.symm.trans hresult)
    exact hfails
  | evaluated =>
    obtain ⟨layered, filter, path, profile, input, format, hstarts, hevaluates, -⟩ := hends
    rw [hstarts.result_eq, hevaluates.result_eq] at hresult
    cases hresult
  | checked =>
    obtain ⟨layered, filter, path, profile, hstarts, hchecks, -⟩ := hends
    rw [hstarts.result_eq, hchecks.result_eq] at hresult
    cases hresult

/-- A run ends in exactly one of three ways.  It is refused at some stage, prints
nothing and has the exit code 3; or it evaluates what it has loaded and prints one
report; or it checks a profile and lists the issues.  In the last two ways the exit
code is 0 if the side was scored, or the profile is in order, and 2 otherwise. -/
theorem run_ends_in_exactly_one_way :
    ∃! ending, invocation.EndsAs look environment readFilter ending := by
  obtain ⟨ending, hends⟩ := invocation.exists_endsAs look environment readFilter
  refine ⟨ending, hends, ?_⟩
  intro other hother
  rw [hother.eq_seenEnding, hends.eq_seenEnding]

end Invocation

end TournamentScoring
