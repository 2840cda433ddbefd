import TournamentScoring.Report.Basic

/-!
# Arguments

The command line is read from the left.  General options may stand before the
command or behind it, and what stands behind it wins.  Each option may be given
once, apart from `-v`, which counts.  Whatever is not understood is a usage error,
unless help or the version was asked for before.
-/

namespace TournamentScoring

/-- Which profile is applied: a file, or the one that a stage is assigned. -/
inductive ProfileChoice
  | file (path : String)
  | stage (name : String)
deriving DecidableEq

/-- The subcommands, `Commands`. -/
inductive Command
  | evaluate (input : String) (profile : ProfileChoice) (format : ReportFormat)
  | check (profile : String)
deriving DecidableEq

/-- A command line that was accepted, `Cli`. -/
structure Invocation where
  verbosity : Nat
  quiet : Bool
  root : String
  command : Command
deriving DecidableEq

/-- What a list of arguments asks for. -/
inductive Request
  | run (invocation : Invocation)
  | version
  | help
  | usageError
deriving DecidableEq

/-- What is printed for `--version`. -/
def versionText : String := "matchscore 0.1.0\n"

/-- What is printed for `--help`. -/
def helpText : String :=
  "Usage: matchscore [-v | -q] [--root DIR] COMMAND\n\n" ++
    "  evaluate --input FILE (--profile FILE | --stage ID) [-f json|md]\n" ++
    "  check FILE\n"

namespace Arguments

/-- Where an argument stands. -/
inductive Scope
  | general
  | evaluate
  | check
deriving DecidableEq

def Scope.ofName? : String → Option Scope
  | "evaluate" => some evaluate
  | "check" => some check
  | _ => none

/-- An option without a value. -/
inductive Switch
  | verbose
  | quiet
  | version
  | help
deriving DecidableEq

/-- An option with a value. -/
inductive Setting
  | root
  | input
  | profile
  | stage
  | format
deriving DecidableEq

inductive OptionName
  | switch (name : Switch)
  | setting (name : Setting)
deriving DecidableEq

/-- An option by its long name. -/
def OptionName.ofLong? (scope : Scope) (name : String) : Option OptionName :=
  match name, scope with
  | "verbose", _ => some (switch .verbose)
  | "quiet", _ => some (switch .quiet)
  | "help", _ => some (switch .help)
  | "version", .general => some (switch .version)
  | "root", _ => some (setting .root)
  | "input", .evaluate => some (setting .input)
  | "profile", .evaluate => some (setting .profile)
  | "stage", .evaluate => some (setting .stage)
  | "format", .evaluate => some (setting .format)
  | _, _ => none

/-- An option by its letter. -/
def OptionName.ofShort? (scope : Scope) (letter : Char) : Option OptionName :=
  match letter, scope with
  | 'v', _ => some (switch .verbose)
  | 'q', _ => some (switch .quiet)
  | 'h', _ => some (switch .help)
  | 'V', .general => some (switch .version)
  | 'f', .evaluate => some (setting .format)
  | _, _ => none

/-- What has been read in one scope. -/
structure Draft where
  verbosity : Nat
  quiet : Bool
  root : Option String
  input : Option String
  profile : Option String
  stage : Option String
  format : Option ReportFormat
  operand : Option String
deriving DecidableEq

def Draft.empty : Draft where
  verbosity := 0
  quiet := false
  root := none
  input := none
  profile := none
  stage := none
  format := none
  operand := none

/-- How reading goes on after an option. -/
inductive Step
  | go (draft : Draft)
  | stop (request : Request)
deriving DecidableEq

/-- A path may not be empty. -/
def pathOf? (text : String) : Option String :=
  if text.isEmpty then none else some text

def formatOf? : String → Option ReportFormat
  | "json" => some .json
  | "md" => some .markdown
  | _ => none

/-- Stores a value that was read, unless there is one already. -/
def store {α : Type} (slot : Option α) (value : Option α)
    (put : Option α → Draft) : Step :=
  match slot, value with
  | none, some value => .go (put (some value))
  | _, _ => .stop .usageError

namespace Draft

def turnOn (draft : Draft) : Switch → Step
  | .verbose => .go { draft with verbosity := draft.verbosity + 1 }
  | .quiet =>
    if draft.quiet then .stop .usageError else .go { draft with quiet := true }
  | .version => .stop .version
  | .help => .stop .help

def assign (draft : Draft) (name : Setting) (text : String) : Step :=
  match name with
  | .root =>
    store draft.root (pathOf? text) fun value => { draft with root := value }
  | .input =>
    store draft.input (pathOf? text) fun value => { draft with input := value }
  | .profile =>
    store draft.profile (pathOf? text)
      fun value => { draft with profile := value }
  | .stage =>
    store draft.stage (some text) fun value => { draft with stage := value }
  | .format =>
    store draft.format (formatOf? text)
      fun value => { draft with format := value }

def addOperand (draft : Draft) (text : String) : Step :=
  store draft.operand (pathOf? text) fun value => { draft with operand := value }

end Draft

/-! ## Options -/

/-- An option as it is written, before its value is looked for. -/
inductive Reading
  | done (step : Step)
  /-- The value is the next argument. -/
  | awaiting (draft : Draft) (name : Setting)
deriving DecidableEq

/-- The text behind an equals sign, if there is one. -/
def attachedValue? : List Char → Option (List Char)
  | '=' :: value => some value
  | _ => none

/-- Reads an option with a long name, without its dashes. -/
def readLong (scope : Scope) (draft : Draft) (characters : List Char) :
    Reading :=
  let name := String.ofList (characters.takeWhile (· ≠ '='))
  let attached := attachedValue? (characters.dropWhile (· ≠ '='))
  match OptionName.ofLong? scope name, attached with
  | some (.switch name), none => .done (draft.turnOn name)
  | some (.setting name), none => .awaiting draft name
  | some (.setting name), some value =>
    .done (draft.assign name (String.ofList value))
  | _, _ => .done (.stop .usageError)

/-- Reads a row of letters, without its dash.  A letter that takes a value takes
the rest of the row for it. -/
def readShort (scope : Scope) (draft : Draft) : List Char → Reading
  | [] => .done (.go draft)
  | letter :: rest =>
    match OptionName.ofShort? scope letter with
    | none => .done (.stop .usageError)
    | some (.switch name) =>
      match draft.turnOn name with
      | .go draft => readShort scope draft rest
      | .stop request => .done (.stop request)
    | some (.setting name) =>
      match rest with
      | [] => .awaiting draft name
      | rest =>
        .done (draft.assign name
          (String.ofList ((attachedValue? rest).getD rest)))

/-- Whether an argument is an option and no value; a single dash is a value. -/
def isOption (argument : String) : Bool :=
  match argument.toList with
  | '-' :: _ :: _ => true
  | _ => false

def readOption (scope : Scope) (draft : Draft) (argument : String) : Reading :=
  match argument.toList with
  | '-' :: '-' :: characters => readLong scope draft characters
  | '-' :: characters => readShort scope draft characters
  | _ => .done (.stop .usageError)

/-! ## A scope -/

/-- What the arguments of a scope amount to. -/
inductive ScopeReading
  | finished (draft : Draft)
  /-- A command was named; its arguments are what remains. -/
  | entered (draft : Draft) (scope : Scope) (arguments : List String)
  | stopped (request : Request)
deriving DecidableEq

/-- Reads operands only, as behind `--`. -/
def readOperands (scope : Scope) (draft : Draft) : List String → ScopeReading
  | [] => .finished draft
  | argument :: arguments =>
    if scope = .check then
      match draft.addOperand argument with
      | .go draft => readOperands scope draft arguments
      | .stop request => .stopped request
    else .stopped .usageError

/-- The commands that help may be asked for. -/
def isHelpTopic (arguments : List String) : Bool :=
  arguments.isEmpty || ["evaluate", "check", "help"].any fun name =>
    arguments == [name]

def readScope (scope : Scope) (draft : Draft) : List String → ScopeReading
  | [] => .finished draft
  | "--" :: arguments => readOperands scope draft arguments
  | argument :: arguments =>
    if isOption argument then
      match readOption scope draft argument, arguments with
      | .done (.go draft), arguments => readScope scope draft arguments
      | .done (.stop request), _ => .stopped request
      | .awaiting _ _, [] => .stopped .usageError
      | .awaiting draft name, value :: arguments =>
        if isOption value then .stopped .usageError
        else
          match draft.assign name value with
          | .go draft => readScope scope draft arguments
          | .stop request => .stopped request
    else
      match scope with
      | .general =>
        match Scope.ofName? argument with
        | some command => .entered draft command arguments
        | none =>
          if argument = "help" ∧ isHelpTopic arguments then .stopped .help
          else .stopped .usageError
      | .check =>
        match draft.addOperand argument with
        | .go draft => readScope scope draft arguments
        | .stop request => .stopped request
      | .evaluate => .stopped .usageError

/-! ## The whole line -/

/-- `-q` and `-v` exclude each other within a scope. -/
def Draft.isConsistent (draft : Draft) : Bool :=
  !(draft.quiet && decide (0 < draft.verbosity))

/-- The command that a scope spells. -/
def commandOf? (scope : Scope) (draft : Draft) : Option Command :=
  match scope, draft.input, draft.profile, draft.stage, draft.operand with
  | .evaluate, some input, some path, none, _ =>
    some (.evaluate input (.file path) (draft.format.getD .json))
  | .evaluate, some input, none, some stage, _ =>
    some (.evaluate input (.stage stage) (draft.format.getD .json))
  | .check, _, _, _, some path => some (.check path)
  | _, _, _, _, _ => none

/-- The general options of both scopes together with the command. -/
def invocationOf? (general : Draft) (scope : Scope) (inner : Draft) :
    Option Invocation :=
  if general.isConsistent && inner.isConsistent then
    (commandOf? scope inner).map fun command =>
      { verbosity :=
          if inner.verbosity = 0 then general.verbosity else inner.verbosity
        quiet := general.quiet || inner.quiet
        root := (inner.root.or general.root).getD "."
        command := command }
  else none

/-- What a list of arguments asks for. -/
def read (arguments : List String) : Request :=
  match readScope .general Draft.empty arguments with
  | .finished _ => .usageError
  | .stopped request => request
  | .entered general scope arguments =>
    match readScope scope Draft.empty arguments with
    | .finished inner =>
      match invocationOf? general scope inner with
      | some invocation => .run invocation
      | none => .usageError
    | .entered _ _ _ => .usageError
    | .stopped request => request

end Arguments

end TournamentScoring
