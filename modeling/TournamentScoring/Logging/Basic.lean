/-!
# Log lines

A line has a severity, a message and fields.  Which lines are written is decided
by a filter.  How a filter is spelled is the business of the library that logs, so
its reader is handed to whoever needs a filter.
-/

namespace TournamentScoring

inductive Severity
  | error
  | warn
  | info
  | debug
  | trace
deriving DecidableEq

namespace Severity

def name : Severity → String
  | error => "ERROR"
  | warn => "WARN"
  | info => "INFO"
  | debug => "DEBUG"
  | trace => "TRACE"

/-- Graver events have the lower rank. -/
def rank : Severity → Nat
  | error => 0
  | warn => 1
  | info => 2
  | debug => 3
  | trace => 4

end Severity

structure LogLine where
  severity : Severity
  message : String
  fields : List (String × String)
deriving DecidableEq

/-- A line as it is written. -/
def LogLine.text (line : LogLine) : String :=
  let fields := line.fields.map fun field => s!" {field.1}={field.2}"
  line.severity.name ++ " " ++ line.message ++ String.join fields

/-- Which lines are written. -/
structure LogFilter where
  admits : LogLine → Bool

/-- How a text is read as a filter; none if it spells no filter. -/
abbrev LogFilterReader := String → Option LogFilter

namespace LogFilter

def silent : LogFilter where
  admits := fun _ => false

/-- The lines that are at least as grave as the lowest severity. -/
def atLeast (lowest : Severity) : LogFilter where
  admits := fun line => line.severity.rank ≤ lowest.rank

/-- A reader that knows plain levels alone, by a word in any case of its letters or
by its number.  An empty text asks for errors. -/
def ofPlainLevel? : LogFilterReader := fun text =>
  match text.toLower with
  | "off" | "0" => some silent
  | "" | "error" | "1" => some (atLeast .error)
  | "warn" | "2" => some (atLeast .warn)
  | "info" | "3" => some (atLeast .info)
  | "debug" | "4" => some (atLeast .debug)
  | "trace" | "5" => some (atLeast .trace)
  | _ => none

/-- The level in force, `level_for` of the program: `-q` before `-v`, and either
before the configured one. -/
def chosenLevel (verbosity : Nat) (quiet : Bool) (configured : Option String) :
    String :=
  if quiet then "error"
  else
    match verbosity with
    | 0 => configured.getD "warn"
    | 1 => "info"
    | _ => "debug"

/-- The filter in force, as `init` installs it: the environment's if it has a
usable one, or else the chosen level's. -/
def choose (readFilter : LogFilterReader) (environment : Option String)
    (level : String) : Option LogFilter :=
  match environment.bind readFilter with
  | some filter => some filter
  | none => readFilter level

end LogFilter

end TournamentScoring
