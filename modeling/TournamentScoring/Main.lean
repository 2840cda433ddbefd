import TournamentScoring.CommandLine.Run

/-!
# The program

The thin outer layer: it looks at the real files, prints what a run has to show
and ends with its exit code.
-/

namespace TournamentScoring

/-- Looks at a path among the real files.  The system reports `21` where a
directory is read as a file, and `13` where a file may not be read; after any
other failure there is nothing to see. -/
def lookAtFiles : Lookup IO := fun path => do
  try
    return .file (← IO.FS.readBinFile path)
  catch error =>
    match error with
    | .inappropriateType _ 21 _ => return .directory
    | .permissionDenied _ 13 details =>
      return .unreadable s!"{details} (os error 13)"
    | _ => return .absent

def showResponse (response : Response) : IO UInt32 := do
  for line in response.log do
    IO.eprintln line.text
  match response.errorText? with
  | some message => IO.eprintln s!"error: {message}"
  | none => IO.print response.output
  return UInt32.ofNat response.exitCode

def serve (arguments : List String) : IO UInt32 := do
  match Arguments.read arguments with
  | .version =>
    IO.print versionText
    return 0
  | .help =>
    IO.print helpText
    return 0
  | .usageError =>
    IO.eprint helpText
    return 2
  | .run invocation =>
    let environment : Environment :=
      { home := ← IO.getEnv "HOME", logFilter := ← IO.getEnv "RUST_LOG" }
    showResponse (← invocation.run lookAtFiles environment)

end TournamentScoring

def main (arguments : List String) : IO UInt32 :=
  TournamentScoring.serve arguments
