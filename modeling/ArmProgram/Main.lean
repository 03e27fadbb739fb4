import ArmProgram.Demo.Basic

/-!
The command line of the demonstration: it reads the file and the environment,
writes the journal to the error stream and the summary to the output.
-/

namespace ArmProgram.Demo

def usage : String :=
  "usage: demo [-h] [--file FILE] [--fast] [-v]\n\n" ++
  "  --file FILE    program as JSON text\n" ++
  "  --fast         no pacing delays\n" ++
  "  -v, --verbose  debug lines in the journal\n"

def obstacleText : Obstacle → String
  | .path .missing path => "no such file: " ++ path
  | .path .folder path => "no file but a folder: " ++ path
  | .path .behindFile path => "behind a file: " ++ path
  | .path .tooLong path => "too long a name: " ++ path
  | .path .nullCharacter path => "a null character in a name: " ++ path
  | .program issues => issueLines .text issues
  | .settings issues => issueLines .decoded issues
  | .refused refusal => refusal.message
  | .unfit unfit => unfit.message
  | .cancelled => "cancelled"
where
  stepText : Input.Step → String
    | .key name => name
    | .index i => toString i
  issueLines (form : Input.Form) (issues : List Input.Issue) : String :=
    "\n".intercalate (issues.map fun issue =>
      ".".intercalate (issue.path.map stepText) ++ ": " ++ issue.defect.message form)

def journalLine (entry : Entry Float) : String :=
  let level := entry.level.name
  level ++ String.ofList (List.replicate (7 - level.length) ' ') ++ " [" ++ entry.source ++ "] "
    ++ entry.message

def readEnvironment : IO (List (String × String)) :=
  Config.fields.filterMapM fun field => do
    let name := Config.variableOf Config.variableStart field
    return (← IO.getEnv name).map (name, ·)

def present (options : Options) : IO UInt32 := do
  let text ← options.file.bindM fun path =>
    try return some (← IO.FS.readFile path) catch _ => return none
  let performance := run options text (← readEnvironment)
  let least : Level := if options.verbose then .debug else .info
  for entry in performance.journal do
    if least.rank ≤ entry.level.rank then IO.eprintln (journalLine entry)
  match performance.outcome with
  | .ok summary =>
      IO.print summary.text
      return if summary.success then 0 else 1
  | .error obstacle =>
      IO.eprintln (obstacleText obstacle)
      return 1

end ArmProgram.Demo

open ArmProgram.Demo in
def main (arguments : List String) : IO UInt32 := do
  match CommandLine.ofArguments arguments with
  | .run options => present options
  | .help =>
      IO.print usage
      return 0
  | .misuse =>
      IO.eprint usage
      return 2
