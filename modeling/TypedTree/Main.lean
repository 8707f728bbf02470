/-
The program.

Parses the command line, gets the text that the command needs, and prints. A failure
ends with status 1, a command line that is not understood with status 2.
-/
import TypedTree.CommandLine.Run

open TypedTree

/-- The usual text of a failure to read a file. -/
def failureText : IO.Error → String
  | .noFileOrDirectory .. => "No such file or directory (os error 2)"
  | .permissionDenied _ code _ => "Permission denied (os error " ++ toString code ++ ")"
  | .inappropriateType _ code _ =>
    (if code = 20 then "Not a directory" else "Is a directory") ++
      " (os error " ++ toString code ++ ")"
  | error => toString error

/-- Gets a text. -/
def fetch : Input → IO (Except String String)
  | .none => return .ok ""
  | .inline text => return .ok text
  | .file path => do
    try
      return .ok (← IO.FS.readFile path)
    catch e =>
      return .error (failureText e)
  | .standard => do
    try
      return .ok (← (← IO.getStdin).readToEnd)
    catch e =>
      return .error (failureText e)

/-- Runs a command on the text that it needs. -/
def execute (command : Command) : IO (Except CommandError String) := do
  match ← fetch command.input with
  | .ok text => return command.run text
  | .error reason => return .error (.unreadable command.input reason)

/-- Runs the program. -/
def main (words : List String) : IO UInt32 := do
  match Invocation.parse words with
  | .error e =>
    if e.status = 0 then
      IO.println "Usage: treecast [-v]... <grammars|schema|translate|check> [OPTIONS]"
    else
      IO.eprintln "error: the command line is not understood; try 'treecast --help'"
    return e.status.toUInt32
  | .ok invocation =>
    match ← execute invocation.command with
    | .ok output =>
      IO.print output
      return 0
    | .error e =>
      let report := e.report
      IO.eprintln ("error: " ++ report.text ++ report.detail.getD "")
      return 1
