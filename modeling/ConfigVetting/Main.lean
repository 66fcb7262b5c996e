import ConfigVetting.CommandLine.Service
import ConfigVetting.Pattern.Engine

/-! # The command line

Arguments, files and lines of the input are read here, and answers written, one on a line.
-/

namespace ConfigVetting.CommandLine

/-- The outcome of an action, or the words of the system for its failure. -/
def attempt {α : Type} (action : IO α) : IO (Except String α) := do
  match ← action.toBaseIO with
  | .ok value => return .ok value
  | .error failure => return .error failure.toString

/-- The files of the system. -/
def systemFiles : FileAccess IO where
  readText path := attempt (IO.FS.readFile path)
  listNames path := attempt do
    return (← (← IO.FS.realPath path).readDir).toList.map IO.FS.DirEntry.fileName

/-- Writes an answer. -/
def writeAnswer (answer : Json) : IO Unit := do
  let output ← IO.getStdout
  output.putStrLn answer.render
  output.flush

/-- Tells a fault and ends with the status of failure. -/
def fail (fault : Fault) : IO UInt32 := do
  IO.eprintln fault.display
  return 1

/-- Answers the lines of the input until it ends. -/
partial def serve (input : IO.FS.Stream) (service : Service) : IO Unit := do
  let line ← input.getLine
  if line.isEmpty then return
  match service.reply line with
  | .passed => serve input service
  | .answered answer service =>
    writeAnswer answer
    serve input service
  | .ended answer => writeAnswer answer

/-- Runs a command. -/
def runCommand : Command → IO UInt32
  | .checkSchema config => do
    match ← (checkSchema systemFiles config).run with
    | .error fault => fail fault
    | .ok summary =>
      writeAnswer summary
      return 0
  | .validate config data => do
    match ← (Service.load systemFiles config data).run with
    | .error fault => fail fault
    | .ok service =>
      serve (← IO.getStdin) service
      return 0

end ConfigVetting.CommandLine

open ConfigVetting.CommandLine in
/-- Does what the arguments ask for. -/
def main (arguments : List String) : IO UInt32 := do
  match parse arguments with
  | .run command => runCommand command
  | .version =>
    IO.println versionText
    return 0
  | .help =>
    IO.println helpText
    return 0
  | .misuse =>
    IO.eprintln helpText
    return 2
