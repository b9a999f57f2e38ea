import CardTransfer.Cli.Program
import CardTransfer.Cli.Workspace

/-!
# The command line

The program works on the workspace `card-workspace.json` of the current directory. It reads the
workspace and the settings that the arguments name, carries out the command, and writes reports and
the workspace that the command leaves.
-/

namespace CardTransfer
namespace Cli

/-- The path of the workspace. -/
def workspacePath : String := "card-workspace.json"

/-- The text of a file, if it can be read. -/
def readText? (path : String) : IO (Option String) := do
  try return some (← IO.FS.readFile path)
  catch _ => return none

/-- The path of the settings in the arguments, if they fit. -/
def settingsPath? (args : List String) : Option String :=
  match Invocation.ofArguments args with
  | .ok (some i) => some i.settings
  | _ => none

/-- The variables of the environment that settings may come from. -/
def readEnvironment : IO Environment := do
  let found ← Environment.names.mapM fun name => return (← IO.getEnv name).map fun v => (name, v)
  return found.filterMap id

/-- The session that the current directory holds. -/
def readSession : IO (Except Fault Session) := do
  let text := (← readText? workspacePath).getD "\x7b\x7d"
  return Json.parse text >>= Workspace.session

/-- Runs the program in a session. -/
def runProgram (args : List String) (session : Session) : IO UInt32 := do
  let path := settingsPath? args
  let text ← path.bindM readText?
  let files := (path.bind fun p => text.map fun t => (p, t)).toList
  let (r, t) := (execute args).run ⟨session, files, ← readEnvironment, [], []⟩
  IO.print t.output
  for (path, written) in t.reports do IO.FS.writeFile path (written.write .page)
  if path.isSome then
    IO.FS.writeFile workspacePath ((Workspace.ofSession t.session).write .page)
  match r with
  | .ok code => return code.toUInt32
  | .error f =>
    IO.eprintln f.message
    return 1

end Cli
end CardTransfer

/-- Carries out the command that the arguments name. -/
def main (args : List String) : IO UInt32 := do
  match ← CardTransfer.Cli.readSession with
  | .ok session => CardTransfer.Cli.runProgram args session
  | .error f =>
    IO.eprintln f.message
    return 1
