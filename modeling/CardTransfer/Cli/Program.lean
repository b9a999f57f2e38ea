import CardTransfer.Catalog.Suggestion
import CardTransfer.Cli.Command
import CardTransfer.Cli.Layout
import CardTransfer.Session.Mappings
import CardTransfer.Settings.Reader
import CardTransfer.Transfer.Batch

/-!
# The program

A command reads its settings, loads the catalogs anew, does its work in the session and prints what
came of it. The exit code is 0 for success, 1 for failure and 2 for arguments that do not fit. A
fault that no command deals with ends the program; what has been printed and done stays.

Only `check` deals with faults: it prints those of the settings and of Metabase.
-/

namespace CardTransfer
namespace Cli

/-- Where a program runs: the session, files that can be read and variables that are set; what has
been printed, line by line, and the reports that have been written. -/
structure Terminal where
  session : Session
  files : List (String × String)
  environment : Environment
  lines : List String
  reports : List (String × Json)

/-- Steps of the program. -/
abbrev Console (α : Type) := Steps Terminal α

variable {α : Type}

/-- Prints lines. -/
def print (lines : List String) : Console Unit :=
  modify fun t => { t with lines := t.lines ++ lines }

/-- What has been printed, as text. -/
def Terminal.output (t : Terminal) : String := String.join (t.lines.map (· ++ "\n"))

/-- An action in the session. -/
def act (action : Action α) : Console α := ExceptT.mk fun t =>
  let (r, session) := action.run t.session
  (r, { t with session })

/-- The fault of a file that does not exist. -/
def noFile (path : String) : Fault :=
  .fileSystem "FileNotFoundError" ("[Errno 2] No such file or directory: " ++ Text.quoted path)

/-- The settings in a file. -/
def readSettings (path : String) : Console Settings := do
  let t ← get
  match t.files.lookup path with
  | some text => Steps.ofExcept (Settings.ofText t.environment text)
  | none => throw (if Directory.isPlace path then Directory.isADirectory path else noFile path)

/-- Works with settings from now on. -/
def useSettings (settings : Settings) : Console Unit := act do
  modify fun s => { s with settings }
  Session.load

/-- Writes a report to a path; none if a condition takes the path for false. -/
def writeReport (path report : Json) : Console Unit := do
  if let some p := path.str?.filter (· != "") then
    if Directory.isPlace p then throw (Directory.isADirectory p)
    modify fun t => { t with reports := t.reports ++ [(p, report)] }

/-- The exit code for success or failure. -/
def codeOf (ok : Bool) : Nat := if ok then 0 else 1

/-- Transfers a card. -/
def transferCommand (r : Session.Request) (output : Json) : Console Nat := do
  let o ← act (Session.transfer r)
  print (outcomeLines o)
  if output.truthy then writeReport output (← act (Session.report [o]))
  return codeOf o.ok

/-- Shows what a transfer of a card would give. -/
def previewCommand (card : Json) : Console Nat := do
  let o ← act (Session.transfer (.usual card))
  print (outcomeLines o ++ previewLines o)
  return codeOf o.ok

/-- Transfers all ready cards. -/
def batchCommand (dryRun : Bool) (limit output : Json) : Console Nat := do
  let os ← act (Session.transferAll (.bool dryRun) limit)
  writeReport output (← act (Session.report os))
  print (batchLines os)
  return codeOf ((Summary.ofOutcomes os).failed == 0)

/-- Shows the states of cards and the waiting area. -/
def statusCommand : Console Nat := do
  let states ← act Session.allStates
  let held ← act Session.onHold
  print (stateLines states held)
  let waiting ← act (Session.readStore WaitingArea.cards)
  if !waiting.isEmpty then print (banner "WAITING AREA")
  for w in waiting do print (← Steps.ofExcept (waitingLines w))
  return 0

/-- Suggests mappings of tables. -/
def suggestTablesCommand : Console Nat := do
  let suggested ← act Session.suggestTables
  print (banner "TABLE SUGGESTIONS" ++ suggested.flatMap suggestionLines)
  return 0

/-- Confirms suggestions above a threshold. -/
def autoConfirmCommand (threshold : Json) : Console Nat := do
  let confirmed ← act (Session.autoConfirm threshold)
  print ["Confirmed " ++ Text.ofInt confirmed.length ++ " table mappings above "
    ++ (← Steps.ofExcept (percentOf threshold))]
  return 0

/-- Sets the mapping of a table. -/
def mapTableCommand (source target : Json) : Console Nat := do
  let m ← act (Session.setTable source target)
  print ["Mapped table " ++ nameOrId m.sourceName source ++ " -> "
    ++ nameOrId m.suggestedName target]
  return 0

/-- Sets the mapping of a field. -/
def mapFieldCommand (source target : Json) : Console Nat := do
  let m ← act (Session.setField source target .manual (.float 1.0))
  print ["Mapped field " ++ nameOrId m.sourceName source ++ " -> "
    ++ nameOrId m.suggestedName target]
  return 0

/-- Lists the fields that may take the place of a field. -/
def fieldCandidatesCommand (source : Json) : Console Nat := do
  let source ← Steps.ofExcept source.asKey
  let c := (← get).session.correspondence
  let (name, table) := c.fieldLabel source
  match ← Steps.ofExcept (c.candidates source) with
  | [] => do
    print ["No candidates for " ++ name.shown ++ " (is its table mapped?)"]
    return 1
  | candidates => do
    let title := if table.truthy then table.shown ++ "." ++ name.shown else name.shown
    print (banner ("CANDIDATES FOR " ++ title))
    for f in candidates do print [← Steps.ofExcept (candidateLine f)]
    return 0

/-- Suggests a target for a field, and saves it if that is wanted. -/
def suggestFieldCommand (source : Json) (apply : Bool) : Console Nat := do
  match ← act (Session.suggestField source) with
  | none => do
    print ["No suggestion for field " ++ source.shown]
    return 1
  | some choice => do
    print [choiceLine choice]
    if apply then
      let _ ← act (Session.setField choice.source choice.target choice.method (.float choice.score))
      print ["Mapping saved"]
    return 0

/-- Whether a fault of the settings is dealt with. -/
def isSettingsFault : Fault → Bool
  | .settings _ => true
  | f => f.isSystem

/-- Whether a fault of Metabase is dealt with. -/
def isConnectionFault (f : Fault) : Bool := f.isMetabase || f.isBadValue || f.isSystem

/-- Checks that Metabase can be reached and describes a database. -/
def checkDatabase (label : String) (database : Int) : Console Unit := do
  let c ← act (Session.call (Metabase.Instance.getSchema database))
  print ["OK " ++ label ++ " database " ++ Text.ofInt database ++ ": "
    ++ Text.ofInt c.tables.length ++ " tables"]

/-- Checks the connection to Metabase. -/
def checkConnection (settings : Settings) : Console Unit := do
  let user ← act (Session.call Metabase.Instance.validate)
  let members ← Steps.ofExcept ((user.orElse (.obj [])).membersFor "get")
  print ["OK Metabase connected as "
    ++ ((Members.get? members "email").getD (.str "unknown")).shown]
  checkDatabase "Source" settings.sourceDatabase
  checkDatabase "Target" settings.targetDatabase

/-- What is said about the oracle. -/
def oracleLine (settings : OracleSettings) : String :=
  if settings.apiKey.truthy then "OK Oracle configured (" ++ settings.model.shown ++ ")"
  else "!  No GEMINI_API_KEY: native cards needing translation will fail"

/-- Prints a fault that is dealt with; the command has failed. -/
def report (isExpected : Fault → Bool) (head : String) (f : Fault) : Console Nat := do
  if isExpected f then
    print [head ++ f.text]
    return 1
  else throw f

/-- Checks settings and connections. -/
def checkCommand (path : String) : Console Nat := do
  match ← (readSettings path).outcome with
  | .error f => report isSettingsFault "FAIL Config error: " f
  | .ok settings => do
    print ["OK Config loaded from " ++ path]
    match ← (checkConnection settings).outcome with
    | .error f => report isConnectionFault "FAIL Metabase connection error: " f
    | .ok () => do
      print [oracleLine settings.oracle, "\nOK All checks passed. Ready to migrate."]
      return 0

/-- Carries out an invocation; answers the exit code. -/
def invoke (i : Invocation) : Console Nat :=
  let work (command : Console Nat) : Console Nat := do
    useSettings (← readSettings i.settings)
    command
  match i.command with
  | .transfer card dryRun force collection timeout output =>
    work <| transferCommand {
      card, dryRun := .bool dryRun, force, collection, timeout, visited := .null } output
  | .preview card => work (previewCommand card)
  | .batch dryRun limit output => work (batchCommand dryRun limit output)
  | .status => work statusCommand
  | .suggestTables => work suggestTablesCommand
  | .autoConfirm threshold => work (autoConfirmCommand threshold)
  | .mapTable source target => work (mapTableCommand source target)
  | .mapField source target => work (mapFieldCommand source target)
  | .fieldCandidates source => work (fieldCandidatesCommand source)
  | .suggestField source apply => work (suggestFieldCommand source apply)
  | .check => checkCommand i.settings

/-- Carries out what the arguments ask for; answers the exit code. -/
def execute (args : List String) : Console Nat := do
  match Invocation.ofArguments args with
  | .ok (some i) => invoke i
  | .ok none => do
    print [usageText]
    return 1
  | .error .usage => do
    print [usageText]
    return 0
  | .error .version => do
    print [versionText]
    return 0
  | .error .refused => return 2

end Cli
end CardTransfer
