import CardTransfer.Catalog.Suggestion
import CardTransfer.Cli.Reading

/-!
# Commands

The first operand of the command line names a command; what comes after it is read by the grammar of
that command. Options of the program itself stand before it. Every command takes the path of a
settings file.

| command | options | operands |
| --- | --- | --- |
| `migrate` | `--card`, `--dry-run`, `--force`, `--collection`, `--timeout`, `--output` | |
| `preview` | `--card` | |
| `batch` | `--dry-run`, `--limit`, `--output` | |
| `status`, `suggest-tables`, `check` | | |
| `auto-confirm` | `--threshold` | |
| `map-table`, `map-field` | | source, target |
| `field-candidates` | | source |
| `suggest-field` | `--apply` | source |
-/

namespace CardTransfer
namespace Cli

/-- What the program is asked to do. Numbers, ids and paths are values of the command line: null
where they are left out, and the empty list where they were given up. -/
inductive Command where
  | transfer (card : Json) (dryRun force : Bool) (collection timeout output : Json)
  | preview (card : Json)
  | batch (dryRun : Bool) (limit output : Json)
  | status
  | suggestTables
  | autoConfirm (threshold : Json)
  | mapTable (source target : Json)
  | mapField (source target : Json)
  | fieldCandidates (source : Json)
  | suggestField (source : Json) (apply : Bool)
  | check

/-- A command, and the path of the settings that it is carried out with. -/
structure Invocation where
  settings : String
  command : Command

/-- A command by its name: its grammar, and the command that has been read. -/
structure CommandRule where
  name : String
  options : List OptionRule
  operands : List OperandRule
  build : Parsed → Command

/-- The option that shows the usage. -/
def usageOption : OptionRule := ⟨["-h", "--help"], .usage, false⟩

/-- The option for the path of the settings. -/
def settingsOption : OptionRule := ⟨["--config", "-c"], .value .text, true⟩

/-- The option for a card. -/
def cardOption : OptionRule := ⟨["--card"], .value .integer, true⟩

/-- The option for a dry run. -/
def dryRunOption : OptionRule := ⟨["--dry-run"], .mark, false⟩

/-- The option for the path of a report. -/
def outputOption : OptionRule := ⟨["--output", "-o"], .value .text, false⟩

/-- The grammar of a command. -/
def CommandRule.grammar (r : CommandRule) : Grammar :=
  ⟨usageOption :: settingsOption :: r.options, r.operands⟩

/-- The options of the program itself. -/
def programGrammar : Grammar where
  options := [usageOption, ⟨["--version"], .version, false⟩, ⟨["-v", "--verbose"], .mark, false⟩]
  operands := []

/-- All commands. -/
def commands : List CommandRule :=
  let source : OperandRule := ⟨"source", .integer⟩
  let target : OperandRule := ⟨"target", .integer⟩
  [ ⟨"migrate",
      [cardOption, dryRunOption, ⟨["--force"], .mark, false⟩,
        ⟨["--collection"], .value .integer, false⟩, ⟨["--timeout"], .value .decimal, false⟩,
        outputOption], [],
      fun p => .transfer (p.value "--card") (p.marked "--dry-run") (p.marked "--force")
        (p.value "--collection") (p.value "--timeout") (p.value "--output")⟩,
    ⟨"preview", [cardOption], [], fun p => .preview (p.value "--card")⟩,
    ⟨"batch", [dryRunOption, ⟨["--limit"], .value .integer, false⟩, outputOption], [],
      fun p => .batch (p.marked "--dry-run") (p.value "--limit") (p.value "--output")⟩,
    ⟨"status", [], [], fun _ => .status⟩,
    ⟨"suggest-tables", [], [], fun _ => .suggestTables⟩,
    ⟨"auto-confirm", [⟨["--threshold"], .value .decimal, false⟩], [],
      fun p => .autoConfirm ((p.value? "--threshold").getD (.float usualThreshold))⟩,
    ⟨"map-table", [], [source, target], fun p => .mapTable (p.value "source") (p.value "target")⟩,
    ⟨"map-field", [], [source, target], fun p => .mapField (p.value "source") (p.value "target")⟩,
    ⟨"field-candidates", [], [source], fun p => .fieldCandidates (p.value "source")⟩,
    ⟨"suggest-field", [⟨["--apply"], .mark, false⟩], [source],
      fun p => .suggestField (p.value "source") (p.marked "--apply")⟩,
    ⟨"check", [], [], fun _ => .check⟩]

/-- The usage in one line. -/
def usageText : String :=
  "usage: card-migrator [-h] [--version] [-v] \x7b" ++ ",".intercalate (commands.map (·.name)) ++
    "\x7d ..."

/-- The program with its version. -/
def versionText : String := "card-migrator 0.3.0"

/-- The invocation of a command, from the arguments after its name. -/
def CommandRule.read (r : CommandRule) (args : List String) : Except Exit (Invocation × Bool) := do
  let p ← r.grammar.read args
  return (⟨(p.value "--config").shown, r.build p⟩, p.extra)

/-- Reads the arguments up to the command, and lets it read the others; `extra` tells that there
was an unknown option. -/
def readProgram : List (Argument × String) → (extra : Bool) → Except Exit (Option Invocation)
  | [], extra => if extra then .error .refused else .ok none
  | (.unknown, _) :: rest, _ => readProgram rest true
  | (.divider, _) :: _, _ => .error .refused
  | (.operand name, _) :: rest, extra =>
    match commands.find? (·.name == name) with
    | none => .error .refused
    | some rule => do
      let (invocation, more) ← rule.read (rest.map (·.2))
      if extra || more then throw .refused else return some invocation
  | (.option o used attached, _) :: rest, extra => do
    let c ← programGrammar.clusterOf o used attached none
    let _ ← Grammar.applyAll .empty c.options
    readProgram rest extra

/-- The invocation in the arguments of the program; none if there is no command. -/
def Invocation.ofArguments (args : List String) : Except Exit (Option Invocation) := do
  let arguments ← programGrammar.classifyAll args
  readProgram (arguments.zip args) false

end Cli
end CardTransfer
