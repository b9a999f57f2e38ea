import CardTransfer.Card.State
import CardTransfer.Catalog.FieldChoice
import CardTransfer.Catalog.Suggestion
import CardTransfer.Decimal.Binary64
import CardTransfer.Json.Printer
import CardTransfer.Transfer.Summary

/-!
# What the program prints

Results are printed in sections, each under a title between two rules. Lines below a title are
indented by two spaces.
-/

namespace CardTransfer
namespace Cli

/-- The rule above and below a title. -/
def rule : String := String.ofList (List.replicate 50 '=')

/-- The head of a section, after an empty line. -/
def banner (title : String) : List String := ["\n" ++ rule, title, rule]

/-- The lines about a success. -/
def successLines (t : Transferred) : List String :=
  (t.newId.map fun id => "  New card:  " ++ id.shown).toList ++
  ((t.url.filter fun u => !u.isEmpty).map fun u => "  URL:       " ++ u).toList ++
  (if t.dryRun.truthy then ["  Dry run:   no card was created"]
    else if t.verified then []
    else ["  ! Card was created but did not run cleanly"])

/-- A failure in a line. -/
def failureText (f : Failure) : String := f.kind.text ++ ": " ++ f.message

/-- The line about a cause. -/
def causeLine (f : Failure) : String := "  Caused by: card " ++ f.card.shown ++ " " ++ failureText f

/-- The line about a table without counterpart. -/
def unmatchedTableLine (t : UnmatchedTable) : String :=
  "  Unmapped table: " ++ t.name.shown ++ " (id=" ++ t.id.shown ++ ")"

/-- The line about a field without counterpart. -/
def unmatchedFieldLine (f : UnmatchedField) : String :=
  "  Unmapped field: " ++ f.tableName.shown ++ "." ++ f.name.shown ++ " (id=" ++ f.id.shown ++ ")"

/-- The lines about a failure, given its causes. -/
def failureLines (causes : List Failure) (f : Failure) : List String :=
  ("  Error:     " ++ failureText f) :: causes.map causeLine ++
    f.unmatchedTables.map unmatchedTableLine ++ f.unmatchedFields.map unmatchedFieldLine

/-- The section of warnings, unless there are none. -/
def warningLines (warnings : List String) : List String :=
  if warnings.isEmpty then [] else banner "WARNINGS" ++ warnings.map ("  !  " ++ ·)

/-- The sections about an outcome. -/
def outcomeLines (o : Outcome) : List String :=
  banner "MIGRATION RESULT" ++
  ["  Card:      " ++ o.report.name.shown ++ " (id=" ++ o.report.card.shown ++ ")",
    "  Status:    " ++ o.report.status] ++
  (match o.report with
    | .transferred t => successLines t
    | .failed f => failureLines o.causes f) ++
  warningLines o.report.warnings

/-- The sections about the query of a card, before and after. -/
def previewLines (o : Outcome) : List String :=
  banner "ORIGINAL QUERY" ++ [(orNull o.report.source).write .page] ++
  (match o.report.result with
    | none => []
    | some query => banner "MIGRATED QUERY" ++ [(Json.obj query).write .page])

/-- The line about a failure in a batch. -/
def batchFailureLine (f : Failure) : String :=
  "  ✗ " ++ f.name.shown ++ " (id=" ++ f.card.shown ++ "): " ++ f.kind.text

/-- A line with a label and a count. -/
def countLine (label : String) (n : Nat) : String := label ++ Text.ofInt n

/-- The section about a batch. -/
def batchLines (os : List Outcome) : List String :=
  let s := Summary.ofOutcomes os
  banner "BATCH RESULTS" ++
  [countLine "  Cards attempted:   " s.total, countLine "  Migrated:          " s.transferred,
    countLine "  Already migrated:  " s.before, countLine "  Unverified:        " s.unverified,
    countLine "  Failed:            " s.failed] ++
  (os.filterMap fun o => o.report.failure?).map batchFailureLine

/-- A text with blanks after it, up to a width. -/
def padEnd (width : Nat) (s : String) : String :=
  s ++ String.ofList (List.replicate (width - s.length) ' ')

/-- A text with blanks before it, up to a width. -/
def padStart (width : Nat) (s : String) : String :=
  String.ofList (List.replicate (width - s.length) ' ') ++ s

/-- Ids on one line. -/
def idLine (ids : Ids) : String := ", ".intercalate (ids.map Json.shown)

/-- The section about the states of cards, and the cards on hold. -/
def stateLines (states : IdMap CardState) (held : Ids) : List String :=
  banner "CARD STATUS" ++
  (CardState.all.map fun s =>
    "  " ++ padEnd 12 s.text ++ " " ++ Text.ofInt (states.countP fun p => p.2 == s)) ++
  (if held.isEmpty then [] else ["\n  On hold: " ++ idLine held])

/-- Texts on one line. -/
def textLine (v : Json) : Except Fault String := do
  Json.joined ", " (← v.each)

/-- The lines about a card that waits. -/
def waitingLines (w : WaitingCard) : Except Fault (List String) := do
  let head := "  " ++ w.name.shown ++ " (id=" ++ w.card.shown ++ "): " ++ w.kind.shown ++ " - "
    ++ w.reason.shown
  if w.missingTables.truthy then
    return [head, "    missing tables: " ++ (← textLine w.missingTables)]
  else return [head]

/-- A score as a percentage, at most 100. -/
def scorePercent (score : Json) : String :=
  match score with
  | .float x => Decimal.percent (confidenceOf x)
  | other => other.shown

/-- A double as a percentage; no other value can be shown as one. -/
def percentOf (v : Json) : Except Fault String :=
  match v with
  | .float x => .ok (Decimal.percent x)
  | other => .error (.badType ("unsupported format string passed to " ++ other.kindName
      ++ ".__format__"))

/-- The lines about a suggested mapping. -/
def suggestionLines (m : TableMapping) : List String :=
  match m.suggested.toOption with
  | none => ["  " ++ m.sourceName.shown ++ " -> (no candidate)"]
  | some _ =>
    ("  " ++ m.sourceName.shown ++ " -> " ++ m.suggestedName.shown ++ " (" ++
      Decimal.percent m.confidence ++ ")") ::
    (m.alternatives.drop 1).map fun a =>
      "      alt: " ++ a.name.shown ++ " (" ++ scorePercent a.score ++ ")"

/-- A text, or an id where it is empty. -/
def nameOrId (name id : Json) : String := (name.orElse id).shown

/-- An id in a column; nothing cannot be shown there. -/
def idColumn (id : Json) : Except Fault String :=
  match id with
  | .bool b => .ok (padStart 6 (if b then "1" else "0"))
  | .null => .error (.badType "unsupported format string passed to NoneType.__format__")
  | other => .ok (padStart 6 other.shown)

/-- The line about a field that may be chosen. -/
def candidateLine (f : Field) : Except Fault String := do
  return "  " ++ (← idColumn f.id) ++ "  " ++ f.name.shown ++ " ("
    ++ FieldChoice.orText f.baseType "unknown" ++ ")"

/-- The line about a choice. -/
def choiceLine (c : FieldChoice) : String :=
  "Field " ++ c.source.shown ++ " -> " ++ c.target.shown ++ " (" ++ Decimal.percent c.score ++ ", "
    ++ c.method.text ++ "): " ++ c.reason

end Cli
end CardTransfer
