import CardTransfer.Card.Basic
import CardTransfer.Catalog.Correspondence

/-!
# Outcomes

The transfer of a card succeeds or fails, and so does that of each card that it depends on and that
was transferred on the way. An outcome is the tree of all these reports. Where a card fails because
one that it depends on did, the last of them is the cause, for none is tried after it.

| failure | why |
| --- | --- |
| `circular` | the card refers to itself, directly or through others |
| `unavailable` | the card cannot be fetched |
| `dependency` | a card that it depends on was not transferred |
| `unmatchedTable`, `unmatchedField` | a table or field has no counterpart |
| `unrendered` | the native query could not be rendered |
| `target` | the target refused the new card |
| `timeout` | the deadline has passed |
| `unknown` | anything else |
-/

namespace CardTransfer

/-- Why a card was not transferred. -/
inductive FailureKind where
  | circular
  | unavailable
  | dependency
  | unmatchedTable
  | unmatchedField
  | unrendered
  | target
  | timeout
  | unknown
  deriving DecidableEq, Repr

namespace FailureKind

/-- The name of a kind of failure. -/
def text : FailureKind → String
  | circular => "CircularDependency"
  | unavailable => "SourceUnavailable"
  | dependency => "DependencyNotMigrated"
  | unmatchedTable => "MissingMappingTable"
  | unmatchedField => "MissingMappingField"
  | unrendered => "TranslationFailed"
  | target => "TargetApiError"
  | timeout => "Timeout"
  | unknown => "Unknown"

end FailureKind

/-- How a card came to have a counterpart. -/
inductive Success where
  | now
  | before
  deriving DecidableEq, Repr

/-- The report about a card that has a counterpart, or would have one but for a dry run. -/
structure Transferred where
  card : Json
  name : Json
  success : Success
  source : Members
  result : Option Members
  newId : Option Json
  url : Option String
  dryRun : Json
  verified : Bool
  warnings : List String

/-- The report about a card that was not transferred. -/
structure Failure where
  card : Json
  kind : FailureKind
  message : String
  name : Json
  source : Option Members
  result : Option Members
  warnings : List String
  unmatchedTables : List UnmatchedTable
  unmatchedFields : List UnmatchedField
  /-- Whether the last of the cards that it depends on is the cause. -/
  caused : Bool

/-- The report about a card. -/
inductive Report where
  | transferred (t : Transferred)
  | failed (f : Failure)

/-- The report about a card, and the outcomes for the cards that were transferred for it. -/
inductive Outcome where
  | mk (report : Report) (providers : List Outcome)

namespace Report

/-- The card that a report is about. -/
def card : Report → Json
  | transferred t => t.card
  | failed f => f.card

/-- The name of the card. -/
def name : Report → Json
  | transferred t => t.name
  | failed f => f.name

/-- Whether the card was transferred. -/
def ok : Report → Bool
  | transferred _ => true
  | failed _ => false

/-- The query as it was, if the card could be fetched. -/
def source : Report → Option Members
  | transferred t => some t.source
  | failed f => f.source

/-- The query as it became, if it came to that. -/
def result : Report → Option Members
  | transferred t => t.result
  | failed f => f.result

/-- The warnings. -/
def warnings : Report → List String
  | transferred t => t.warnings
  | failed f => f.warnings

/-- The failure that a report tells, if it does. -/
def failure? : Report → Option Failure
  | transferred _ => none
  | failed f => some f

/-- The success that a report tells, if it does. -/
def transferred? : Report → Option Transferred
  | transferred t => some t
  | failed _ => none

/-- The status of a card in a word. -/
def status : Report → String
  | transferred t => match t.success with
    | .now => "ok"
    | .before => "already_migrated"
  | failed _ => "failed"

end Report

namespace Failure

/-- A failure of a card that has not been fetched. -/
def unfetched (card : Json) (kind : FailureKind) (message : String) : Failure where
  card
  kind
  message
  name := .str ""
  source := none
  result := none
  warnings := []
  unmatchedTables := []
  unmatchedFields := []
  caused := false

/-- A failure of a fetched card. -/
def fetched (id : Json) (card : Card) (kind : FailureKind) (message : String) : Failure :=
  { unfetched id kind message with name := card.name, source := some card.query }

end Failure

/-! ### As documents -/

/-- A table without counterpart as a document. -/
def UnmatchedTable.toJson (t : UnmatchedTable) : Json := .obj [
  ("source_table_id", t.id), ("source_table_name", t.name), ("schema", t.schema)]

/-- A field without counterpart as a document. -/
def UnmatchedField.toJson (f : UnmatchedField) : Json := .obj [
  ("source_field_id", f.id), ("source_field_name", f.name),
  ("source_table_name", f.tableName), ("source_table_id", f.table)]

/-- Texts as a document. -/
def textList (texts : List String) : Json := .arr (texts.map .str)

/-- Members that may be missing as a document. -/
def orNull (ms : Option Members) : Json := (ms.map Json.obj).getD .null

namespace Report

/-- A report as a document, given those of the cards that were transferred for it. -/
def toJson (providers : List Json) : Report → Json
  | r@(transferred t) => .obj [
    ("status", .str r.status), ("card_id", t.card), ("card_name", t.name),
    ("new_card_id", Json.ofOption t.newId), ("card_url", Json.ofOption (t.url.map .str)),
    ("dry_run", t.dryRun), ("verified", .bool t.verified),
    ("warnings", textList t.warnings), ("original_query", .obj t.source),
    ("migrated_query", orNull t.result), ("dependencies", .arr providers)]
  | r@(failed f) => .obj [
    ("status", .str r.status), ("card_id", f.card), ("card_name", f.name),
    ("error_kind", .str f.kind.text), ("message", .str f.message),
    ("warnings", textList f.warnings),
    ("unmatched_tables", .arr (f.unmatchedTables.map UnmatchedTable.toJson)),
    ("unmatched_fields", .arr (f.unmatchedFields.map UnmatchedField.toJson)),
    ("original_query", orNull f.source), ("migrated_query", orNull f.result),
    ("cause", if f.caused then Json.ofOption providers.getLast? else .null),
    ("dependencies", .arr providers)]

end Report

namespace Outcome

/-- The report about the card itself. -/
def report : Outcome → Report
  | mk r _ => r

/-- The outcomes for the cards that were transferred for it. -/
def providers : Outcome → List Outcome
  | mk _ ps => ps

/-- Whether the card was transferred. -/
def ok (o : Outcome) : Bool := o.report.ok

mutual

/-- An outcome as a document. -/
def toJson : Outcome → Json
  | mk r ps => r.toJson (listToJson ps)

/-- Outcomes as documents. -/
def listToJson : List Outcome → List Json
  | [] => []
  | o :: os => toJson o :: listToJson os

end

mutual

/-- All reports of an outcome, that of each card after those of the cards that were transferred for
it. -/
def reports : Outcome → List Report
  | mk r ps => listReports ps ++ [r]

/-- All reports of some outcomes in turn. -/
def listReports : List Outcome → List Report
  | [] => []
  | o :: os => reports o ++ listReports os

end

mutual

/-- The cause of a failure, its cause, and so on. -/
def causes : Outcome → List Failure
  | mk (.failed f) ps => if f.caused then lastCauses ps else []
  | mk (.transferred _) _ => []

/-- The failure of the last of some outcomes, its cause, and so on. -/
def lastCauses : List Outcome → List Failure
  | [] => []
  | [o] => o.report.failure?.toList ++ causes o
  | _ :: o :: os => lastCauses (o :: os)

end

/-- The last report of an outcome is that of the card itself. -/
@[simp] theorem getLast?_reports (o : Outcome) : o.reports.getLast? = some o.report := by
  cases o
  simp [reports, report]

/-- The reports of outcomes in a row are those of each in turn. -/
theorem listReports_eq (os : List Outcome) : listReports os = os.flatMap reports := by
  induction os with
  | nil => rfl
  | cons o os ih => simp [listReports, ih]

end Outcome

/-- The outcome of a failure. -/
def Failure.outcome (f : Failure) (providers : List Outcome) : Outcome := .mk (.failed f) providers

/-- The outcome of a success. -/
def Transferred.outcome (t : Transferred) (providers : List Outcome) : Outcome :=
  .mk (.transferred t) providers

end CardTransfer
