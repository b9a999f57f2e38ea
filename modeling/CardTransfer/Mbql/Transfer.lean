import CardTransfer.Catalog.Description
import CardTransfer.Mbql.IdUse

/-!
# Transferring structured queries

A structured query is transferred by replacing its database and its ids: tables and fields by their
counterparts, cards by those that take their places. An id without counterpart stays as it is and
is a gap; so is a database that is neither the source nor the target. Every gap gives one warning,
in the order in which the ids are used. Tables and fields without counterpart are listed once each,
cards as often as they are used.
-/

namespace CardTransfer

/-- A structured query after its transfer, with the gaps. -/
structure StructuredTransfer where
  query : Members
  warnings : List String
  unmatchedTables : List UnmatchedTable
  unmatchedFields : List UnmatchedField
  unresolvedCards : Ids

namespace StructuredTransfer

/-- Whether every table and field has a counterpart. -/
def complete (t : StructuredTransfer) : Bool :=
  t.unmatchedTables.isEmpty && t.unmatchedFields.isEmpty

variable (c : Correspondence) (cards : IdMap Json)

/-- What takes the place of each id; an id without counterpart stays. -/
def change : IdChange where
  table id := (c.resolveTable id).getD id
  card id := ((IdMap.get? cards id).bind Json.toOption).getD id
  field id := (c.resolveField id).getD id

/-- Whether what is used has no counterpart. -/
def isGap : IdUse → Bool
  | .table id => (c.resolveTable id).isNone
  | .card id => ((IdMap.get? cards id).bind Json.toOption).isNone
  | .field id => (c.resolveField id).isNone
  | .sourceField id => (c.resolveField id).isNone

/-- A field without counterpart in a warning. -/
def fieldWarning (role : String) (id : Json) : String :=
  let (name, table) := c.fieldLabel id
  let label := if table.truthy then table.shown ++ "." ++ name.shown else name.shown
  "Could not map " ++ role ++ label ++ " (id " ++ id.shown ++ ")"

/-- The warning for a gap. -/
def warning : IdUse → String
  | .table id => "Could not map table ID " ++ id.shown
  | .card id => "Could not map nested card ID " ++ id.shown
  | .field id => fieldWarning c "" id
  | .sourceField id => fieldWarning c "source-field " id

/-- The table of a gap, if it is one of a table. -/
def tableOf? : IdUse → Option Json
  | .table id => some id
  | _ => none

/-- The card of a gap, if it is one of a card. -/
def cardOf? : IdUse → Option Json
  | .card id => some id
  | _ => none

/-- The field of a gap, if it is one of a field. -/
def fieldOf? : IdUse → Option Json
  | .field id => some id
  | .sourceField id => some id
  | _ => none

/-- A table without counterpart. -/
def unmatchedTable (id : Json) : UnmatchedTable :=
  match c.source.tableById? id with
  | some t => ⟨id, t.name, t.schema⟩
  | none => ⟨id, .str ("table ID " ++ id.shown), .str ""⟩

/-- A field without counterpart. -/
def unmatchedField (id : Json) : UnmatchedField :=
  let (name, table) := c.fieldLabel id
  ⟨id, name, table, ((c.source.fieldById? id).map (·.table)).getD .null⟩

/-- The database of a query after its transfer, and a warning if it was another than expected. -/
def transferDatabase (source target : Int) (database : Json) : Json × List String :=
  if database.sameId (.int source) then (.int target, [])
  else if database.sameId (.int target) then (database, [])
  else (database, ["Query uses database " ++ database.shown ++ ", expected source database "
    ++ Text.ofInt source])

/-- Transfers a structured query. -/
def ofQuery (source target : Int) (query : Members) : StructuredTransfer :=
  let q := StructuredQuery.ofMembers query
  let (database, warned) := transferDatabase source target q.database
  let gaps := q.query.idUses.filter (isGap c cards)
  { query := ({ q with database, query := q.query.mapIds (change c cards) }).toMembers
    warnings := warned ++ gaps.map (warning c)
    unmatchedTables := (Ids.distinct (gaps.filterMap tableOf?)).map (unmatchedTable c)
    unmatchedFields := (Ids.distinct (gaps.filterMap fieldOf?)).map (unmatchedField c)
    unresolvedCards := gaps.filterMap cardOf? }

end StructuredTransfer
end CardTransfer
