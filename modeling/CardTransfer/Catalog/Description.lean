import CardTransfer.Catalog.Correspondence
import CardTransfer.Sql.TableName

/-!
# What a correspondence says in text

Labels name fields in messages, `tableNames` gives the qualified names that are replaced in
queries, and `describe` tells the oracle which tables take the place of which, with their columns,
and which tables have no counterpart.
-/

namespace CardTransfer
namespace Correspondence

variable (c : Correspondence)

/-- The name of a field and the qualified name of its table, as well as they are known. -/
def fieldLabel (id : Json) : Json × Json :=
  match c.source.fieldById? id with
  | none => (.str ("field ID " ++ id.shown), .str "")
  | some f => (f.name, ((c.source.tableById? f.table).map (·.qualifiedName)).getD (.str ""))

/-- The fields of the target that may take the place of a field: those of the table that takes the
place of its own. -/
def candidates (id : Json) : Except Fault (List Field) :=
  match c.source.fieldById? id with
  | none => .ok []
  | some f => do
    let target ← ((IdMap.get? c.tables f.table).getD .null).asKey
    return ((c.target.tableById? target).map (·.fields)).getD []

/-- Puts a name under a key, in place if the key is there. -/
def putName (names : Sql.TableNames) (key : String) (name : Json) : Sql.TableNames :=
  match names with
  | [] => [(key, name)]
  | (k, old) :: rest => if k == key then (k, name) :: rest else (k, old) :: putName rest key name

/-- The qualified name of a table with a schema, in lower case, and that of its counterpart. -/
def tableName? (p : Json × Json) : Option (String × Json) := do
  let t ← c.source.tableById? p.1
  let u ← c.target.tableById? p.2
  if t.schema.truthy then
    some (String.ofList (Naming.lowerName t.qualifiedName.shown), u.qualifiedName)
  else none

/-- The qualified names that are replaced in queries. -/
def tableNames : Except Fault Sql.TableNames := do
  let _ ← c.tables.mapM fun p => p.2.asKey
  return (c.tables.filterMap c.tableName?).foldl (fun names p => putName names p.1 p.2) []

/-- The columns of a table with their types. -/
def columns (t : Table) : String :=
  ", ".intercalate (t.fields.map fun f => f.name.shown ++ ":" ++ f.baseType.shown)

/-- A table with its id. -/
def titled (t : Table) : String := t.qualifiedName.shown ++ " (ID: " ++ t.id.shown ++ ")"

/-- The lines about a table and its counterpart. -/
def pairLines (p : Json × Json) : List String :=
  match c.source.tableById? p.1, c.target.tableById? p.2 with
  | some t, some u => [
      "SOURCE TABLE: " ++ titled t, "  Columns: " ++ columns t, "  MAPS TO",
      "TARGET TABLE: " ++ titled u, "  Columns: " ++ columns u, ""]
  | _, _ => []

/-- The lines about a table without counterpart. -/
def unmatchedLines (m : UnmatchedTable) : List String :=
  match c.source.tableById? m.id with
  | some t => [titled t, "  Columns: " ++ columns t]
  | none => []

/-- The correspondence in words, for the oracle. -/
def describe : Except Fault String := do
  let ids ← Ids.sort (IdMap.ids c.tables)
  let pairs := ids.filterMap fun id => (IdMap.get? c.tables id).map fun target => (id, target)
  let _ ← pairs.mapM fun p => p.2.asKey
  return "\n".intercalate (
    ["Source database ID: " ++ c.source.database.shown,
      "Target database ID: " ++ c.target.database.shown, "",
      "=== TABLE MAPPINGS WITH SCHEMAS ===", ""] ++
    pairs.flatMap c.pairLines ++ ["=== UNMAPPED TABLES ==="] ++
    c.unmatchedTables.flatMap c.unmatchedLines)

end Correspondence
end CardTransfer
