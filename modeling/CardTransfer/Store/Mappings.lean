import CardTransfer.Catalog.Mapping
import CardTransfer.Store.Directory

/-!
# Stored mappings

The mappings of tables and those of fields are stored as rows, one list each, in the order of the
source ids. Storing a mapping puts its row in the place of the row with the same source id; rows of
other ids stay as they are, also with members that no mapping has.
-/

namespace CardTransfer
namespace Store

/-- A list of rows: where it is stored, and the member that holds the source id. -/
structure RowFile where
  path : String
  idKey : String

/-- The rows of table mappings. -/
def tableFile : RowFile := ⟨"table_mappings.json", "source_table_id"⟩

/-- The rows of field mappings. -/
def fieldFile : RowFile := ⟨"field_mappings.json", "source_field_id"⟩

namespace RowFile

/-- The stored rows. -/
def rows (file : RowFile) (d : Directory) : Except Fault (List Json) := do
  (← d.readJson file.path (.arr [])).each

/-- Rows by their source ids. -/
def index (file : RowFile) (rows : List Json) : Except Fault (IdMap Json) := do
  let pairs ← rows.mapM fun row => do return (← (← row.require file.idKey).asKey, row)
  return IdMap.ofList pairs

/-- Puts rows in the place of those with the same source ids. -/
def merge (index : IdMap Json) (updates : List (Json × Json)) : Except Fault (IdMap Json) :=
  updates.foldlM (fun m p => do return IdMap.insert m (← p.1.asKey) p.2) index

/-- Stores rows, each given with its source id. -/
def upsert (file : RowFile) (d : Directory) (updates : List (Json × Json)) :
    Except Fault Directory := do
  let index ← file.index (← file.rows d)
  d.writeJson file.path (.arr (← Ids.sortValues (← merge index updates)))

end RowFile

/-- The stored table mappings. -/
def tableMappings (d : Directory) : Except Fault (List TableMapping) := do
  (← tableFile.rows d).mapM TableMapping.ofRow

/-- Stores table mappings. -/
def upsertTables (d : Directory) (mappings : List TableMapping) : Except Fault Directory :=
  tableFile.upsert d (mappings.map fun m => (m.source, m.toRow))

/-- The stored field mappings. -/
def fieldMappings (d : Directory) : Except Fault (List FieldMapping) := do
  (← fieldFile.rows d).mapM FieldMapping.ofRow

/-- Stores a field mapping. -/
def upsertField (d : Directory) (mapping : FieldMapping) : Except Fault Directory :=
  fieldFile.upsert d [(mapping.source, mapping.toRow)]

end Store
end CardTransfer
