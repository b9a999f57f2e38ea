import CardTransfer.Catalog.NameMatch
import CardTransfer.Json.Access
import CardTransfer.Json.Number

/-!
# Catalogs

A catalog lists the tables of a database with their fields. Tables and fields are named by ids; a
table also by its qualified name, which is schema and name with a dot between them, or the name
alone where there is no schema.

Names, schemas and types are texts as a rule. A catalog keeps whatever a payload gives for them, and
only what has to be compared in lower case must be a text then.
-/

namespace CardTransfer

/-- A field of a table. -/
structure Field where
  id : Json
  name : Json
  display : Json
  baseType : Json
  table : Json
  deriving Inhabited

/-- A table with its fields. -/
structure Table where
  id : Json
  name : Json
  schema : Json
  display : Json
  fields : List Field
  deriving Inhabited

/-- The tables of a database. -/
structure Catalog where
  database : Json
  tables : List Table
  deriving Inhabited

/-- The value under a key; the empty text if a condition takes it for false. -/
def nameIn (v : Json) (key : String) : Except Fault Json := do
  return (← v.find key).orElse (.str "")

namespace Naming

/-- The text of a name that is compared in lower case; empty for what a condition takes for false. -/
def textOf (name : Json) : Except Fault String := (name.orElse (.str "")).textFor "lower"

/-- The naming that a name and a display name make. -/
def ofNames (name display : Json) : Except Fault Naming := do
  return ⟨← textOf name, ← textOf display⟩

/-- A name in lower case, without blanks and underscores. -/
def normalized (name : Json) : Except Fault (List Char) := do
  return normalize (← textOf name)

end Naming

namespace Field

/-- The name and display name of a field. -/
def naming (f : Field) : Except Fault Naming := Naming.ofNames f.name f.display

/-- The field that a payload describes. -/
def ofPayload (table payload : Json) : Except Fault Field := do
  return {
    id := ← payload.require "id"
    name := ← nameIn payload "name"
    display := ← nameIn payload "display_name"
    baseType := ← nameIn payload "base_type"
    table := ← table.require "id" }

end Field

namespace Table

/-- The name and display name of a table. -/
def naming (t : Table) : Except Fault Naming := Naming.ofNames t.name t.display

/-- Schema and name, or the name alone. -/
def qualifiedName (t : Table) : Json :=
  if t.schema.truthy then .str (t.schema.shown ++ "." ++ t.name.shown) else t.name

/-- The table that a payload describes. -/
def ofPayload (payload : Json) : Except Fault Table := do
  let rows ← ((← payload.find "fields").orElse (.arr [])).each
  let fields ← rows.mapM (Field.ofPayload payload)
  return {
    id := ← payload.require "id"
    name := ← nameIn payload "name"
    schema := ← nameIn payload "schema"
    display := ← nameIn payload "display_name"
    fields }

end Table

namespace Catalog

/-- The catalog that the description of a database gives. -/
def ofPayload (database payload : Json) : Except Fault Catalog := do
  let rows ← ((← payload.find "tables").orElse (.arr [])).each
  return ⟨database, ← rows.mapM Table.ofPayload⟩

/-- The first table with an id. -/
def table? (c : Catalog) (id : Json) : Option Table := c.tables.find? (·.id.same id)

/-- The fields of all tables. -/
def fields (c : Catalog) : List Field := c.tables.flatMap (·.fields)

/-- The last field of each id. -/
def fieldIndex (c : Catalog) : Except Fault (IdMap Field) := do
  return IdMap.ofList (← c.fields.mapM fun f => return (← f.id.asKey, f))

end Catalog
end CardTransfer
