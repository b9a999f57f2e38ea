import CardTransfer.Json.Access

/-!
# Cards

A card is a saved question: a name, a query against one database, and how its result is drawn. The
query is a document of one of two kinds, told by its `type`: `query`, a tree of clauses, or
`native`, a text in SQL. A query of any other type can be stored but not transferred.

| part | where it is missing, null or empty |
| --- | --- |
| `name` | `Card`, a blank and the id |
| `dataset_query`, `visualization_settings` | the empty object |
| `display` | `table` |
-/

namespace CardTransfer

/-- How a query is written. -/
inductive QueryKind where
  | structured
  | native
  deriving DecidableEq, Repr

namespace QueryKind

/-- The `type` of a query of this kind. -/
def text : QueryKind → String
  | structured => "query"
  | native => "native"

/-- The kind that a `type` tells. -/
def ofJson? : Json → Option QueryKind
  | .str "query" => some structured
  | .str "native" => some native
  | _ => none

/-- A kind is told by its own text. -/
@[simp] theorem ofJson?_text (k : QueryKind) : ofJson? (.str k.text) = some k := by
  cases k <;> rfl

end QueryKind

/-- A card, as Metabase describes it. -/
structure Card where
  id : Json
  name : Json
  query : Members
  description : Json
  display : Json
  settings : Json
  collection : Json
  deriving Inhabited

namespace Card

/-- The card that a payload describes. -/
def ofPayload (payload : Json) : Except Fault Card := do
  let query ← payload.find "dataset_query"
  let id ← payload.require "id"
  let members ← (query.orElse (.obj [])).membersFor "get"
  return {
    id
    name := (← payload.find "name").orElse (.str ("Card " ++ id.shown))
    query := members
    description := ← payload.find "description"
    display := (← payload.find "display").orElse (.str "table")
    settings := (← payload.find "visualization_settings").orElse (.obj [])
    collection := ← payload.find "collection_id" }

/-- The type of the query, as it stands in the payload. -/
def queryType (c : Card) : Json := Json.ofOption (Members.get? c.query "type")

/-- The kind of the query, if it is one that can be transferred. -/
def kind? (c : Card) : Option QueryKind := QueryKind.ofJson? c.queryType

/-- The database that the query runs on. -/
def database (c : Card) : Json := Json.ofOption (Members.get? c.query "database")

/-- Whether the query is a text in SQL. -/
def isNative (c : Card) : Bool := c.kind? == some .native

end Card

/-- The native part of a query: its text and tags. -/
def nativePart (query : Members) : Json :=
  (Json.ofOption (Members.get? query "native")).orElse (.obj [])

/-- The text of a native query; empty if there is none. -/
def nativeText (query : Members) : Except Fault Json := do
  return (← (nativePart query).find "query").orElse (.str "")

end CardTransfer
