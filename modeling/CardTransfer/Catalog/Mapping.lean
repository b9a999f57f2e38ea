import CardTransfer.Json.Access

/-!
# Mappings

A mapping says which table or field of the target takes the place of one of the source. It suggests
a target, with a confidence, and alternatives for a table; once confirmed it counts, with the final
target or else the suggested one. An ignored table mapping never counts.

Mappings are stored as rows, which are objects. `ofRow` reads a row and `toRow` writes it:

| part | where it is missing |
| --- | --- |
| the source id | a fault |
| names | empty |
| `confidence` | zero; also where it is null |
| `confirmed`, `ignored` | what a condition takes the value for |
| `method` | `heuristic`; also where it is null or empty |
| all others | null |
-/

namespace CardTransfer

/-- Where a mapping comes from. -/
inductive MappingMethod where
  | heuristic
  | external
  | manual
  deriving DecidableEq, Repr

namespace MappingMethod

/-- The method in a row. -/
def text : MappingMethod → String
  | heuristic => "heuristic"
  | external => "external"
  | manual => "manual"

/-- The method that a row names. -/
def ofJson (v : Json) : Except Fault MappingMethod :=
  match v with
  | .str "heuristic" => .ok heuristic
  | .str "external" => .ok external
  | .str "manual" => .ok manual
  | other => .error (.badValue (other.quoted ++ " is not a valid MappingMethod"))

/-- A method is read as it is written. -/
@[simp] theorem ofJson_text (m : MappingMethod) : ofJson (.str m.text) = .ok m := by
  cases m <;> rfl

end MappingMethod

/-- A possible target, with how well it agrees and why. -/
structure Candidate where
  id : Json
  name : Json
  score : Json
  reason : Json
  deriving Inhabited

namespace Candidate

/-- The parts of a candidate in a row. -/
def parts : List String := ["id", "name", "score", "reason"]

/-- A candidate as an object. -/
def toRow (c : Candidate) : Json :=
  .obj [("id", c.id), ("name", c.name), ("score", c.score), ("reason", c.reason)]

/-- A part that a candidate must have. -/
def need (ms : Members) (key : String) : Except Fault Json :=
  match Members.get? ms key with
  | some v => .ok v
  | none => .error (.badType ("a candidate lacks '" ++ key ++ "'"))

/-- The candidate that an object describes. The reason may be missing; other parts are not
known. -/
def ofRow (v : Json) : Except Fault Candidate := do
  match v with
  | .obj ms =>
    match ms.find? fun m => !parts.contains m.1 with
    | some m => throw (.badType ("a candidate has no '" ++ m.1 ++ "'"))
    | none =>
      return {
        id := ← need ms "id"
        name := ← need ms "name"
        score := ← need ms "score"
        reason := (Members.get? ms "reason").getD (.str "") }
  | other => throw (.badType ("a candidate must be an object, not '" ++ other.kindName ++ "'"))

end Candidate

/-- The confidence in a row. -/
def confidenceIn (row : Json) : Except Fault Float := do
  ((← row.find "confidence").orElse (.float 0.0)).toDouble

/-- A value of a row; a fallback if it is missing, but not if it is null. -/
def valueIn (row : Json) (key : String) (fallback : Json) : Except Fault Json := do
  return (Members.get? (← row.membersFor "get") key).getD fallback

/-- A mapping of a table. -/
structure TableMapping where
  source : Json
  sourceName : Json
  suggested : Json
  suggestedName : Json
  confidence : Float
  alternatives : List Candidate
  confirmed : Bool
  final : Json
  ignored : Bool
  deriving Inhabited

namespace TableMapping

/-- The target: the final one, or else the suggested one; null if there is none. -/
def target (m : TableMapping) : Json := (m.final.toOption).getD m.suggested

/-- The target of a mapping that counts. -/
def settled? (m : TableMapping) : Option Json :=
  if m.confirmed && !m.ignored then m.target.toOption else none

/-- A mapping as a row. -/
def toRow (m : TableMapping) : Json := .obj [
  ("source_table_id", m.source),
  ("source_table_name", m.sourceName),
  ("suggested_target_table_id", m.suggested),
  ("suggested_target_table_name", m.suggestedName),
  ("confidence", .float m.confidence),
  ("alternatives", .arr (m.alternatives.map (·.toRow))),
  ("confirmed", .bool m.confirmed),
  ("final_target_table_id", m.final),
  ("ignored", .bool m.ignored)]

/-- The mapping in a row. -/
def ofRow (row : Json) : Except Fault TableMapping := do
  return {
    source := ← row.require "source_table_id"
    sourceName := ← valueIn row "source_table_name" (.str "")
    suggested := ← row.find "suggested_target_table_id"
    suggestedName := ← valueIn row "suggested_target_table_name" (.str "")
    confidence := ← confidenceIn row
    alternatives :=
      ← (← ((← row.find "alternatives").orElse (.arr [])).each).mapM Candidate.ofRow
    confirmed := (← row.find "confirmed").truthy
    final := ← row.find "final_target_table_id"
    ignored := (← row.find "ignored").truthy }

end TableMapping

/-- A mapping of a field. -/
structure FieldMapping where
  source : Json
  sourceName : Json
  sourceTable : Json
  suggested : Json
  suggestedName : Json
  targetTable : Json
  confidence : Json
  method : MappingMethod
  confirmed : Bool
  final : Json

namespace FieldMapping

/-- The target: the final one, or else the suggested one; null if there is none. -/
def target (m : FieldMapping) : Json := (m.final.toOption).getD m.suggested

/-- The target of a mapping that counts. -/
def settled? (m : FieldMapping) : Option Json :=
  if m.confirmed then m.target.toOption else none

/-- A mapping as a row. -/
def toRow (m : FieldMapping) : Json := .obj [
  ("source_field_id", m.source),
  ("source_field_name", m.sourceName),
  ("source_table_id", m.sourceTable),
  ("suggested_target_field_id", m.suggested),
  ("suggested_target_field_name", m.suggestedName),
  ("target_table_id", m.targetTable),
  ("confidence", m.confidence),
  ("method", .str m.method.text),
  ("confirmed", .bool m.confirmed),
  ("final_target_field_id", m.final)]

/-- The mapping in a row. -/
def ofRow (row : Json) : Except Fault FieldMapping := do
  return {
    source := ← row.require "source_field_id"
    sourceName := ← valueIn row "source_field_name" (.str "")
    sourceTable := ← row.find "source_table_id"
    suggested := ← row.find "suggested_target_field_id"
    suggestedName := ← valueIn row "suggested_target_field_name" (.str "")
    targetTable := ← row.find "target_table_id"
    confidence := .float (← confidenceIn row)
    method := ← MappingMethod.ofJson ((← row.find "method").orElse (.str "heuristic"))
    confirmed := (← row.find "confirmed").truthy
    final := ← row.find "final_target_field_id" }

end FieldMapping
end CardTransfer
