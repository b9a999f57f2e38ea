import CardTransfer.Catalog.Description
import CardTransfer.Catalog.FieldChoice
import CardTransfer.Catalog.Suggestion
import CardTransfer.Session.Basic
import CardTransfer.Store.Mappings

/-!
# Mappings in a session

A session begins by loading the catalogs and building their correspondence from the stored
mappings. A mapping of a table that is set or confirmed is stored, and the correspondence built
anew; a mapping of a field is stored and entered into the correspondence.
-/

namespace CardTransfer
namespace Session

/-- The correspondence that the schemas and the stored mappings give. -/
def freshCorrespondence : Action Correspondence := do
  let settings := (← get).settings
  let source ← call (Metabase.Instance.getSchema settings.sourceDatabase)
  let target ← call (Metabase.Instance.getSchema settings.targetDatabase)
  let start ← Steps.ofExcept (Correspondence.start source target)
  let d := (← get).directory
  let (c, r) := start.rebuild (Store.tableMappings d) (Store.fieldMappings d)
  Steps.ofExcept r
  return c

/-- Loads the catalogs and the mappings. -/
def load : Action Unit := do
  let c ← freshCorrespondence
  modify fun s => { s with correspondence := c }

/-- Builds the correspondence anew from the stored mappings, as far as it goes. -/
def rebuild : Action Unit := do
  let s ← get
  let (c, r) := s.correspondence.rebuild (Store.tableMappings s.directory)
    (Store.fieldMappings s.directory)
  set { s with correspondence := c }
  Steps.ofExcept r

/-- Sets the mapping of a table. -/
def setTable (source target : Json) : Action TableMapping := do
  let source ← Steps.ofExcept source.asKey
  let target ← Steps.ofExcept target.asKey
  let rows ← readStore Store.tableMappings
  let m := (← get).correspondence.manualTable source target rows
  writeStore (Store.upsertTables · [m])
  rebuild
  return m

/-- Sets the mapping of a field. -/
def setField (source target : Json) (method : MappingMethod) (confidence : Json) :
    Action FieldMapping := do
  let source ← Steps.ofExcept source.asKey
  let target ← Steps.ofExcept target.asKey
  let m := (← get).correspondence.confirmedField source target method confidence
  writeStore (Store.upsertField · m)
  modify fun s => { s with correspondence := s.correspondence.withField source target }
  return m

/-- Suggests mappings of the tables that are not decided, and stores them. -/
def suggestTables : Action (List TableMapping) := do
  let rows ← readStore Store.tableMappings
  let suggested ← Steps.ofExcept ((← get).correspondence.suggestTables rows)
  if !suggested.isEmpty then writeStore (Store.upsertTables · suggested)
  return suggested

/-- Confirms the suggestions above a threshold. -/
def autoConfirm (threshold : Json) : Action (List TableMapping) := do
  let rows ← readStore Store.tableMappings
  let confirmed ← Steps.ofExcept (TableMapping.autoConfirmed threshold rows)
  if !confirmed.isEmpty then
    writeStore (Store.upsertTables · confirmed)
    rebuild
  return confirmed

/-- The candidate that the oracle picks for a field. -/
def askField (f : Field) (candidates : List Field) : Action (Option FieldChoice) := do
  let label := ((← get).correspondence.fieldLabel f.id).2
  match ← (ask (FieldChoice.prompt label f candidates)).outcome with
  | .ok (some answer) => Steps.ofExcept (FieldChoice.ofAnswer? f candidates answer)
  | .ok none => throw (Json.null.lacks "strip")
  | .error fault => if fault.isOracle then return none else throw fault

/-- A target for a field, by its name or with the help of the oracle; nothing is stored. -/
def suggestField (id : Json) : Action (Option FieldChoice) := do
  let id ← Steps.ofExcept id.asKey
  let s ← get
  match s.correspondence.source.fieldById? id with
  | none => return none
  | some f =>
    match ← Steps.ofExcept (s.correspondence.candidates id) with
    | [] => return none
    | candidates => do
      let ranked ← Steps.ofExcept (rankFields f candidates)
      match FieldChoice.byName? id ranked with
      | some choice => return some choice
      | none => if s.oracle.isNone then return none else askField f candidates

end Session
end CardTransfer
