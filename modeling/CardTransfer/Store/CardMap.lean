import CardTransfer.Json.Access
import CardTransfer.Store.Directory

/-!
# The stored card map

The card map holds, for each card that has been transferred, the id of the card that takes its
place. It is stored as an object whose keys are the ids as text. Keys and values are read as
integers; an entry that does not convert makes the whole map unreadable, but does not keep other
entries from being set or taken away.
-/

namespace CardTransfer
namespace Store

/-- Where the card map is stored. -/
def cardPath : String := "card_id_mapping.json"

/-- The stored object. -/
def cardObject (d : Directory) : Except Fault Json := d.readJson cardPath (.obj [])

/-- An entry of the stored object as integers. -/
def cardEntry (p : String × Json) : Except Fault (Json × Json) := do
  let source ← (Json.str p.1).toInt
  let target ← p.2.toInt
  return (.int source, .int target)

/-- The card map. -/
def cardMap (d : Directory) : Except Fault (IdMap Json) := do
  let ms ← (← cardObject d).membersFor "items"
  return IdMap.ofList (← ms.mapM cardEntry)

/-- The card that takes the place of a card. -/
def cardTarget? (d : Directory) (source : Json) : Except Fault (Option Json) := do
  let map ← cardMap d
  return IdMap.get? map (← source.asKey)

/-- The fault of a stored value that takes no entries. -/
def noEntries (v : Json) : Fault :=
  match v with
  | .arr _ => .badType "list indices must be integers or slices, not str"
  | other => .badType ("'" ++ other.kindName ++ "' object does not support item assignment")

/-- Sets an entry. -/
def setCard (d : Directory) (source target : Json) : Except Fault Directory := do
  match ← cardObject d with
  | .obj ms => d.writeJson cardPath (.obj (Members.insert ms source.shown target))
  | other => throw (noEntries other)

/-- Takes an entry away; false if there was none, or a null one, and then nothing is written. -/
def deleteCard (d : Directory) (source : Json) : Except Fault (Bool × Directory) := do
  match ← cardObject d with
  | .obj ms =>
    match Members.get? ms source.shown with
    | none => return (false, d)
    | some .null => return (false, d)
    | some _ =>
      return (true, ← d.writeJson cardPath (.obj (Members.erase ms source.shown)))
  | .arr _ => throw (.badType "pop expected at most 1 argument, got 2")
  | other => throw (other.lacks "pop")

end Store
end CardTransfer
