import CardTransfer.Session.Basic
import CardTransfer.Transfer.Outcome

/-!
# The waiting area

Cards that were not transferred wait, each with the reason, until they are. The waiting area is a
list of rows in the order of the ids of the cards. Every transfer that is not a dry run brings it up
to date with its reports: a card that was transferred leaves it, and one that was not gets a new
row. A later report about a card counts more than an earlier one.
-/

namespace CardTransfer

/-- A card that waits. -/
structure WaitingCard where
  card : Json
  name : Json
  kind : Json
  reason : Json
  missingTables : Json
  time : Json

namespace WaitingCard

/-- The parts of a row that must be there. -/
def required : List String := ["card_id", "card_name", "kind", "reason"]

/-- The parts of a row that may be missing. -/
def optional : List String := ["missing_tables", "timestamp"]

/-- A card that waits, as a row. -/
def toRow (w : WaitingCard) : Json := .obj [
  ("card_id", w.card), ("card_name", w.name), ("kind", w.kind), ("reason", w.reason),
  ("missing_tables", w.missingTables), ("timestamp", w.time)]

/-- A part that a row must have. -/
def need (ms : Members) (key : String) : Except Fault Json :=
  match Members.get? ms key with
  | some v => .ok v
  | none => .error (.badType ("a waiting card lacks '" ++ key ++ "'"))

/-- The card that a row tells of. -/
def ofRow (row : Json) : Except Fault WaitingCard := do
  match row with
  | .obj ms =>
    match ms.find? fun m => !(required ++ optional).contains m.1 with
    | some m => throw (.badType ("a waiting card has no '" ++ m.1 ++ "'"))
    | none =>
      return {
        card := ← need ms "card_id"
        name := ← need ms "card_name"
        kind := ← need ms "kind"
        reason := ← need ms "reason"
        missingTables := (Members.get? ms "missing_tables").getD (.arr [])
        time := (Members.get? ms "timestamp").getD (.str "") }
  | other => throw (.badType ("a waiting card must be an object, not '" ++ other.kindName ++ "'"))

/-- The row of a failure. -/
def ofFailure (time : String) (f : Failure) : WaitingCard where
  card := f.card
  name := f.name
  kind := .str f.kind.text
  reason := .str f.message
  missingTables := .arr (f.unmatchedTables.map (·.name))
  time := .str time

end WaitingCard

/-- The cards that wait, by id. -/
abbrev WaitingArea := IdMap WaitingCard

namespace WaitingArea

/-- The key under which the waiting area is stored. -/
def stateKey : String := "waiting_cards"

/-- The cards in stored rows. -/
def cards (d : Directory) : Except Fault (List WaitingCard) := do
  (← ((← Store.getState d stateKey).orElse (.arr [])).each).mapM WaitingCard.ofRow

/-- Cards by their ids, the last row for an id winning. -/
def ofCards (ws : List WaitingCard) : Except Fault WaitingArea := do
  return IdMap.ofList (← ws.mapM fun w => do return (← w.card.asKey, w))

/-- Brings a waiting area up to date with a report. -/
def heed (time : String) (area : WaitingArea) (r : Report) : WaitingArea :=
  match r with
  | .transferred t => IdMap.erase area t.card
  | .failed f => IdMap.insert area f.card (.ofFailure time f)

/-- The rows of a waiting area, in the order of the ids. -/
def rows (area : WaitingArea) : Except Fault Json := do
  return .arr ((← Ids.sortValues area).map (·.toRow))

/-- Brings the stored waiting area up to date with reports in turn. -/
def update (time : String) (reports : List Report) (d : Directory) : Except Fault Directory := do
  let area ← ofCards (← cards d)
  for r in reports do let _ ← r.card.asKey
  Store.setState d stateKey (← rows (reports.foldl (heed time) area))

end WaitingArea

namespace Session

/-- Brings the waiting area up to date with an outcome. -/
def updateWaiting (o : Outcome) : Action Unit := do
  let time := (← get).today
  writeStore (WaitingArea.update time o.reports)

end Session
end CardTransfer
