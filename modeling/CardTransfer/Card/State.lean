import CardTransfer.Card.Graph

/-!
# States of cards

Every card is in one of five states. The first that applies counts:

| state | when |
| --- | --- |
| `transferred` | the card is in the card map |
| `failed` | it is in the waiting area |
| `onHold` | it is native and native cards are held, or it depends, through cards that are not in the card map, on such a card or on one in the waiting area |
| `ready` | all cards that it refers to are in the card map |
| `open` | otherwise |
-/

namespace CardTransfer

/-- The state of a card. -/
inductive CardState where
  | «open»
  | ready
  | onHold
  | transferred
  | failed
  deriving DecidableEq, Repr, Inhabited

namespace CardState

/-- All states, in the order of a table. -/
def all : List CardState := [.open, .ready, .onHold, .transferred, .failed]

/-- The name of a state. -/
def text : CardState → String
  | .open => "unmigrated"
  | .ready => "ready"
  | .onHold => "on_hold"
  | .transferred => "migrated"
  | .failed => "failed"

/-- Every state is in the table. -/
theorem mem_all (s : CardState) : s ∈ all := by cases s <;> decide

end CardState

/-- The cards from which holding spreads: those that wait, and native ones if they are held. -/
def holdSeeds (hold : Bool) (cards : List Card) (done failed : Ids) : Ids :=
  let held := if hold then
      (cards.filter fun c => c.isNative && !done.has c.id).map (·.id)
    else []
  Ids.distinct (failed ++ held)

/-- The state of a card, given which cards are done, have failed, or are blocked. -/
def stateOf (g : Graph) (done failed blocked : Ids) (id : Json) : CardState :=
  if done.has id then .transferred
  else if failed.has id then .failed
  else if blocked.has id then .onHold
  else if Ids.within (g.providers id) done then .ready
  else .open

/-- The states of cards, given which are done and which wait. -/
def cardStates (g : Graph) (hold : Bool) (cards : List Card) (done waiting : Ids) :
    Except Fault (IdMap CardState) := do
  let failed := waiting.without done
  let seeds ← Ids.sort (holdSeeds hold cards done failed)
  let blocked := g.blocked seeds done
  return IdMap.ofList (cards.map fun c => (c.id, stateOf g done failed blocked c.id))

end CardTransfer
