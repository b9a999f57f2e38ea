import CardTransfer.Card.State
import CardTransfer.Transfer.Card
import CardTransfer.Transfer.WaitingArea

/-!
# Transferring all ready cards

A batch goes through the cards of the source database with providers before their consumers. It
attempts a card that was ready or open when the batch began, if all cards that it refers to have
been transferred by now, until a limit of attempts is reached.

Cards that are in a circle of references, or depend on one, are left out; each gets a failure in
front of the other outcomes.
-/

/-!
## The states of cards in a session

The states are told of the cards of the source database. The cards on hold are kept in the store: a
card stays on hold until it has been transferred or is ready, even if it is no longer listed.
-/

namespace CardTransfer
namespace Session

/-- The ids of the cards in the card map. -/
def transferredIds : Action Ids := do
  return IdMap.ids (← readStore Store.cardMap)

/-- The ids of the cards in the waiting area. -/
def waitingIds : Action Ids := do
  let waiting ← readStore WaitingArea.cards
  Steps.ofExcept (return Ids.distinct (← waiting.mapM (·.card.asKey)))

/-- The cards among some that belong to the source database. -/
def sourceCards (cards : List Card) : Action (List Card) := do
  let source := Json.int (← get).settings.sourceDatabase
  return cards.filter (·.database.sameId source)

/-- All cards of the source database. -/
def listSourceCards : Action (List Card) := do
  sourceCards (← call Metabase.Instance.listCards)

/-- The states of cards of the source database. -/
def states (cards : List Card) : Action (IdMap CardState) := do
  let g ← Steps.ofExcept (Graph.ofCards cards)
  let done ← transferredIds
  let waiting ← waitingIds
  let hold := (← get).settings.holdNative.truthy
  Steps.ofExcept (cardStates g hold cards done waiting)

/-- The states of all cards of the source database. -/
def allStates : Action (IdMap CardState) := do states (← listSourceCards)

/-- The key under which the cards on hold are stored. -/
def holdKey : String := "on_hold_cards"

/-- Whether a card that was on hold stays so. -/
def staysHeld (states : IdMap CardState) (id : Json) : Bool :=
  match IdMap.get? states id with
  | some .transferred => false
  | some .ready => false
  | _ => true

/-- The cards that are on hold now, given those that were. -/
def heldNow (states : IdMap CardState) (before : Ids) : Ids :=
  let current := (states.filter (·.2 == .onHold)).map (·.1)
  Ids.distinct (current ++ before.filter (staysHeld states))

/-- The cards that are on hold by a listing, brought up to date in the store. -/
def onHoldAmong (cards : List Card) : Action Ids := do
  let states ← states (← sourceCards cards)
  let stored ← readStore (Store.getState · holdKey)
  let before ← Steps.ofExcept (do (← (stored.orElse (.arr [])).each).mapM Json.asKey)
  let held ← Steps.ofExcept (Ids.sort (heldNow states before))
  writeStore (Store.setState · holdKey (.arr held))
  return held

/-- The cards that are on hold by the full listing. -/
def onHold : Action Ids := do onHoldAmong (← call Metabase.Instance.listCards)

end Session
end CardTransfer

namespace CardTransfer
namespace Session

/-- Cards in the order in which a batch goes through them, and the cards that are stuck. -/
def batchOrder (cards : List Card) : Except Fault (Ids × Ids) := do
  match (← Graph.ofCards cards).order with
  | .ok order => return (order, [])
  | .error (.cycle stuck) =>
    let rest ← Graph.ofCards (cards.filter fun c => !stuck.has c.id)
    return (← rest.order, ← Ids.sort stuck)
  | .error f => throw f

/-- The failure of a card that is stuck. -/
def stuckFailure (cards : List Card) (id : Json) : Outcome :=
  let message := "Card is part of, or depends on, a dependency cycle"
  let failure := match cards.find? (·.id.sameId id) with
    | some card => Failure.fetched id card .circular message
    | none => .unfetched id .circular message
  failure.outcome []

/-- Whether a limit of attempts has been reached; null is no limit. -/
def limitReached (limit : Json) (attempted : Nat) : Except Fault Bool :=
  match limit with
  | .null => .ok false
  | limit => do return Number.ge (.int attempted) (← limit.comparand ">=" "int")

/-- Whether a batch may attempt a card in a state. -/
def mayAttempt (states : IdMap CardState) (id : Json) : Bool :=
  match IdMap.get? states id with
  | some .ready => true
  | some .open => true
  | _ => false

/-- Attempts cards in turn, with the cards that are done by now and the number of attempts so
far. -/
def attemptCards (dryRun limit : Json) (g : Graph) (states : IdMap CardState) :
    Ids → Ids → Nat → Action (List Outcome)
  | [], _, _ => return []
  | id :: ids, done, attempted => do
    if ← Steps.ofExcept (limitReached limit attempted) then return []
    else if mayAttempt states id && Ids.within (g.providers id) done then
      let o ← transfer { Request.usual id with dryRun }
      let done := if o.ok then done.add id else done
      return o :: (← attemptCards dryRun limit g states ids done (attempted + 1))
    else attemptCards dryRun limit g states ids done attempted

/-- Transfers every card that is ready or becomes so. -/
def transferAll (dryRun limit : Json) : Action (List Outcome) := do
  let cards ← listSourceCards
  let (order, stuck) ← Steps.ofExcept (batchOrder cards)
  let states ← states cards
  let g ← Steps.ofExcept (Graph.ofCards cards)
  let done ← transferredIds
  let outcomes ← attemptCards dryRun limit g states order done 0
  return stuck.map (stuckFailure cards) ++ outcomes

end Session
end CardTransfer
