import CardTransfer.Card.Definition
import CardTransfer.Card.Reference
import CardTransfer.Transfer.Query
import CardTransfer.Transfer.Verification
import CardTransfer.Transfer.WaitingArea

/-!
# Transferring a card

A card is transferred after the cards that it refers to. The stages, each of which may end the
transfer with a failure:

1. The card is fetched. It must not be on the path that leads to it, and its query must be of a kind
   that can be transferred.
2. The cards that it refers to and that are not in the card map are transferred, in the order of
   their ids. The first that fails ends the transfer of the card.
3. A card that is in the card map already is not transferred again, unless that is forced. Only the
   card that was asked for can be forced, not those that it refers to.
4. The query is transferred. A dry run ends here.
5. The card on the target is created, or replaced if it exists and the transfer is forced.
6. It is verified, and entered into the card map.

The deadline is looked at before stages 1, 3, 4 and 5, and before each card of stage 2. Faults for
which no failure is laid down end the whole transfer as an unknown failure of the card that was
asked for.
-/

namespace CardTransfer

/-- What is asked of a transfer, the card apart. Whether it is a dry run is told by a value that a
condition takes for true or false. A collection of null is the one of the card. -/
structure Terms where
  dryRun : Json
  force : Bool
  collection : Json
  deadline : Option Number

/-- The terms for the cards that a card refers to: they are never forced. -/
def Terms.forProviders (terms : Terms) : Terms := { terms with force := false }

/-- Why the transfer of the cards that a card refers to stops early. -/
inductive Stop where
  | deadline
  | provider (id : Json) (o : Outcome)

namespace Session

/-- Whether a deadline has passed. -/
def hasPassed (s : Session) (deadline : Option Number) : Bool := deadline.any s.clock.ge

/-- Transfers the cards of a list that are not in a card map, up to the first that fails. -/
def transferProviders (deadline : Option Number) (transfer : Json → Action Outcome)
    (mapped : IdMap Json) : Ids → List Outcome → Action (List Outcome × Option Stop)
  | [], outcomes => return (outcomes, none)
  | id :: ids, outcomes => do
    if IdMap.has mapped id then transferProviders deadline transfer mapped ids outcomes
    else if (← get).hasPassed deadline then return (outcomes, some .deadline)
    else
      let o ← transfer id
      if o.ok then transferProviders deadline transfer mapped ids (outcomes ++ [o])
      else return (outcomes ++ [o], some (.provider id o))

/-- The failure of a card whose providers were not all transferred. -/
def stopFailure (id : Json) (card : Card) : Stop → Failure
  | .deadline => .fetched id card .timeout "Deadline expired while migrating dependencies"
  | .provider provider o =>
    if o.report.failure?.any (·.kind == .circular) then
      { Failure.fetched id card .circular
          ("Dependency card " ++ provider.shown ++ " is part of a reference cycle") with
        caused := true }
    else
      { Failure.fetched id card .dependency
          ("Dependency card " ++ provider.shown ++ " was not migrated") with
        caused := true }

/-- The success of a card that is in the card map already. -/
def reportExisting (dryRun : Json) (id : Json) (card : Card) (target : Json) :
    Action Transferred := do
  let result ← match ← (fetch target).outcome with
    | .ok counterpart => pure (some counterpart.query)
    | .error f => if f.isMetabase then pure none else throw f
  return {
    card := id, name := card.name, success := .before, source := card.query, result
    newId := some target, url := some ((← get).cardUrl target), dryRun, verified := true
    warnings := [] }

/-- The success of a dry run. -/
def dryReport (id : Json) (card : Card) (existing : Option Json) (q : NewQuery) : Transferred where
  card := id
  name := card.name
  success := .now
  source := card.query
  result := some q.query
  newId := existing
  url := none
  dryRun := .bool true
  verified := true
  warnings := q.warnings

/-- Puts the card on the target, in the place of another one there or as a new one, and answers its id
there. -/
def putCard (card : Card) (replaced : Option Json) (definition : Members) : Action Json := do
  match replaced with
  | some target => do
    replace card target definition
    return target
  | none => create card definition

/-- Writes the card to the target and answers its id there. The card that takes its place already is
replaced if the transfer is forced. -/
def writeCard (terms : Terms) (id : Json) (card : Card) (existing : Option Json)
    (definition : Members) : Action Json := do
  let replaced := if terms.force then existing else none
  let answer ← (putCard card replaced definition).outcome
  noteAttempt id card replaced definition answer
  Steps.ofExcept answer

/-- Verifies a card that has been written, and enters it into the card map. -/
def settle (id : Json) (card : Card) (target : Json) (q : NewQuery) : Action Transferred := do
  let v ← verify card target q.query q.warnings
  enterCard id target
  return {
    card := id, name := card.name, success := .now, source := card.query
    result := some v.query, newId := some target, url := some ((← get).cardUrl target)
    dryRun := .bool false, verified := v.verified, warnings := v.warnings }

/-- Stages 5 and 6: a transferred query becomes a card on the target. -/
def commit (terms : Terms) (id : Json) (card : Card) (existing : Option Json) (q : NewQuery) :
    Action Report := do
  let failure (kind : FailureKind) (message : String) : Report :=
    .failed { Failure.fetched id card kind message with
      result := some q.query, warnings := q.warnings }
  if (← get).hasPassed terms.deadline then
    return failure .timeout "Deadline expired before creating the target card"
  let suffix := (← get).settings.nameSuffix
  let definition ← Steps.ofExcept (card.definition (.obj q.query) suffix terms.collection)
  match ← (writeCard terms id card existing definition).outcome with
  | .error f => if f.isMetabase then return failure .target f.text else throw f
  | .ok target => return .transferred (← settle id card target q)

/-- Stages 3 to 6: a card all of whose providers have been transferred. -/
def transferReady (terms : Terms) (id : Json) (card : Card) : Action Report := do
  let existing ← readStore (Store.cardTarget? · id)
  match existing, terms.force with
  | some target, false => return .transferred (← reportExisting terms.dryRun id card target)
  | _, _ => do
    if (← get).hasPassed terms.deadline then
      return .failed (.fetched id card .timeout "Deadline expired before rewriting")
    let cards ← readStore Store.cardMap
    match ← transferQuery terms.dryRun.truthy cards card with
    | .error failure => return .failed failure
    | .ok q =>
      if terms.dryRun.truthy then return .transferred (dryReport id card existing q)
      else commit terms id card existing q

/-- Stages 2 to 6: a fetched card. -/
def transferFetched (terms : Terms) (transfer : Json → Action Outcome) (id : Json) (card : Card) :
    Action Outcome := do
  let mapped ← readStore Store.cardMap
  let providers ← Steps.ofExcept card.findReferences
  match ← transferProviders terms.deadline transfer mapped providers [] with
  | (outcomes, some stop) => return (stopFailure id card stop).outcome outcomes
  | (outcomes, none) => return .mk (← transferReady terms id card) outcomes

/-- All stages, given how the providers of a card are transferred. -/
def transferVia (terms : Terms) (transfer : Json → Action Outcome) (path : Ids) (id : Json) :
    Action Outcome := do
  let id ← Steps.ofExcept id.asKey
  if path.has id then
    let sorted ← Steps.ofExcept path.sort
    let message := "Card " ++ id.shown ++ " is already on the migration path "
      ++ Json.shownList sorted
    return (Failure.unfetched id .circular message).outcome []
  if (← get).hasPassed terms.deadline then
    return (Failure.unfetched id .timeout "Deadline expired before fetching card").outcome []
  match ← (fetch id).outcome with
  | .error f =>
    if f.isMetabase then return (Failure.unfetched id .unavailable f.text).outcome [] else throw f
  | .ok card =>
    if card.kind?.isNone then
      let message := "Unsupported query type " ++ card.queryType.quoted
      return (Failure.fetched id card .unknown message).outcome []
    transferFetched terms transfer id card

/-- Transfers a card after those that it refers to, over at most `n` levels; `path` holds the cards
that lead to it. -/
def transferCard : (n : Nat) → (terms : Terms) → (path : Ids) → (id : Json) → Action Outcome
  | 0, _, _, _ => throw .depth
  | n + 1, terms, path, id =>
    transferVia terms (transferCard n terms.forProviders (path.add id)) path id

/-- Over how many levels cards may refer to each other: more than there are cards. -/
def levels (s : Session) : Nat := s.metabase.cards.length + 1000

/-- The deadline that a number of seconds from now sets; none for null or zero. -/
def deadlineIn (seconds : Json) : Action (Option Number) := do
  let s ← get
  let seconds := (seconds.toOption).getD s.settings.timeout
  if seconds.truthy then
    return some (← Steps.ofExcept (Json.plus "+" s.clock seconds))
  else return none

/-- The outcome of a transfer; a fault becomes an unknown failure. -/
def outcomeOf (id : Json) : Except Fault Outcome → Outcome
  | .ok o => o
  | .error f => (Failure.unfetched id .unknown f.message).outcome []

/-- What is asked for when a card is to be transferred. -/
structure Request where
  card : Json
  dryRun : Json
  force : Bool
  collection : Json
  timeout : Json
  visited : Json

/-- The usual request for a card: a dry run. -/
def Request.usual (card : Json) : Request := ⟨card, .bool true, false, .null, .null, .null⟩

/-- Transfers a card as requested. -/
def transfer (r : Request) : Action Outcome := do
  let deadline ← deadlineIn r.timeout
  let path ← Steps.ofExcept (do (← (r.visited.orElse (.arr [])).each).mapM Json.asKey)
  let terms : Terms := ⟨r.dryRun, r.force, r.collection, deadline⟩
  let s ← get
  let o := outcomeOf r.card
    (← (transferCard s.levels terms (Ids.distinct path) r.card).outcome)
  if !r.dryRun.truthy then updateWaiting o
  return o

end Session
end CardTransfer
