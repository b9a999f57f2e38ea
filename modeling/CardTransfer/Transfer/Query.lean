import CardTransfer.Session.Rendering
import CardTransfer.Transfer.Outcome

/-!
# The query of a card

The query of a card is transferred by its kind. A structured query fails for tables without
counterpart, or else for fields without one; a native query fails if it cannot be rendered. A
query that refers to cards without counterpart fails unless it is a dry run.
-/

namespace CardTransfer

/-- A query after its transfer, with its warnings. -/
structure NewQuery where
  query : Members
  warnings : List String

namespace NewQuery

/-- A field without counterpart in a message. -/
def fieldName (f : UnmatchedField) : Json :=
  if f.tableName.truthy then .str (f.tableName.shown ++ "." ++ f.name.shown) else f.name

/-- A failure of a card with its query as far as it was transferred. -/
def failure (card : Card) (kind : FailureKind) (message : String) (query : Members)
    (warnings : List String) : Failure :=
  { Failure.fetched card.id card kind message with result := some query, warnings }

/-- The failure for cards without counterpart. -/
def unresolved (card : Card) (query : Members) (warnings : List String) (cards : Ids) :
    Except Fault Failure := do
  let cards ← Ids.sort (Ids.distinct cards)
  return failure card .dependency
    ("Referenced cards have no migrated counterpart: " ++ Json.shownList cards) query warnings

/-- A query with its warnings, unless cards without counterpart stand against it. -/
def unlessUnresolved (dryRun : Bool) (card : Card) (query : Members) (warnings : List String)
    (cards : Ids) : Except Fault (Except Failure NewQuery) :=
  if dryRun || cards.isEmpty then .ok (.ok ⟨query, warnings⟩)
  else do return .error (← unresolved card query warnings cards)

/-- What becomes of a structured query. -/
def ofStructured (dryRun : Bool) (card : Card) (t : StructuredTransfer) :
    Except Fault (Except Failure NewQuery) :=
  if !t.unmatchedTables.isEmpty then do
    let names ← Json.joined ", " (t.unmatchedTables.map (·.name))
    return .error { failure card .unmatchedTable ("Unmapped tables: " ++ names) t.query t.warnings with
      unmatchedTables := t.unmatchedTables, unmatchedFields := t.unmatchedFields }
  else if !t.unmatchedFields.isEmpty then do
    let names ← Json.joined ", " (t.unmatchedFields.map fieldName)
    return .error { failure card .unmatchedField ("Unmapped fields: " ++ names) t.query t.warnings with
      unmatchedFields := t.unmatchedFields }
  else unlessUnresolved dryRun card t.query t.warnings t.unresolvedCards

/-- What becomes of a native query. -/
def ofNative (dryRun : Bool) (card : Card) (t : NativeTransfer) :
    Except Fault (Except Failure NewQuery) :=
  unlessUnresolved dryRun card t.query t.warnings t.unresolvedCards

/-- The message of a query that could not be rendered. -/
def unrendered? : Fault → Option String
  | .unrendered text => some text
  | _ => none

end NewQuery

namespace Session

/-- Transfers the query of a card, with the cards that take the place of others. -/
def transferQuery (dryRun : Bool) (cards : IdMap Json) (card : Card) :
    Action (Except Failure NewQuery) := do
  if card.kind? == some .structured then
    let t ← transferStructured cards card.query
    Steps.ofExcept (NewQuery.ofStructured dryRun card t)
  else
    match ← (transferNative cards card.query).outcome with
    | .ok t => Steps.ofExcept (NewQuery.ofNative dryRun card t)
    | .error f =>
      match NewQuery.unrendered? f with
      | some text => return .error (.fetched card.id card .unrendered text)
      | none => throw f

end Session
end CardTransfer
