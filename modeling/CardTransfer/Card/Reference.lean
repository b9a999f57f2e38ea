import CardTransfer.Card.Basic
import CardTransfer.Text.Digit

/-!
# References between cards

A query refers to another card in one of two ways: by a text `card__` followed by the decimal
digits of an id, and by an object whose `type` is `card` and whose `card-id` is an integer. Both
count at any depth of the query. A text may end with one line break after the digits.

An id in a text has no more digits than a whole number may have; a query with a longer one cannot
be searched (`checkNumerals`).
-/

namespace CardTransfer

/-- The digits in a text `card__` and digits. -/
def cardNumeral? (text : String) : Option (List Char) :=
  let cs := text.toList
  if "card__".toList.isPrefixOf cs then
    let digits := cs.drop 6
    let digits := if digits.getLast? == some '\n' then digits.dropLast else digits
    if digits.isEmpty || !digits.all Text.isDigit then none else some digits
  else none

/-- The id in a text `card__` and digits. -/
def namedCard? (text : String) : Option Nat := (cardNumeral? text).map Text.numberOf

/-- How many digits a text `card__` and digits has, if they are too many. -/
def excessDigits? (text : String) : Option Nat :=
  ((cardNumeral? text).map List.length).filter (Text.digitLimit < ·)

/-- The id of the card that an object describes. -/
def describedCard? (ms : Members) : Option Json :=
  match Members.get? ms "type", Members.get? ms "card-id" with
  | some (.str "card"), some id => if id.isInt then some id else none
  | _, _ => none

/-- The fault of a numeral with too many digits. -/
def tooManyDigits (count : Nat) : Fault := .badValue (Text.tooManyDigits count)

namespace Json

mutual

/-- The ids of all cards that a document refers to, in the order in which they are met: an object
before its parts, later parts before earlier ones. -/
def cardIds : Json → Ids
  | .str s => ((namedCard? s).map fun (n : Nat) => Json.int n).toList
  | .arr items => itemCardIds items
  | .obj ms => (describedCard? ms).toList ++ memberCardIds ms
  | _ => []

/-- The ids of all cards that the items of a list refer to, the last item first. -/
def itemCardIds : List Json → Ids
  | [] => []
  | v :: vs => itemCardIds vs ++ cardIds v

/-- The ids of all cards that the members of an object refer to, the last member first. -/
def memberCardIds : List (String × Json) → Ids
  | [] => []
  | (_, v) :: ms => memberCardIds ms ++ cardIds v

end

mutual

/-- Refuses a document in which a text names a card by too many digits. The texts are met in the
order of `cardIds`. -/
def checkNumerals : Json → Except Fault Unit
  | .str s =>
    match excessDigits? s with
    | some n => .error (tooManyDigits n)
    | none => .ok ()
  | .arr items => checkItemNumerals items
  | .obj ms => checkMemberNumerals ms
  | _ => .ok ()

/-- Refuses the items of a list, the last item first. -/
def checkItemNumerals : List Json → Except Fault Unit
  | [] => .ok ()
  | v :: vs => do
    checkItemNumerals vs
    checkNumerals v

/-- Refuses the members of an object, the last member first. -/
def checkMemberNumerals : List (String × Json) → Except Fault Unit
  | [] => .ok ()
  | (_, v) :: ms => do
    checkMemberNumerals ms
    checkNumerals v

end

/-- The cards that a document refers to, each once, in increasing order. -/
def references (v : Json) : Ids := (Ids.distinct v.cardIds).sorted

/-- The cards that a document refers to, if all of them can be read. -/
def findReferences (v : Json) : Except Fault Ids := do
  v.checkNumerals
  return v.references

end Json

/-- The cards that a card refers to. -/
def Card.references (c : Card) : Ids := (Json.obj c.query).references

/-- The cards that a card refers to, if all of them can be read. -/
def Card.findReferences (c : Card) : Except Fault Ids := (Json.obj c.query).findReferences

end CardTransfer
