import CardTransfer.Card.Reference
import CardTransfer.Text.Blank
import CardTransfer.Text.Digit
import CardTransfer.Text.Scan
import CardTransfer.Text.Word

/-!
# The descriptions of tags

When the cards of a query are replaced, the descriptions of its tags follow: a card tag with an
integer id of a replaced card gets the new id, and the name that the tag has in the query from then
on becomes its key and its name, and its display name too if that starts with `#`. All other
descriptions stay, and so does the order.
-/

/-!
## References to cards in queries

A native query refers to a card by a tag: two opening braces, `#`, the id of the card, possibly a
slug that starts with a hyphen, two closing braces, and blanks after and before the braces. The
tags of a query are described by an object under the names that stand between the braces, and the
description of a card tag carries the id once more.
-/

namespace CardTransfer
namespace Sql

/-- Characters of a slug after its first hyphen. -/
def inSlug (c : Char) : Bool := Text.isWord c || c == '-'

/-- The slug that a text starts with; empty if there is none. -/
def slugOf : List Char → List Char
  | '-' :: cs => '-' :: cs.takeWhile inSlug
  | _ => []

/-- A tag: the digits of its card's number, and its slug. -/
structure CardTag where
  digits : List Char
  slug : List Char

/-- The card of a tag. -/
def CardTag.card (t : CardTag) : Json := .int (Text.numberOf t.digits)

/-- A tag in a text. -/
def tagRule : Text.Rule CardTag := fun _ cs =>
  match cs with
  | '\x7b' :: '\x7b' :: rest =>
    let lead := Text.blankLength rest
    match rest.drop lead with
    | '#' :: body =>
      let digits := body.takeWhile Text.isDigit
      let slug := slugOf (body.drop digits.length)
      let after := body.drop (digits.length + slug.length)
      let trail := Text.blankLength after
      if digits.isEmpty then none
      else
        match after.drop trail with
        | '\x7d' :: '\x7d' :: _ =>
          some (2 + lead + 1 + digits.length + slug.length + trail + 2, ⟨digits, slug⟩)
        | _ => none
    | _ => none
  | _ => none

/-- A tag with its braces. -/
def braced (name : List Char) : List Char := '\x7b' :: '\x7b' :: name ++ ['\x7d', '\x7d']

/-- The name of a tag for a card. -/
def tagName (id : Json) (slug : List Char) : List Char := '#' :: id.shown.toList ++ slug

/-- The tag of the card that takes the place of the card of a tag. -/
def renamedTag? (cards : IdMap Json) (tag : CardTag) : Option (List Char) :=
  (cards.get? tag.card).map fun id => braced (tagName id tag.slug)

/-- Renames the tags of the cards that have been replaced. -/
def renameTags (cards : IdMap Json) (cs : List Char) : List Char :=
  Text.replace tagRule (renamedTag? cards) cs

/-- The cards of tags that have not been replaced, in order, each once. -/
def unknownTags (cards : IdMap Json) (cs : List Char) : Ids :=
  Ids.distinct (((Text.matchesOf tagRule cs).map CardTag.card).filter (!cards.has ·))

/-- Refuses a text in which the number of a card has too many digits. -/
def checkTags (cs : List Char) : Except Fault Unit :=
  match (Text.matchesOf tagRule cs).find? fun t => Text.digitLimit < t.digits.length with
  | some t => .error (tooManyDigits t.digits.length)
  | none => .ok ()

end Sql
end CardTransfer

namespace CardTransfer
namespace Sql

/-- The id of the card that a description is about, if it is one of a card. -/
def taggedCard? (description : Json) : Option Json := description.members?.bind describedCard?

/-- The key of a description whose card is replaced. -/
def renamedKey (key : String) (id : Json) : String :=
  match tagRule none (braced key.toList) with
  | some (_, tag) => String.ofList (tagName id tag.slug)
  | none => key

/-- A description under a new name for a new card. -/
def redescribe (ms : Members) (key : String) (id : Json) : Except Fault Members := do
  let ms := Members.insert (Members.insert ms "card-id" id) "name" (.str key)
  let shown ← ((Members.get? ms "display-name").getD (.str "")).textFor "startswith"
  return if shown.toList.head? == some '#' then Members.insert ms "display-name" (.str key) else ms

/-- A tag with its description, after cards have been replaced. -/
def renameEntry (cards : IdMap Json) (key : String) (description : Json) :
    Except Fault (String × Json) :=
  match taggedCard? description, description with
  | some id, .obj ms =>
    match IdMap.get? cards id with
    | some new => do
      let key := renamedKey key new
      return (key, .obj (← redescribe ms key new))
    | none => .ok (key, description)
  | _, _ => .ok (key, description)

/-- The descriptions of tags after cards have been replaced. -/
def renameEntries (cards : IdMap Json) (table : Members) : Except Fault Members := do
  return Members.ofList (← table.mapM fun p => renameEntry cards p.1 p.2)

/-- The cards of descriptions that have not been replaced, in order. -/
def unknownEntries (cards : IdMap Json) (table : Members) : Ids :=
  (table.filterMap fun p => taggedCard? p.2).filter (!IdMap.has cards ·)

/-- The fault of a query text that is none. -/
def noText (v : Json) : Fault :=
  .badType ("expected string or bytes-like object, got '" ++ v.kindName ++ "'")

/-- A query text and the descriptions of its tags after cards have been replaced, and the cards
that have not been, each once: first those of the text, then those of the descriptions. -/
def renameCards (cards : IdMap Json) (sql table : Json) :
    Except Fault (String × Members × Ids) := do
  match sql with
  | .str sql =>
    let text := sql.toList
    checkTags text
    let table ← (table.orElse (.obj [])).membersFor "items"
    let unknown := (unknownEntries cards table).foldl Ids.add (unknownTags cards text)
    return (String.ofList (renameTags cards text), ← renameEntries cards table, unknown)
  | other => throw (noText other)

end Sql
end CardTransfer
