import CardTransfer.Card.Basic
import CardTransfer.Catalog.Description
import CardTransfer.Sql.Spacing
import CardTransfer.Sql.TagTable

/-!
# Native queries

A native query is transferred in three steps: the cards that it refers to are replaced, in its text
and in the descriptions of its tags, then the qualified names of tables, and what is left is
rendered in the dialect of the target. A `NativeDraft` is what the first two steps give.

Every card without counterpart gives one warning.
-/

namespace CardTransfer

/-- A native query on its way: the text to render, the descriptions of the tags, and the cards
that have no counterpart. -/
structure NativeDraft where
  text : String
  tags : Members
  unresolvedCards : Ids

/-- A native query after its transfer. -/
structure NativeTransfer where
  query : Members
  warnings : List String
  unresolvedCards : Ids

namespace NativeDraft

/-- The draft for a query. -/
def ofQuery (c : Correspondence) (cards : IdMap Json) (query : Members) :
    Except Fault NativeDraft := do
  let table ← (nativePart query).find "template-tags"
  let (sql, tags, unresolvedCards) ← Sql.renameCards cards (← nativeText query) table
  let sql ← Sql.replaceTables (← c.tableNames) sql.toList
  return ⟨String.ofList sql, tags, unresolvedCards⟩

/-- The warning for a card without counterpart. -/
def warning (card : Json) : String := "Could not map referenced card ID " ++ card.shown

/-- The native part with a new text and new tags. -/
def newPart (d : NativeDraft) (native : Members) (rendered : String) : Members :=
  Members.insert (Members.insert native "query" (.str (Sql.tidy rendered)))
    "template-tags" (.obj d.tags)

/-- The query after its transfer, once the text has been rendered. -/
def finish (d : NativeDraft) (target : Int) (query : Members) (rendered : String) :
    NativeTransfer where
  query :=
    let native := ((nativePart query).members?).getD []
    Members.insert (Members.insert query "database" (.int target)) "native"
      (.obj (d.newPart native rendered))
  warnings := d.unresolvedCards.map warning
  unresolvedCards := d.unresolvedCards

end NativeDraft
end CardTransfer
