import CardTransfer.Sorting
import CardTransfer.Text.Blank
import CardTransfer.Text.Scan

/-!
# Placeholders

A query takes its parameters at placeholders: two opening braces, a name, two closing braces. The
name holds no brace and at least one character; blanks around it do not count.
-/

namespace CardTransfer
namespace Sql

/-- Braces of either kind. -/
def isBrace (c : Char) : Bool := c == '\x7b' || c == '\x7d'

/-- A placeholder, with its name. -/
def placeholderRule : Text.Rule (List Char) := fun _ cs =>
  match cs with
  | '\x7b' :: '\x7b' :: rest =>
    let name := rest.takeWhile fun c => !isBrace c
    let after := rest.drop name.length
    if name.isEmpty then none
    else
      match after with
      | '\x7d' :: '\x7d' :: _ => some (name.length + 4, Text.trim name)
      | _ => none
  | _ => none

/-- The names of the placeholders of a text, each once. -/
def placeholderNames (cs : List Char) : List String :=
  ((Text.matchesOf placeholderRule cs).map String.ofList).eraseDups

/-- The names of the placeholders of a query, in increasing order. -/
def placeholders (sql : String) : List String :=
  Sorting.sort (fun a b => !(b < a)) (placeholderNames sql.toList)

/-- The placeholders of the first query that the second has lost. -/
def lostPlaceholders (query result : String) : List String :=
  (placeholders query).filter fun p => !(placeholders result).contains p

end Sql
end CardTransfer
