import CardTransfer.Json.Access
import CardTransfer.Sql.Literal
import CardTransfer.Text.LowerCase
import CardTransfer.Text.Word

/-!
# Qualified table names

A qualified name is a schema and a table with a dot between them. Each is an identifier (letters
`A` – `Z` and the underscore first, then parts of words) or any text in double quotes. The name
does not start inside a word, after a dot or after a double quote, and no part of a word and no
double quote comes after it; a further dot may.

Names are replaced outside of literals. They are looked up in lower case, without their quotes.
-/

namespace CardTransfer
namespace Sql

/-- Characters that an identifier starts with. -/
def startsIdentifier (c : Char) : Bool := c.isAlpha || c == '_'

/-- The length of a schema or table at the start of a text, and its name. -/
def namePart? (cs : List Char) : Option (Nat × List Char) :=
  match cs with
  | '"' :: rest =>
    let name := rest.takeWhile (· != '"')
    if name.isEmpty || (rest.drop name.length).isEmpty then none
    else some (name.length + 2, name)
  | c :: _ =>
    if startsIdentifier c then
      let name := cs.takeWhile Text.isWord
      some (name.length, name)
    else none
  | [] => none

/-- Characters that may not stand next to a qualified name. -/
def adjoins (c : Char) : Bool := Text.isWord c || c == '"'

/-- A qualified name, with its key. -/
def tableRule : Text.Rule (List Char) := fun before cs =>
  if before.any (fun c => adjoins c || c == '.') then none
  else do
    let (n, schema) ← namePart? cs
    let rest := cs.drop n
    if rest.head? == some '.' then
      let (m, table) ← namePart? (rest.drop 1)
      if ((rest.drop (m + 1)).head?.any adjoins) then none
      else some (n + 1 + m, Text.lower (schema ++ '.' :: table))
    else none

/-- What is written instead of the tables with a target: texts, as a rule. -/
abbrev TableNames := List (String × Json)

/-- The target of a table name; null counts as none. -/
def target? (names : TableNames) (key : List Char) : Option Json :=
  (names.lookup (String.ofList key)).bind Json.toOption

/-- Writes the targets of table names into a text. -/
def writeTargets (names : TableNames) (cs : List Char) : List Char :=
  mapOutside (Text.replace tableRule fun key => (target? names key).map (·.shown.toList)) cs

/-- The keys of the table names that are replaced, in order. -/
def replacedTables (names : TableNames) (cs : List Char) : List String :=
  ((outside cs).flatMap (Text.matchesOf tableRule)).filterMap fun key =>
    (target? names key).map fun _ => String.ofList key

/-- The first target in a stretch of text that is no text, with the number of parts before it; a
part is a name, or what stands between two names. `n` is the number of parts so far, and `inGap`
tells whether the last of them is no name. -/
def oddTarget? (names : TableNames) (n : Nat) (inGap : Bool) :
    List (Text.Piece (List Char)) → Option (Nat × Json)
  | [] => none
  | .plain _ :: pieces => oddTarget? names (if inGap then n else n + 1) true pieces
  | .found key _ :: pieces =>
    match target? names key with
    | some (.str _) | none => oddTarget? names (n + 1) false pieces
    | some v => some (n, v)

/-- Replaces table names by their targets; a fault if one of them is no text. -/
def replaceTables (names : TableNames) (cs : List Char) : Except Fault (List Char) :=
  match (outside cs).findSome? fun run => oddTarget? names 0 false (Text.scan tableRule run) with
  | some (n, v) => .error (.badType ("sequence item " ++ Text.ofNat n ++
      ": expected str instance, " ++ v.kindName ++ " found"))
  | none => .ok (writeTargets names cs)

end Sql
end CardTransfer
