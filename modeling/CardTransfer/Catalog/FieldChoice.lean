import CardTransfer.Catalog.Description
import CardTransfer.Catalog.Ranking
import CardTransfer.Text.Blank
import CardTransfer.Text.Digit
import CardTransfer.Text.Word

/-!
# Choosing a field

A candidate whose name agrees with that of a field with a score of 0.9 or more is chosen at once.
Otherwise the oracle is asked to pick one of the candidates. Its answer counts if it holds
`field_id:` and digits, in any letter case, and the first such number is the id of a candidate; the
reason is the answer without that part, a bar after it and the word `reason:`.
-/

namespace CardTransfer

/-- A target for a field, with how sure it is and why. -/
structure FieldChoice where
  source : Json
  target : Json
  score : Float
  reason : String
  method : MappingMethod

namespace FieldChoice

/-- The least score that needs no oracle. -/
def acceptedScore : Float := 0.9

/-- The score of a candidate that the oracle has picked. -/
def oracleScore : Float := 0.8

/-- The choice by name, if the best candidate is good enough. -/
def byName? (source : Json) (ranked : List Ranked) : Option FieldChoice :=
  match ranked with
  | best :: _ =>
    if acceptedScore ≤ best.score then
      some ⟨source, best.id, best.score, best.reason, .heuristic⟩
    else none
  | [] => none

/-- A name, or what is written for one that a condition takes for false. -/
def orText (name : Json) (fallback : String) : String := (name.orElse (.str fallback)).shown

/-- The question to the oracle. -/
def prompt (tableLabel : Json) (f : Field) (candidates : List Field) : String :=
  "\n".intercalate (
    ["We are mapping fields from a source database table to a target database table.",
      "Source table: " ++ tableLabel.shown,
      "Source field: " ++ f.name.shown ++ " (display: " ++ orText f.display "n/a" ++ ", id: "
        ++ f.id.shown ++ ", base_type: " ++ orText f.baseType "unknown" ++ ")",
      "Target table candidates (pick exactly one field id):"] ++
    (candidates.map fun g =>
      "- " ++ g.id.shown ++ ": " ++ g.name.shown ++ " (display: " ++ orText g.display "n/a" ++ ")") ++
    ["", "Respond with a single line: \"field_id: <id> | reason: <short reason>\"."])

/-- `field_id:` and digits at the start of a text: the length up to their end, and the digits. -/
def idMark? (cs : List Char) : Option (Nat × List Char) :=
  let word := "field_id:".toList
  if Text.startsWith word cs then
    let blank := Text.blankLength (cs.drop word.length)
    let digits := (cs.drop (word.length + blank)).takeWhile Text.isDigit
    if digits.isEmpty then none
    else some (word.length + blank + digits.length, digits)
  else none

/-- The text without a bar, the word `reason:` and the blanks around them in front. -/
def skipReason (cs : List Char) : List Char :=
  let cs := Text.trimStart cs
  let cs := if cs.head? == some '|' then Text.trimStart (cs.drop 1) else cs
  let word := "reason:".toList
  if Text.startsWith word cs then Text.trimStart (cs.drop word.length) else cs

/-- The first digits after `field_id:` in a text, and the text without that part. -/
def readAnswer? : List Char → Option (List Char × List Char)
  | [] => none
  | c :: cs =>
    match idMark? (c :: cs) with
    | some (n, digits) => some (digits, skipReason ((c :: cs).drop n))
    | none => (readAnswer? cs).map fun p => (p.1, c :: p.2)

/-- The choice that an answer of the oracle makes. -/
def ofAnswer? (f : Field) (candidates : List Field) (answer : String) :
    Except Fault (Option FieldChoice) :=
  match readAnswer? (Text.trim answer.toList) with
  | none => .ok none
  | some (digits, rest) => do
    let id ← (Json.str (String.ofList digits)).toInt
    if Ids.has (candidates.map (·.id)) (.int id) then
      return some ⟨f.id, .int id, oracleScore, String.ofList (Text.trim rest), .external⟩
    else return none

end FieldChoice
end CardTransfer
