import CardTransfer.Fault
import CardTransfer.Sql.Placeholder
import CardTransfer.Sql.Residual
import CardTransfer.Text.Scan
import CardTransfer.Text.Sha256

/-!
# Renderings by the oracle

The oracle is asked to render a query in the dialect of the target, and to correct a rendering that
fails to run. Its answer may be set between code fences: three backticks and the letters `a` – `z`,
`A` – `Z` that follow them directly. Every fence is taken out, and blanks at both ends of what is left;
this is used only if nothing speaks against it:

| answer to the first question | outcome |
| --- | --- |
| empty | not rendered |
| starts with `ERROR:`, in any letter case | not rendered, for the reason after it |
| without one of the placeholders of the query | not rendered |

A correction is not used if it is empty, holds `CANNOT_FIX`, changes nothing but blanks at the ends,
or has lost a placeholder of the query that it corrects.

A rendering is kept under the digest of the query and the description of the target.
-/

namespace CardTransfer
namespace Oracle

/-- A code fence. -/
def fenceRule : Text.Rule Unit := fun _ cs =>
  match cs with
  | '\x60' :: '\x60' :: '\x60' :: rest => some (3 + (rest.takeWhile Char.isAlpha).length, ())
  | _ => none

/-- An answer without its code fences. -/
def stripFences (answer : String) : String :=
  String.ofList (Text.trim (Text.replace fenceRule (fun _ => some []) answer.toList))

/-- The key under which the rendering of a query is kept. -/
def cacheKey (query context : String) : String := Text.Sha256.digest (query ++ "\x00" ++ context)

/-- The question for a rendering. -/
def renderingPrompt (query context : String) : String :=
  "Convert the following PostgreSQL query to ClickHouse SQL.\n\n" ++
  "Rules:\n" ++
  "- Keep every \x7b\x7bplaceholder\x7d\x7d and [[optional clause]] exactly as written.\n" ++
  "- Keep column aliases and result column order unchanged.\n" ++
  "- Use only the target tables and columns listed below.\n" ++
  "- Return only the SQL, without explanations or code fences.\n" ++
  "- If the query cannot be converted, return a single line starting with \"ERROR:\"" ++
  " and the reason.\n\n" ++
  "Target schema:\n" ++ context ++ "\n\n" ++
  "PostgreSQL query:\n" ++ query ++ "\n"

/-- The question for a correction. -/
def correctionPrompt (source current error context : String) : String :=
  "A ClickHouse query converted from PostgreSQL fails to run.\n\n" ++
  "Original PostgreSQL query:\n" ++ source ++ "\n\n" ++
  "Current ClickHouse query:\n" ++ current ++ "\n\n" ++
  "Error returned by the database:\n" ++ error ++ "\n\n" ++
  "Target schema:\n" ++ context ++ "\n\n" ++
  "Return only the corrected ClickHouse SQL, keeping every \x7b\x7bplaceholder\x7d\x7d" ++
  " unchanged.\n" ++
  "If the query cannot be fixed, return exactly CANNOT_FIX.\n"

/-- What an answer starts with that refuses. -/
def refusalMark : List Char := "ERROR:".toList

/-- Whether an answer refuses. -/
def refuses (answer : String) : Bool :=
  (answer.toList.take refusalMark.length).map Char.toUpper == refusalMark

/-- The reason of an answer that refuses. -/
def refusalReason (answer : String) : String :=
  let reason := Text.trim (answer.toList.drop refusalMark.length)
  if reason.isEmpty then "Oracle refused" else String.ofList reason

/-- The rendering of a query that an answer gives. -/
def acceptRendering (query answer : String) : Except Fault String :=
  let result := stripFences answer
  if result.isEmpty then .error (.unrendered "Oracle returned an empty translation")
  else if refuses result then .error (.unrendered (refusalReason result))
  else
    match Sql.lostPlaceholders query result with
    | [] => .ok result
    | lost => .error (.unrendered
        ("Translation dropped placeholders: " ++ ", ".intercalate lost))

/-- What stands in an answer that does not correct. -/
def resignationMark : List Char := "CANNOT_FIX".toList

/-- The correction of a query that an answer gives, if it is of use. -/
def acceptCorrection? (current answer : String) : Option String :=
  let fixed := stripFences answer
  if fixed.isEmpty || Text.hasPart resignationMark fixed.toList then none
  else if Text.trim fixed.toList == Text.trim current.toList then none
  else if (Sql.lostPlaceholders current fixed).isEmpty then some fixed
  else none

/-- The fault of a query that needs the oracle where there is none. -/
def noOracle (query : String) : Fault :=
  let constructs := ", ".intercalate (Sql.residualConstructs query)
  .unrendered ("Query needs the oracle but none is configured: " ++
    (if constructs.isEmpty then "unknown constructs" else constructs))

/-- An accepted rendering is an answer without fences that is not empty, does not refuse and has
lost no placeholder. -/
theorem acceptRendering_eq_ok {query answer result : String} :
    acceptRendering query answer = .ok result ↔
      result = stripFences answer ∧ result.isEmpty = false ∧ refuses result = false ∧
        Sql.lostPlaceholders query result = [] := by
  unfold acceptRendering
  constructor
  · intro h
    simp only at h
    split at h
    · cases h
    · split at h
      · cases h
      · split at h
        · cases h
          simp_all
        · cases h
  · rintro ⟨rfl, h₁, h₂, h₃⟩
    simp [h₁, h₂, h₃]

end Oracle
end CardTransfer
