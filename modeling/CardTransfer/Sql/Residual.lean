import CardTransfer.Sql.Call
import CardTransfer.Sql.Literal

/-!
# Constructs without a counterpart

After the rules have been applied a query may still hold constructs of the source dialect. They
are looked for outside of literals, and reported by name in a fixed order.
-/

namespace CardTransfer
namespace Sql

/-- Something found, or not, at a place. -/
abbrev Sight := Option Char → List Char → Bool

/-- A fixed text. -/
def fixedText (s : String) : Sight := fun _ cs => s.toList.isPrefixOf cs

/-- A call of a function. -/
def called (name : String) : Sight := fun before cs => (callHead? name.toList before cs).isSome

/-- A call of a function whose name starts with `json_` or `jsonb_`. -/
def jsonCall : Sight := fun before cs =>
  let tail (start : String) : Bool :=
    Text.startsWith start.toList cs &&
      let name := cs.drop start.length
      let after := name.dropWhile Text.isWord
      name.head?.any Text.isWord && (after.drop (Text.blankLength after)).head? == some '('
  Text.breaksBefore before && (tail "json_" || tail "jsonb_")

/-- `DISTINCT ON` with its list. -/
def distinctOn : Sight := fun before cs =>
  Text.breaksBefore before &&
    match Text.twoWords? "distinct".toList "on".toList cs with
    | some n =>
      let after := cs.drop n
      (after.drop (Text.blankLength after)).head? == some '('
    | none => false

/-- `INTERVAL` and a literal. -/
def intervalLiteral : Sight := fun before cs =>
  Text.breaksBefore before && (Text.wordThen? "interval".toList '\'' cs).isSome

/-- `ILIKE ANY`. -/
def ilikeAny : Sight := fun before cs =>
  Text.breaksBefore before &&
    match Text.twoWords? "ilike".toList "any".toList cs with
    | some n => Text.breaksAfter (cs.drop n)
    | none => false

/-- One of two things. -/
def either (a b : Sight) : Sight := fun before cs => a before cs || b before cs

/-- The constructs of the source dialect, in the order of reporting. -/
def constructs : List (String × Sight) := [
  ("postfix cast", fixedText "::"),
  ("to_char", called "to_char"),
  ("to_date", called "to_date"),
  ("to_timestamp", called "to_timestamp"),
  ("age", called "age"),
  ("generate_series", called "generate_series"),
  ("string_agg", called "string_agg"),
  ("array_agg", called "array_agg"),
  ("btrim", called "btrim"),
  ("split_part", called "split_part"),
  ("regexp_replace", called "regexp_replace"),
  ("unnest", called "unnest"),
  ("json function", jsonCall),
  ("DISTINCT ON", distinctOn),
  ("interval literal", intervalLiteral),
  ("json operator", either (fixedText "->") (fixedText "#>")),
  ("regex operator", either (fixedText "~*") (fixedText "!~")),
  ("ILIKE ANY", ilikeAny),
  ("date_trunc", called "date_trunc"),
  ("date_part", called "date_part"),
  ("extract", called "extract"),
  ("cast", called "cast")]

/-- Whether something is seen at some place of a text. -/
def Sight.seen (sight : Sight) : (before : Option Char) → List Char → Bool
  | _, [] => false
  | before, c :: cs => sight before (c :: cs) || seen sight (some c) cs

/-- The names of the constructs that a text still holds outside of literals. -/
def residual (cs : List Char) : List String :=
  let bare := emptyLiterals cs
  (constructs.filter fun p => p.2.seen none bare).map (·.1)

/-- The names of the constructs that a query still holds. -/
def residualConstructs (sql : String) : List String := residual sql.toList

end Sql
end CardTransfer
