import CardTransfer.Decimal.Shortest
import CardTransfer.Json.Number
import CardTransfer.Text.Numeral
import CardTransfer.Text.Printable

/-!
# Values in messages

Messages, file names and report lines show a value in one of two ways. *Shown* on its own, a text
is itself; *quoted*, and wherever it stands inside a list or an object, it is in quotes. All other
values look the same in both.

| value | shown |
| --- | --- |
| null, true, false | `None`, `True`, `False` |
| integers | decimal digits |
| doubles | the shortest decimal, `2.0`, `0.001`, `1e-05`, `1e+16`, `nan`, `inf` |
| lists, objects | `[1, 'a']`, `{'k': 1}` |
| dates, points in time | `2024-01-02`, `2024-01-02 03:04:05` |
-/

namespace CardTransfer
namespace Json

/-- Doubles in messages: without an exponent from 0.0001 up to below 10 ^ 16. -/
def shownFloat : Decimal.Layout where
  firstPositional := -4
  lastPositional := 15
  exponentWidth := 2
  wholeMark := ".0"
  infinite := "inf"
  notANumber := "nan"

mutual

/-- A value as it appears inside a list or an object. -/
def quoted : Json → String
  | null => "None"
  | bool b => if b then "True" else "False"
  | int n => Text.ofInt n
  | float x => shownFloat.write x
  | str s => Text.quoted s
  | arr items => "[" ++ ", ".intercalate (quotedItems items) ++ "]"
  | obj ms => "\x7b" ++ ", ".intercalate (quotedMembers ms) ++ "\x7d"
  | moment s _ => s

/-- The items of a list, each quoted. -/
def quotedItems : List Json → List String
  | [] => []
  | v :: vs => quoted v :: quotedItems vs

/-- The members of an object, each quoted. -/
def quotedMembers : List (String × Json) → List String
  | [] => []
  | (k, v) :: ms => (Text.quoted k ++ ": " ++ quoted v) :: quotedMembers ms

end

/-- A value on its own. -/
def shown : Json → String
  | str s => s
  | v => v.quoted

/-- Ids in a message. -/
def shownList (vs : List Json) : String := (arr vs).quoted

end Json
end CardTransfer
