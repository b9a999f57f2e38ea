import CardTransfer.Sql.Cast
import CardTransfer.Sql.Parenthesis

/-!
# Parts of dates

| call | becomes |
| --- | --- |
| `date_trunc('unit', x)` | the start-of-unit function of `x` |
| `date_part('part', x)` | the part function of `x` |
| `extract(part from x)` | the part function of `x` |

Units and parts are read in any letter case. In the first two the unit must be quoted with single
quotes. A call with another number of arguments or another unit or part stays.
-/

namespace CardTransfer
namespace Sql

/-- What stands before and after the argument in the start of each unit. -/
def unitStarts : List (String × String × String) := [
  ("minute", "toStartOfMinute(", ")"),
  ("hour", "toStartOfHour(", ")"),
  ("day", "toStartOfDay(", ")"),
  ("week", "toStartOfWeek(", ", 1)"),
  ("month", "toStartOfMonth(", ")"),
  ("quarter", "toStartOfQuarter(", ")"),
  ("year", "toStartOfYear(", ")")]

/-- The function of each part of a date. -/
def partFunctions : List (String × String) := [
  ("year", "toYear"),
  ("quarter", "toQuarter"),
  ("month", "toMonth"),
  ("week", "toISOWeek"),
  ("day", "toDayOfMonth"),
  ("doy", "toDayOfYear"),
  ("hour", "toHour"),
  ("minute", "toMinute"),
  ("second", "toSecond")]

/-- The name under which a unit or part is looked up. -/
def unitKey (cs : List Char) : String := String.ofList (Text.lower cs)

/-- A quoted unit and the other of two arguments. -/
def unitAndOperand? (inner : List Char) : Option (String × List Char) :=
  match arguments inner with
  | [unit, operand] =>
    if unit.head? == some '\'' then some (unitKey (unquote unit), operand) else none
  | _ => none

/-- `'unit', x` as the start of the unit. -/
def truncCall? (inner : List Char) : Option (List Char) := do
  let (unit, operand) ← unitAndOperand? inner
  let (left, right) ← unitStarts.lookup unit
  some (left.toList ++ operand ++ right.toList)

/-- `'part', x` as the part of a date. -/
def partCall? (inner : List Char) : Option (List Char) := do
  let (part, operand) ← unitAndOperand? inner
  let function ← partFunctions.lookup part
  some (callOf function.toList operand)

/-- `part from x` as the part and `x`. -/
def partFrom? (inner : List Char) : Option (List Char × List Char) :=
  let start := inner.drop (Text.blankLength inner)
  let part := start.takeWhile Text.isWord
  let after := start.dropWhile Text.isWord
  let gap := Text.blankLength after
  let word := after.drop gap
  let rest := word.drop 4
  if part.isEmpty || gap == 0 || !Text.startsWith "from".toList word ||
      Text.blankLength rest == 0 then none
  else some (part, rest)

/-- `part from x` as the part of a date. -/
def extractCall? (inner : List Char) : Option (List Char) := do
  let (part, operand) ← partFrom? inner
  let function ← partFunctions.lookup (unitKey part)
  some (callOf function.toList (Text.trim operand))

/-- Replaces the `date_trunc` calls of a text. -/
def replaceDateTrunc (cs : List Char) : List Char := replaceCalls "date_trunc" truncCall? cs

/-- Replaces the `date_part` and `extract` calls of a text. -/
def replaceDatePart (cs : List Char) : List Char :=
  replaceCalls "extract" extractCall? (replaceCalls "date_part" partCall? cs)

end Sql
end CardTransfer
