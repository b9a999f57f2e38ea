import CardTransfer.Sql.Call
import CardTransfer.Text.LowerCase

/-!
# Type conversions

`CAST(x AS type)` becomes a call of the conversion function of the type. A type is looked up by
its name in lower case, without a parenthesised size at its end and with single spaces between
words; a type that is not in the table is not converted.
-/

namespace CardTransfer
namespace Sql

/-- The conversion function of each type. -/
def conversions : List (String × String) := [
  ("date", "toDate"),
  ("timestamp", "toDateTime"),
  ("timestamptz", "toDateTime"),
  ("timestamp with time zone", "toDateTime"),
  ("timestamp without time zone", "toDateTime"),
  ("text", "toString"),
  ("varchar", "toString"),
  ("char", "toString"),
  ("character varying", "toString"),
  ("int", "toInt64"),
  ("int4", "toInt64"),
  ("int8", "toInt64"),
  ("integer", "toInt64"),
  ("bigint", "toInt64"),
  ("smallint", "toInt64"),
  ("numeric", "toFloat64"),
  ("decimal", "toFloat64"),
  ("float", "toFloat64"),
  ("float8", "toFloat64"),
  ("real", "toFloat64"),
  ("double precision", "toFloat64"),
  ("boolean", "toBool"),
  ("bool", "toBool")]

/-- Drops a parenthesised end: from the first parenthesis of the last line on, if the text ends
with a closing one. -/
def dropSize (cs : List Char) : List Char :=
  if cs.getLast? == some ')' then
    let lastLine := (cs.reverse.takeWhile (· != '\n')).reverse
    let start := (lastLine.takeWhile (· != '(')).length
    if start < lastLine.length then cs.take (cs.length - (lastLine.length - start)) else cs
  else cs

/-- Writes one space for every run of blanks. -/
def squeeze : List Char → List Char
  | [] => []
  | [c] => if Text.isBlank c then [' '] else [c]
  | c :: d :: cs =>
    if Text.isBlank c then
      if Text.isBlank d then squeeze (d :: cs) else ' ' :: squeeze (d :: cs)
    else c :: squeeze (d :: cs)

/-- The name under which a type is looked up. -/
def typeKey (cs : List Char) : List Char :=
  squeeze (Text.trim (dropSize (Text.lower (Text.trim cs))))

/-- The conversion function of a type. -/
def conversion? (cs : List Char) : Option (List Char) :=
  (conversions.lookup (String.ofList (typeKey cs))).map (·.toList)

/-- The length of `as` between blanks. -/
def asLength? (cs : List Char) : Option Nat :=
  let gap := Text.blankLength cs
  if gap == 0 then none
  else if Text.startsWith "as".toList (cs.drop gap) then
    let after := Text.blankLength (cs.drop (gap + 2))
    if after == 0 then none else some (gap + 2 + after)
  else none

/-- The last `as` between blanks outside of parentheses and quotes: what is before it and what
comes after. `skip` counts the characters still to come of an `as` already seen, `before` is what
has been read, last character first. -/
def splitAs (skip : Nat) (depth : Int) (quoted : Bool) (before : List Char) :
    List Char → Option (List Char × List Char)
  | [] => none
  | c :: cs =>
    match skip with
    | skip + 1 => splitAs skip depth quoted (c :: before) cs
    | 0 =>
      match asLength? (c :: cs) with
      | some n =>
        let later := splitAs (n - 1) depth quoted (c :: before) cs
        if quoted || depth != 0 then later
        else some (later.getD (before.reverse, (c :: cs).drop n))
      | none =>
        if c == '\'' then splitAs 0 depth (!quoted) (c :: before) cs
        else if quoted then splitAs 0 depth quoted (c :: before) cs
        else if c == '(' then splitAs 0 (depth + 1) quoted (c :: before) cs
        else if c == ')' then splitAs 0 (depth - 1) quoted (c :: before) cs
        else splitAs 0 depth quoted (c :: before) cs

/-- A call of a function. -/
def callOf (function argument : List Char) : List Char := function ++ '(' :: argument ++ [')']

/-- `x AS type` as a call of the conversion function. -/
def castCall? (inner : List Char) : Option (List Char) := do
  let (operand, type) ← splitAs 0 0 false [] inner
  let function ← conversion? type
  some (callOf function (Text.trim operand))

/-- Replaces the `CAST` calls of a text. -/
def convertCasts (cs : List Char) : List Char := replaceCalls "cast" castCall? cs

end Sql
end CardTransfer
