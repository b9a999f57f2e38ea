import CardTransfer.Sql.Date
import CardTransfer.Sql.PostfixCast

/-!
# From the PostgreSQL dialect to ClickHouse

The rules that need no oracle, in the order in which they are applied: cast calls, postfix casts,
starts and parts of dates, trimming of blanks, and four names. Names are exchanged outside of
literals only; `btrim` with a second argument has no counterpart and stays.
-/

namespace CardTransfer
namespace Sql

/-- `btrim` of one argument. -/
def trimCall? (inner : List Char) : Option (List Char) :=
  match arguments inner with
  | [operand] => some (callOf "trimBoth".toList operand)
  | _ => none

/-- The head of a call of a function. -/
def callRule (name : List Char) : Text.Rule Unit := fun before cs =>
  (callHead? name before cs).map fun n => (n, ())

/-- The word `current_date`, unless it is called as a function. -/
def todayRule : Text.Rule Unit := fun before cs =>
  let word := "current_date".toList
  let rest := cs.drop word.length
  if Text.breaksBefore before && Text.startsWith word cs && Text.breaksAfter rest &&
      (rest.drop (Text.blankLength rest)).head? != some '(' then some (word.length, ())
  else none

/-- Names, and what is written instead. -/
def renames : List (Text.Rule Unit × String) := [
  (callRule "character_length".toList, "lengthUTF8("),
  (callRule "char_length".toList, "lengthUTF8("),
  (callRule "strpos".toList, "position("),
  (todayRule, "today()")]

/-- Exchanges one name outside of literals. -/
def rename (rule : Text.Rule Unit) (text : String) (cs : List Char) : List Char :=
  mapOutside (Text.replace rule fun _ => some text.toList) cs

/-- Applies all rules. -/
def applyRules (cs : List Char) : List Char :=
  let dated := replaceDatePart (replaceDateTrunc (convertPostfixCasts (convertCasts cs)))
  renames.foldl (fun text r => rename r.1 r.2 text) (replaceCalls "btrim" trimCall? dated)

/-- Applies all rules to a query. -/
def toClickHouse (sql : String) : String := String.ofList (applyRules sql.toList)

end Sql
end CardTransfer
