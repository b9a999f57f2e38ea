import CardTransfer.Fault
import CardTransfer.Text.Numeral

/-!
# Parts of documents

Documents that come from outside need not have the expected shape. The functions below take parts
out of a value or convert it, and name the fault where the value does not allow it.
-/

namespace CardTransfer
namespace Json

/-- What kind of value a message says a value is. -/
def kindName : Json → String
  | null => "NoneType"
  | bool _ => "bool"
  | int _ => "int"
  | float _ => "float"
  | str _ => "str"
  | arr _ => "list"
  | obj _ => "dict"
  | moment _ timed => if timed then "datetime.datetime" else "datetime.date"

/-- The fault of a value that lacks a part because of its kind. -/
def lacks (v : Json) (part : String) : Fault :=
  .badPart ("'" ++ v.kindName ++ "' object has no attribute '" ++ part ++ "'")

/-- The members of a value that must be an object for `part` to be taken from it. -/
def membersFor (v : Json) (part : String) : Except Fault Members :=
  match v with
  | obj ms => .ok ms
  | other => .error (other.lacks part)

/-- The value under a key of an object; null if the key is missing. -/
def find (v : Json) (key : String) : Except Fault Json := do
  return ofOption (Members.get? (← v.membersFor "get") key)

/-- The value under a key that must be there. -/
def require (v : Json) (key : String) : Except Fault Json :=
  match v with
  | obj ms =>
    match Members.get? ms key with
    | some w => .ok w
    | none => .error (.missingKey key)
  | str _ => .error (.badType "string indices must be integers, not 'str'")
  | arr _ => .error (.badType "list indices must be integers or slices, not str")
  | other => .error (.badType ("'" ++ other.kindName ++ "' object is not subscriptable"))

/-- What a value yields one by one: the items of a list, the keys of an object, the characters of a
text. -/
def each (v : Json) : Except Fault (List Json) :=
  match v with
  | arr items => .ok items
  | obj ms => .ok (ms.map fun p => str p.1)
  | str s => .ok (s.toList.map fun c => str (String.ofList [c]))
  | other => .error (.badType ("'" ++ other.kindName ++ "' object is not iterable"))

/-- The text that a value must be for `part` to be taken from it. -/
def textFor (v : Json) (part : String) : Except Fault String :=
  match v with
  | str s => .ok s
  | other => .error (other.lacks part)

/-- Texts with a separator between them; a fault if one of the values is no text. -/
def joined (separator : String) (vs : List Json) : Except Fault String :=
  match vs.findIdx? fun v => v.str?.isNone with
  | some n => .error (.badType ("sequence item " ++ Text.ofNat n ++ ": expected str instance, "
      ++ (vs.getD n null).kindName ++ " found"))
  | none => .ok (separator.intercalate (vs.filterMap str?))

/-- A value as an integer: integers as they are, doubles without their fraction, texts as
numerals. -/
def toInt (v : Json) : Except Fault Int :=
  match v with
  | int n => .ok n
  | bool b => .ok (if b then 1 else 0)
  | float x =>
    match Decimal.exact x with
    | .notANumber => .error (.badValue "cannot convert float NaN to integer")
    | .infinite _ => .error (.tooLarge "cannot convert float infinity to integer")
    | .finite .. => .ok ((Decimal.truncate? x).getD 0)
  | str s =>
    match Text.excess? s.toList, Text.toInt? s.toList with
    | some count, _ => .error (.badValue (Text.tooManyDigits count))
    | none, some n => .ok n
    | none, none => .error (.badValue ("invalid literal for int() with base 10: " ++ Text.quoted s))
  | other =>
    .error (.badType ("int() argument must be a string, a bytes-like object or a real number, not '"
      ++ other.kindName ++ "'"))

/-- A value as a double: numbers by the nearest double, texts as decimals. -/
def toDouble (v : Json) : Except Fault Float :=
  match v with
  | float x => .ok x
  | bool b => .ok (if b then 1.0 else 0.0)
  | int n =>
    match Decimal.ofInt? n with
    | some x => .ok x
    | none => .error (.tooLarge "int too large to convert to float")
  | str s =>
    match Text.toFloat? s.toList with
    | some x => .ok x
    | none => .error (.badValue ("could not convert string to float: " ++ Text.quoted s))
  | other =>
    .error (.badType ("float() argument must be a string or a real number, not '"
      ++ other.kindName ++ "'"))

/-- The number that a value must be to be compared with one of another kind. -/
def comparand (v : Json) (comparison other : String) : Except Fault Number :=
  match v.number? with
  | some n => .ok n
  | none => .error (.badType ("'" ++ comparison ++ "' not supported between instances of '" ++ other
      ++ "' and '" ++ v.kindName ++ "'"))

/-- The fault of two values that an operation does not take together. -/
def unfit (operation : String) (a b : Json) : Fault :=
  .badType ("unsupported operand type(s) for " ++ operation ++ ": '" ++ a.kindName ++ "' and '"
    ++ b.kindName ++ "'")

/-- The sum of a number and a value, under the sign that a message gives the operation. -/
def plus (sign : String) (a : Number) (v : Json) : Except Fault Number :=
  match a, v.number? with
  | _, none => .error (unfit sign a.toJson v)
  | .float _, some (.int n) =>
    if (Decimal.ofInt? n).isSome then .ok (a.add (.int n))
    else .error (.tooLarge "int too large to convert to float")
  | _, some n => .ok (a.add n)

/-- An id that must be usable as a key. -/
def asKey (v : Json) : Except Fault Json :=
  if v.isCompound then .error (.badType ("unhashable type: '" ++ v.kindName ++ "'")) else .ok v

end Json

namespace Ids

/-- The first two neighbours that have no order, the later one first. -/
def unordered? : Ids → Option (Json × Json)
  | a :: b :: rest => if (order? b a).isSome then unordered? (b :: rest) else some (b, a)
  | _ => none

/-- The ids in increasing order; a fault if they have none. -/
def sort (ids : Ids) : Except Fault Ids :=
  if ids.sortable then .ok ids.sorted
  else
    let (b, a) := (unordered? ids).getD (.null, .null)
    .error (.badType ("'<' not supported between instances of '" ++ b.kindName ++ "' and '"
      ++ a.kindName ++ "'"))

/-- The values of a map in the order of their ids. -/
def sortValues {α : Type} (m : IdMap α) : Except Fault (List α) := do
  return (← sort (IdMap.ids m)).filterMap (IdMap.get? m)

/-- Ids that have an order are put into it. -/
theorem sort_eq_ok {ids : Ids} (h : ids.sortable = true) : ids.sort = .ok ids.sorted := by
  unfold sort
  rw [if_pos h]

end Ids
end CardTransfer
