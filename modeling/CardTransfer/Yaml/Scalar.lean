import CardTransfer.Json.Access
import CardTransfer.Yaml.Moment
import CardTransfer.Yaml.Quotation

/-!
# What scalars stand for

Every scalar is of a kind, which its tag tells, or if it is plain and has no tag, its text:

| text | kind |
| --- | --- |
| `yes`, `true`, `on`, `no`, `false`, `off`, also capitalized or in capitals | truth value |
| digits with a point, with an exponent only if that has a sign; `.inf`, `.nan` | double |
| digits after an optional sign; binary after `0b`, octal after `0`, hexadecimal after `0x` | integer |
| numbers with colons between them, all but the first below sixty | integer or double in base sixty |
| `<<` | merge |
| empty, `~`, `null`, `Null`, `NULL` | null |
| dates and points in time | time |
| `=` | default |
| anything else | text |

Underscores between digits do not count. A double in base sixty is summed up from its last part on,
each part rounded on its own.
-/

namespace CardTransfer
namespace Yaml

/-- What a scalar is. -/
inductive Kind where
  | truth
  | decimal
  | integer
  | merge
  | null
  | time
  | default
  | text
  /-- A tag without a meaning for scalars. -/
  | other
  deriving DecidableEq, Repr

/-- Spellings of truth values. -/
def truthWords : List (String × Bool) :=
  ["yes", "true", "on"].map (·, true) ++ ["no", "false", "off"].map (·, false)

/-- A word as it stands, capitalized and in capitals. -/
def casings (word : String) : List String := [word, word.capitalize, word.toUpper]

/-- Spellings of null. -/
def nullWords : List String := "" :: "~" :: casings "null"

/-- Digits and underscores, a digit first. -/
def isNumeral (cs : List Char) : Bool :=
  cs.head?.any Char.isDigit && cs.all fun c => c.isDigit || c == '_'

/-- A text cut at each colon. -/
def colonParts (cs : List Char) : List (List Char) :=
  cs.foldr (fun c parts =>
    match c, parts with
    | ':', _ => [] :: parts
    | _, part :: rest => (c :: part) :: rest
    | _, [] => [[c]]) [[]]

/-- One or two digits that spell a number below sixty. -/
def isSixtieth (cs : List Char) : Bool :=
  match cs with
  | [c] => c.isDigit
  | [c, d] => '0' ≤ c && c ≤ '5' && d.isDigit
  | _ => false

/-- Whether a text without its sign spells an integer. -/
def isInteger (cs : List Char) : Bool :=
  match cs with
  | '0' :: 'b' :: ds => !ds.isEmpty && ds.all fun c => c == '0' || c == '1' || c == '_'
  | '0' :: 'x' :: ds => !ds.isEmpty && ds.all fun c => (Json.hexValue? c).isSome || c == '_'
  | '0' :: ds => ds.all fun c => ('0' ≤ c && c ≤ '7') || c == '_'
  | _ =>
    match colonParts cs with
    | first :: rest => isNumeral first && rest.all isSixtieth
    | [] => false

/-- An exponent, which must have a sign. -/
def isExponent (cs : List Char) : Bool :=
  match cs with
  | [] => true
  | e :: sign :: ds =>
    (e == 'e' || e == 'E') && (sign == '-' || sign == '+') && !ds.isEmpty && ds.all Char.isDigit
  | _ => false

/-- Whether a text without its sign spells a double in base sixty. -/
def isSixtyDecimal (cs : List Char) : Bool :=
  match (colonParts cs).reverse with
  | last :: front =>
    match front.reverse, last.dropWhile (· != '.') with
    | first :: middle, _ :: fraction =>
      isNumeral first && middle.all isSixtieth && isSixtieth (last.takeWhile (· != '.')) &&
        fraction.all fun c => c.isDigit || c == '_'
    | _, _ => false
  | [] => false

/-- Whether a text without its sign spells a double. -/
def isDecimal (signed : Bool) (cs : List Char) : Bool :=
  let inNumeral := fun (c : Char) => c.isDigit || c == '_'
  let whole := cs.takeWhile inNumeral
  let inDigits :=
    match cs.dropWhile inNumeral with
    | '.' :: more =>
      let fraction := more.takeWhile inNumeral
      isExponent (more.dropWhile inNumeral) &&
        if whole.isEmpty then !signed && isNumeral fraction else isNumeral whole
    | _ => false
  inDigits || isSixtyDecimal cs || [".inf", ".Inf", ".INF"].contains (String.ofList cs) ||
    (!signed && [".nan", ".NaN", ".NAN"].contains (String.ofList cs))

namespace Kind

/-- The kind of a plain scalar without a tag. -/
def ofPlain (text : String) : Kind :=
  let cs := text.toList
  let body := (Text.takeSign cs).2
  if truthWords.any fun w => (casings w.1).contains text then .truth
  else if isDecimal (body.length < cs.length) body then .decimal
  else if isInteger body then .integer
  else if text == "<<" then .merge
  else if nullWords.contains text then .null
  else if (Moment.ofText? text).isSome then .time
  else if text == "=" then .default
  else .text

/-- The tags of scalars. -/
def tags : List (String × Kind) := [
  ("!!bool", .truth), ("!!float", .decimal), ("!!int", .integer), ("!!merge", .merge),
  ("!!null", .null), ("!!timestamp", .time), ("!!value", .default), ("!!str", .text)]

/-- The kind of a scalar. The tag `!` says no more than none. -/
def ofScalar (tag : Option String) (isPlain : Bool) (text : String) : Kind :=
  match tag with
  | none => if isPlain then ofPlain text else .text
  | some "!" => ofPlain text
  | some tag => (tags.lookup tag).getD .other

end Kind

/-- A number in a base that is a power of two. -/
def basedNumber (base : Nat) (ds : List Char) : Except Fault Nat :=
  match ds.foldlM (fun n c => (Json.hexValue? c).bind fun d =>
    if d < base then some (base * n + d) else none) 0 with
  | some n =>
    if ds.isEmpty then .error (.badValue "invalid literal for int()") else .ok n
  | none => .error (.badValue "invalid literal for int()")

/-- The fault of a number without a first character. -/
def noFirst : Fault := .other "IndexError" "string index out of range"

/-- The number that a text with underscores and a sign spells; a fault if it spells none. -/
def integerOf (text : String) : Except Fault Json := do
  let (negative, cs) := Text.takeSign (text.toList.filter (· != '_'))
  let number := fun (cs : List Char) => (Json.str (String.ofList cs)).toInt
  let magnitude : Int ←
    match cs with
    | [] => throw noFirst
    | ['0'] => pure 0
    | '0' :: 'b' :: ds => Int.ofNat <$> basedNumber 2 ds
    | '0' :: 'x' :: ds => Int.ofNat <$> basedNumber 16 ds
    | '0' :: ds => Int.ofNat <$> basedNumber 8 ds
    | _ =>
      if cs.contains ':' then do
        let parts ← (colonParts cs).mapM number
        pure (parts.foldl (fun n part => 60 * n + part) 0)
      else number cs
  return .int (if negative then -magnitude else magnitude)

/-- The sum of parts in base sixty, the last part first; `places` is what the next part is worth. -/
def sixtySum (places : Nat) (sum : Float) : List Float → Except Fault Float
  | [] => .ok sum
  | part :: parts => do
    let worth ← (Json.int places).toDouble
    sixtySum (60 * places) (sum + part * worth) parts

/-- The double that a text with underscores and a sign spells; a fault if it spells none. -/
def decimalOf (text : String) : Except Fault Json := do
  if (text.toList.filter (· != '_')).isEmpty then throw noFirst
  let (negative, cs) := Text.takeSign ((text.toList.filter (· != '_')).map Char.toLower)
  let number := fun (cs : List Char) => (Json.str (String.ofList cs)).toDouble
  let magnitude ←
    if cs == ".inf".toList then pure (Decimal.infinity false)
    else if cs == ".nan".toList then pure (0.0 / 0.0)
    else if cs.contains ':' then do
      sixtySum 1 0.0 (← (colonParts cs).mapM number).reverse
    else number cs
  return .float (if negative then -magnitude else magnitude)

/-- The date or point in time that a text spells; a fault if there is no such one. -/
def momentOf (text : String) : Except Fault Json :=
  match Moment.ofText? text with
  | some m =>
    if m.isValid then .ok (.moment m.shown m.time?.isSome)
    else .error (.badValue "value is out of range")
  | none => .error (Json.null.lacks "groupdict")

/-- The value of a scalar of a kind. -/
def Kind.value (text : String) : Kind → Except Fault Json
  | .truth =>
    match truthWords.lookup (text.map Char.toLower) with
    | some b => .ok (.bool b)
    | none => .error (.missingKey text)
  | .decimal => decimalOf text
  | .integer => integerOf text
  | .null => .ok .null
  | .time => momentOf text
  | .text => .ok (.str text)
  | .merge | .default | .other =>
    .error (unfit "could not determine a constructor for the tag")

end Yaml
end CardTransfer
