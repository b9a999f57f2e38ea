import CardTransfer.Fault
import CardTransfer.Text.Numeral
import CardTransfer.Text.Unit

/-!
# Reading documents

A reader takes one document from a text, with blanks (space, tab, line feed, carriage return)
around its parts.

* Numbers have a sign at most in front, no leading zeros, and become doubles when they have a
  fraction or an exponent. `NaN`, `Infinity` and `-Infinity` are read as doubles.
* Texts may not hold control characters. Two `\u` escapes that form a pair are one character; half
  of a pair on its own is kept as such.
* Of several members with one key the last gives the value and the first the place.

Text that is not a document is refused with what was expected and where: line and column count
from 1, the offset from 0. The rest of the text is passed along as a list of characters, so that
the place of a failure is the length of the text less the length of the rest. An integer with too many
digits is refused as a value.
-/

namespace CardTransfer
namespace Json

/-- Why a text is not read. -/
inductive Refusal where
  /-- What was expected, and the text from the place where it was not found. -/
  | unexpected (expected : String) (rest : List Char)
  /-- An integer has that many digits. -/
  | tooLong (digits : Nat)

/-- A reader takes something from the front of a text. -/
abbrev Reading (α : Type) := Except Refusal (α × List Char)

/-- Spaces between the parts of a document. -/
def isGap (c : Char) : Bool := c == ' ' || c == '\t' || c == '\n' || c == '\r'

/-- The text without the gap in front. -/
def skipGap (cs : List Char) : List Char := cs.dropWhile isGap

theorem length_skipGap (cs : List Char) : (skipGap cs).length ≤ cs.length :=
  (List.dropWhile_sublist _).length_le

/-- What a hexadecimal digit is worth. -/
def hexValue? (c : Char) : Option Nat :=
  if '0' ≤ c && c ≤ '9' then some (c.toNat - 48)
  else if 'a' ≤ c && c ≤ 'f' then some (c.toNat - 87)
  else if 'A' ≤ c && c ≤ 'F' then some (c.toNat - 55)
  else none

/-- Four hexadecimal digits inside a text, so that at least its closing quote follows. -/
def hexUnit? : List Char → Option (Nat × List Char)
  | a :: b :: c :: d :: e :: cs => do
    let w ← hexValue? a
    let x ← hexValue? b
    let y ← hexValue? c
    let z ← hexValue? d
    some (((w * 16 + x) * 16 + y) * 16 + z, e :: cs)
  | _ => none

/-- The character of a two-character escape. -/
def escaped? : Char → Option Char
  | '"' => some '"'
  | '\\' => some '\\'
  | '/' => some '/'
  | 'b' => some '\x08'
  | 'f' => some '\x0c'
  | 'n' => some '\n'
  | 'r' => some '\r'
  | 't' => some '\t'
  | _ => none

/-- The character after `\u`: a unit, or two units that form a pair. -/
def unitChar? (cs : List Char) : Option (Char × List Char) := do
  let (n, rest) ← hexUnit? cs
  let alone := (Text.charOfUnit n, rest)
  if Text.isFirstHalf n then
    match rest with
    | '\\' :: 'u' :: more =>
      match hexUnit? more with
      | some (m, after) =>
        some (if Text.isSecondHalf m then (Text.charOfPair n m, after) else alone)
      | none => some alone
    | _ => some alone
  else some alone

/-- The characters of a text up to its closing quote. `start` is the text from the opening quote
on, `fuel` bounds the number of characters. -/
def readText (start : List Char) : Nat → List Char → List Char → Reading String
  | 0, _, _ => .error (.unexpected "Unterminated string starting at" start)
  | fuel + 1, acc, cs =>
    match cs with
    | [] => .error (.unexpected "Unterminated string starting at" start)
    | '"' :: rest => .ok (String.ofList acc.reverse, rest)
    | ['\\'] => .error (.unexpected "Unterminated string starting at" start)
    | '\\' :: 'u' :: rest =>
      match unitChar? rest with
      | some (c, after) => readText start fuel (c :: acc) after
      | none => .error (.unexpected "Invalid \\uXXXX escape" ('u' :: rest))
    | '\\' :: e :: rest =>
      match escaped? e with
      | some c => readText start fuel (c :: acc) rest
      | none => .error (.unexpected "Invalid \\escape" cs)
    | c :: rest =>
      if c.toNat < 32 then .error (.unexpected "Invalid control character at" cs)
      else readText start fuel (c :: acc) rest

/-- The digits of the whole part of a number: a zero alone, or digits that start with no zero. -/
def wholeDigits : List Char → List Char
  | '0' :: _ => ['0']
  | cs => cs.takeWhile Char.isDigit

/-- The fraction of a number: a point and at least one digit. -/
def fractionDigits : List Char → List Char
  | '.' :: cs => cs.takeWhile Char.isDigit
  | _ => []

/-- The exponent of a number with the length of its text. -/
def exponentPart : List Char → Option (Int × Nat)
  | [] => none
  | e :: cs =>
    if e == 'e' || e == 'E' then
      let (negative, digits) := Text.takeSign cs
      let ds := digits.takeWhile Char.isDigit
      if ds.isEmpty then none
      else
        let n := Int.ofNat (Text.digitsValue ds)
        some (if negative then -n else n, 1 + (cs.length - digits.length) + ds.length)
    else none

/-- A number, without its sign. -/
def readNumber (negative : Bool) (cs : List Char) : Reading Json :=
  let whole := wholeDigits cs
  if whole.isEmpty then .error (.unexpected "Expecting value" cs)
  else
    let afterWhole := cs.drop whole.length
    let fraction := fractionDigits afterWhole
    let afterFraction := if fraction.isEmpty then afterWhole else afterWhole.drop (fraction.length + 1)
    match exponentPart afterFraction with
    | some (e, size) =>
      let m := Text.digitsValue (whole ++ fraction)
      .ok (float (Decimal.nearest negative m (e - Int.ofNat fraction.length)), afterFraction.drop size)
    | none =>
      if fraction.isEmpty then
        if Text.digitLimit < whole.length then .error (.tooLong whole.length)
        else
          let n := Int.ofNat (Text.digitsValue whole)
          .ok (int (if negative then -n else n), afterWhole)
      else
        let m := Text.digitsValue (whole ++ fraction)
        .ok (float (Decimal.nearest negative m (-Int.ofNat fraction.length)), afterFraction)

/-- What follows a word in a text. -/
def afterWord? (word : String) (cs : List Char) : Option (List Char) :=
  if word.toList.isPrefixOf cs then some (cs.drop word.length) else none

/-- The values that are spelled by a word. -/
def wordValues : List (String × Json) :=
  [("null", null), ("true", bool true), ("false", bool false), ("NaN", float (0.0 / 0.0)),
    ("Infinity", float (1.0 / 0.0)), ("-Infinity", float (-1.0 / 0.0))]

/-- A word or a number. -/
def readScalar (cs : List Char) : Reading Json :=
  match wordValues.findSome? fun p => (afterWord? p.1 cs).map fun rest => (p.2, rest) with
  | some r => .ok r
  | none =>
    match cs with
    | '-' :: rest =>
      match readNumber true rest with
      | .error (.unexpected expected _) => .error (.unexpected expected cs)
      | r => r
    | _ => readNumber false cs

mutual

/-- A document. `fuel` bounds the number of parts still to be read. -/
def readValue : Nat → List Char → Reading Json
  | 0, cs => .error (.unexpected "Expecting value" cs)
  | fuel + 1, cs =>
    match cs with
    | '"' :: rest => (readText cs (rest.length + 1) [] rest).map fun (s, after) => (str s, after)
    | '[' :: rest =>
      match skipGap rest with
      | ']' :: after => .ok (arr [], after)
      | first => (readItems fuel [] first).map fun (items, after) => (arr items, after)
    | '\x7b' :: rest =>
      match skipGap rest with
      | '\x7d' :: after => .ok (obj [], after)
      | first => (readMembers fuel [] first).map fun (ms, after) => (obj ms, after)
    | _ => readScalar cs

/-- The items of a list from the first on, and its closing bracket. -/
def readItems : Nat → List Json → List Char → Reading (List Json)
  | 0, _, cs => .error (.unexpected "Expecting value" cs)
  | fuel + 1, acc, cs =>
    match readValue fuel cs with
    | .error e => .error e
    | .ok (v, rest) =>
      match skipGap rest with
      | ']' :: after => .ok ((v :: acc).reverse, after)
      | ',' :: more => readItems fuel (v :: acc) (skipGap more)
      | other => .error (.unexpected "Expecting ',' delimiter" other)

/-- The members of an object from the first on, and its closing brace. -/
def readMembers : Nat → Members → List Char → Reading Members
  | 0, _, cs => .error (.unexpected "Expecting value" cs)
  | fuel + 1, acc, cs =>
    match cs with
    | '"' :: keyText =>
      match readText cs (keyText.length + 1) [] keyText with
      | .error e => .error e
      | .ok (key, afterKey) =>
        match skipGap afterKey with
        | ':' :: beforeValue =>
          match readValue fuel (skipGap beforeValue) with
          | .error e => .error e
          | .ok (v, rest) =>
            match skipGap rest with
            | '\x7d' :: after => .ok (acc.insert key v, after)
            | ',' :: more => readMembers fuel (acc.insert key v) (skipGap more)
            | other => .error (.unexpected "Expecting ',' delimiter" other)
        | other => .error (.unexpected "Expecting ':' delimiter" other)
    | other => .error (.unexpected "Expecting property name enclosed in double quotes" other)

end

/-- Where a text goes on with `rest`, in words: line and column from 1, the offset from 0. -/
def placeIn (text rest : List Char) : String :=
  let offset := text.length - rest.length
  let before := text.take offset
  let line := before.count '\n' + 1
  let column := (before.reverse.takeWhile (· != '\n')).length + 1
  "line " ++ Text.ofNat line ++ " column " ++ Text.ofNat column ++ " (char " ++ Text.ofNat offset ++ ")"

/-- The fault of a text that is refused. -/
def Refusal.fault (text : List Char) : Refusal → Fault
  | unexpected expected rest => .badDocument (expected ++ ": " ++ placeIn text rest)
  | tooLong digits => .badValue (Text.tooManyDigits digits)

/-- The document that a text is. -/
def parse (text : String) : Except Fault Json :=
  let cs := text.toList
  let read : Except Refusal Json := do
    if cs.head? == some '\ufeff' then
      throw (.unexpected "Unexpected UTF-8 BOM (decode using utf-8-sig)" cs)
    let (v, rest) ← readValue (2 * cs.length + 2) (skipGap cs)
    match skipGap rest with
    | [] => return v
    | extra => throw (.unexpected "Extra data" extra)
  read.mapError (Refusal.fault cs)

end Json
end CardTransfer
