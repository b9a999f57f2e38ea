import CardTransfer.Decimal.Binary64
import CardTransfer.Text.Blank
import CardTransfer.Text.Digit

/-!
# Numerals in texts

Numbers read from texts, for instance from a configuration or the command line.

* Blank characters around a numeral do not count; the four separators 28 – 31 are not blank here.
* Digits of any script are digits. One underscore may stand between two digits.
* A whole number is an optional sign and digits, at most 4300 of them, leading zeros included.
* A decimal has digits before or after its point, or on both sides, and may end with an exponent.
  `inf`, `infinity` and `nan` are read in any letter case.
-/

namespace CardTransfer
namespace Text

/-- The decimal text of a whole number. -/
def ofNat (n : Nat) : String := String.ofList (Nat.toDigits 10 n)

/-- The decimal text of an integer. -/
def ofInt (n : Int) : String := if n < 0 then "-" ++ ofNat n.natAbs else ofNat n.natAbs

/-- Blank characters that may surround a numeral. -/
def isNumeralBlank (c : Char) : Bool := isBlank c && !(28 ≤ c.toNat && c.toNat ≤ 31)

/-- A text without the blank characters around it, digits of any script written as `0` – `9`. -/
def numeralOf (cs : List Char) : List Char :=
  let inner := ((cs.dropWhile isNumeralBlank).reverse.dropWhile isNumeralBlank).reverse
  inner.map fun c => match digitValue? c with
    | some d => Nat.digitChar d
    | none => c

/-- A sign, if there is one, and the rest. -/
def takeSign : List Char → Bool × List Char
  | '-' :: cs => (true, cs)
  | '+' :: cs => (false, cs)
  | cs => (false, cs)

/-- The text without its underscores, each of which must stand between two digits. -/
def joinDigits? : List Char → Option (List Char)
  | [] => some []
  | '_' :: _ => none
  | [c] => some [c]
  | c :: '_' :: d :: cs =>
    if c.isDigit && d.isDigit then (joinDigits? (d :: cs)).map (c :: ·) else none
  | c :: d :: cs => (joinDigits? (d :: cs)).map (c :: ·)

/-- What a row of digits `0` – `9` is worth. -/
def digitsValue (ds : List Char) : Nat := ds.foldl (fun n c => 10 * n + (c.toNat - 48)) 0

theorem digitsValue_append (ds : List Char) (c : Char) :
    digitsValue (ds ++ [c]) = 10 * digitsValue ds + (c.toNat - 48) := by
  simp [digitsValue]

/-- The most digits of a whole number. -/
def digitLimit : Nat := 4300

/-- What a message says about a number with too many digits. -/
def tooManyDigits (count : Nat) : String :=
  "Exceeds the limit (" ++ ofNat digitLimit ++ " digits) for integer string conversion: value has "
    ++ ofNat count ++ " digits; use sys.set_int_max_str_digits() to increase the limit"

/-- How many digits a whole number in a text has, if they are too many. -/
def excess? (cs : List Char) : Option Nat :=
  let (_, body) := takeSign (numeralOf cs)
  let count := ((body.takeWhile fun c => c.isDigit || c == '_').filter Char.isDigit).length
  if digitLimit < count then some count else none

/-- The integer that a text spells, with no more digits than are allowed. -/
def toInt? (cs : List Char) : Option Int := do
  let (negative, body) := takeSign (numeralOf cs)
  let digits ← joinDigits? body
  if digits.isEmpty || !digits.all Char.isDigit || digitLimit < digits.length then none
  else
    let n := digitsValue digits
    some (if negative then -Int.ofNat n else Int.ofNat n)

/-- An exponent at the end of a decimal; zero where there is none. -/
def toExponent? : List Char → Option Int
  | [] => some 0
  | c :: cs =>
    if c == 'e' || c == 'E' then
      let (negative, digits) := takeSign cs
      if digits.isEmpty || !digits.all Char.isDigit then none
      else some (if negative then -Int.ofNat (digitsValue digits) else Int.ofNat (digitsValue digits))
    else none

/-- The double nearest to the decimal that a text spells. -/
def toFloat? (cs : List Char) : Option Float := do
  let body ← joinDigits? (numeralOf cs)
  let (negative, rest) := takeSign body
  let word := rest.map Char.toLower
  if word == "inf".toList || word == "infinity".toList then
    some (Decimal.infinity negative)
  else if word == "nan".toList then some (0.0 / 0.0)
  else
    let whole := rest.takeWhile Char.isDigit
    let afterWhole := rest.dropWhile Char.isDigit
    let (fraction, tail) := match afterWhole with
      | '.' :: more => (more.takeWhile Char.isDigit, more.dropWhile Char.isDigit)
      | more => ([], more)
    if whole.isEmpty && fraction.isEmpty then none
    else
      let exponent ← toExponent? tail
      some (Decimal.nearest negative (digitsValue (whole ++ fraction))
        (exponent - Int.ofNat fraction.length))

end Text
end CardTransfer
