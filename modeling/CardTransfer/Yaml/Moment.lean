import CardTransfer.Json.Basic
import CardTransfer.Text.Numeral

/-!
# Dates and points in time

A date is written `2024-01-02`. A point in time is a date, whose month and day may have one digit, a
`T` or blanks, and a time of day, perhaps with a fraction of a second and an offset of its zone:
`2024-1-2T3:04:05.25 +01:00`. Either is shown in one form, with all digits:

| written | shown |
| --- | --- |
| `2024-01-02` | `2024-01-02` |
| `2024-1-2T3:04:05` | `2024-01-02 03:04:05` |
| `2024-01-02 03:04:05.25Z` | `2024-01-02 03:04:05.250000+00:00` |
| `2024-01-02 03:04:05 -5:30` | `2024-01-02 03:04:05-05:30` |

Digits of the fraction after the sixth do not count.
-/

namespace CardTransfer
namespace Yaml

/-- A time of day with millionths of a second, and the offset of its zone in minutes, if it has
one. -/
structure TimeOfDay where
  hour : Nat
  minute : Nat
  second : Nat
  micros : Nat
  offset? : Option Int
  deriving DecidableEq, Repr

/-- A date or a point in time, as written. -/
structure Moment where
  year : Nat
  month : Nat
  day : Nat
  time? : Option TimeOfDay
  deriving DecidableEq, Repr

namespace Moment

/-- From `least` to `most` digits, as many as there are: their number, their value and the rest. -/
def digits? (least most : Nat) (cs : List Char) : Option (Nat × Nat × List Char) :=
  let ds := (cs.take most).takeWhile Char.isDigit
  if ds.length < least then none else some (ds.length, Text.digitsValue ds, cs.drop ds.length)

/-- The text after a character. -/
def after? (c : Char) : List Char → Option (List Char)
  | d :: rest => if d == c then some rest else none
  | [] => none

/-- The text without blanks in front. -/
def dropBlanks (cs : List Char) : List Char := cs.dropWhile fun c => c == ' ' || c == '\t'

/-- The offset of a zone, which must be all that is left; none if nothing is left. -/
def offset? (cs : List Char) : Option (Option Int) :=
  match dropBlanks cs with
  | [] => if cs.isEmpty then some none else none
  | ['Z'] => some (some 0)
  | sign :: rest => do
    guard (sign == '+' || sign == '-')
    let (_, hours, rest) ← digits? 1 2 rest
    let (minutes, rest) ←
      match rest with
      | ':' :: rest => do
        let (_, minutes, rest) ← digits? 2 2 rest
        some (minutes, rest)
      | _ => some (0, rest)
    guard rest.isEmpty
    let size := Int.ofNat (60 * hours + minutes)
    some (some (if sign == '-' then -size else size))

/-- The time of day that a text spells. -/
def timeOfDay? (cs : List Char) : Option TimeOfDay := do
  let (_, hour, rest) ← digits? 1 2 cs
  let (_, minute, rest) ← digits? 2 2 (← after? ':' rest)
  let (_, second, rest) ← digits? 2 2 (← after? ':' rest)
  let fraction := match rest with
    | '.' :: more => more.takeWhile Char.isDigit
    | _ => []
  let rest := match rest with
    | '.' :: more => more.dropWhile Char.isDigit
    | _ => rest
  let kept := fraction.take 6
  let offset? ← offset? rest
  some {
    hour, minute, second, offset?
    micros := Text.digitsValue (kept ++ List.replicate (6 - kept.length) '0') }

/-- The date or point in time that a text spells. -/
def ofText? (text : String) : Option Moment := do
  let (_, year, rest) ← digits? 4 4 text.toList
  let (monthSize, month, rest) ← digits? 1 2 (← after? '-' rest)
  let (daySize, day, rest) ← digits? 1 2 (← after? '-' rest)
  match rest with
  | [] => if monthSize == 2 && daySize == 2 then some ⟨year, month, day, none⟩ else none
  | c :: more => do
    let time ←
      if c == 'T' || c == 't' then timeOfDay? more
      else if c == ' ' || c == '\t' then timeOfDay? (dropBlanks more)
      else none
    some ⟨year, month, day, some time⟩

/-- The number of days of a month. -/
def daysIn (year month : Nat) : Nat :=
  if month == 2 then
    if year % 4 == 0 && (year % 100 != 0 || year % 400 == 0) then 29 else 28
  else if month == 4 || month == 6 || month == 9 || month == 11 then 30
  else 31

/-- Whether there is such a time of day; an offset must be less than a day. -/
def TimeOfDay.isValid (t : TimeOfDay) : Bool :=
  t.hour < 24 && t.minute < 60 && t.second < 60 && t.offset?.all fun n => n.natAbs < 24 * 60

/-- Whether there is such a date or point in time. -/
def isValid (m : Moment) : Bool :=
  1 ≤ m.year && 1 ≤ m.month && m.month ≤ 12 && 1 ≤ m.day && m.day ≤ daysIn m.year m.month &&
    m.time?.all TimeOfDay.isValid

/-- A number with at least `width` digits. -/
def padded (width n : Nat) : String :=
  let ds := Nat.toDigits 10 n
  String.ofList (List.replicate (width - ds.length) '0' ++ ds)

/-- An offset with its sign. -/
def shownOffset (n : Int) : String :=
  (if n < 0 then "-" else "+") ++ padded 2 (n.natAbs / 60) ++ ":" ++ padded 2 (n.natAbs % 60)

/-- The form in which a date or a point in time is shown. -/
def shown (m : Moment) : String :=
  let date := padded 4 m.year ++ "-" ++ padded 2 m.month ++ "-" ++ padded 2 m.day
  match m.time? with
  | none => date
  | some t =>
    date ++ " " ++ padded 2 t.hour ++ ":" ++ padded 2 t.minute ++ ":" ++ padded 2 t.second ++
      (if t.micros == 0 then "" else "." ++ padded 6 t.micros) ++
      ((t.offset?.map shownOffset).getD "")

end Moment
end Yaml
end CardTransfer
