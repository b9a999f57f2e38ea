import CardTransfer.Json.Display
import CardTransfer.Sorting
import CardTransfer.Text.Printable

/-!
# Writing documents

Documents are written in ASCII. In a text the quote, the backslash and the common control
characters have two-character escapes; every other character outside `' '` – `'~'` is written as
`\uXXXX`, in two units if it lies beyond 65535. Doubles are written as in messages, except for
`NaN` and `Infinity`, which have names of their own.

A document stands on one line, with `", "` between parts and `": "` after keys, or is set out with
one part per line and two more spaces for each level; an empty list or object is never broken. The
members of an object come in their own order or sorted by key. A date or a point in time is written as
the text that shows it.
-/

namespace CardTransfer
namespace Json

/-- `\uXXXX` for a unit of 16 bits. -/
def unitEscape (n : Nat) : List Char := '\\' :: 'u' :: Text.hex 4 n

/-- A character inside a written text. -/
def escapeChar (c : Char) : List Char :=
  if c == '"' then ['\\', '"']
  else if c == '\\' then ['\\', '\\']
  else if c == '\n' then ['\\', 'n']
  else if c == '\r' then ['\\', 'r']
  else if c == '\t' then ['\\', 't']
  else if c == '\x0c' then ['\\', 'f']
  else if c == '\x08' then ['\\', 'b']
  else if 32 ≤ c.toNat && c.toNat ≤ 126 then [c]
  else (Text.unitsOf c).flatMap unitEscape

/-- A text with its quotes. -/
def writeText (s : String) : String :=
  String.ofList ('"' :: s.toList.flatMap escapeChar ++ ['"'])

/-- Doubles in documents. -/
def writtenFloat : Decimal.Layout :=
  { shownFloat with infinite := "Infinity", notANumber := "NaN" }

/-- How a document is set out. -/
structure Style where
  /-- One part per line, or everything on one line. -/
  broken : Bool
  /-- Members by key, or in their own order. -/
  byKey : Bool

/-- Everything on one line, members in their own order. -/
def Style.line : Style := ⟨false, false⟩

/-- One part per line, members in their own order. -/
def Style.page : Style := ⟨true, false⟩

/-- One part per line, members by key. -/
def Style.file : Style := ⟨true, true⟩

/-- The start of a line at a depth. -/
def lineStart (depth : Nat) : String := String.ofList ('\n' :: List.replicate (2 * depth) ' ')

/-- Written parts between brackets at a depth. -/
def Style.enclose (style : Style) (depth : Nat) (left right : String) (parts : List String) :
    String :=
  if parts.isEmpty then left ++ right
  else if style.broken then
    left ++ lineStart (depth + 1) ++ ("," ++ lineStart (depth + 1)).intercalate parts ++
      lineStart depth ++ right
  else left ++ ", ".intercalate parts ++ right

/-- Members, written or not, in the order of their keys or as they come. -/
def Style.arrange {α : Type} (style : Style) (parts : List (String × α)) : List (String × α) :=
  if style.byKey then Sorting.sort (fun a b => !(b.1 < a.1)) parts else parts

mutual

/-- A document written at a depth. -/
def writeAt (style : Style) (depth : Nat) : Json → String
  | null => "null"
  | bool b => if b then "true" else "false"
  | int n => Text.ofInt n
  | float x => writtenFloat.write x
  | str s => writeText s
  | arr items => style.enclose depth "[" "]" (writeItems style (depth + 1) items)
  | obj ms =>
    style.enclose depth "\x7b" "\x7d" <|
      (style.arrange (writeMembers style (depth + 1) ms)).map fun p => writeText p.1 ++ ": " ++ p.2
  | moment s _ => writeText s

/-- The items of a list, each written at a depth. -/
def writeItems (style : Style) (depth : Nat) : List Json → List String
  | [] => []
  | v :: vs => writeAt style depth v :: writeItems style depth vs

/-- The members of an object, each value written at a depth. -/
def writeMembers (style : Style) (depth : Nat) : List (String × Json) → List (String × String)
  | [] => []
  | (k, v) :: ms => (k, writeAt style depth v) :: writeMembers style depth ms

end

/-- A document as text. -/
def write (style : Style) (v : Json) : String := writeAt style 0 v

end Json
end CardTransfer
