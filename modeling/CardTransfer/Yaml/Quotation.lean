import CardTransfer.Json.Parser
import CardTransfer.Yaml.Cursor

/-!
# Scalars in quotes

In single quotes a quote is written twice and all else stands for itself. In double quotes a
backslash starts an escape:

| escape | what it stands for |
| --- | --- |
| a letter, a digit or a mark of `escapes` | the character listed there |
| `x`, `u`, `U` and 2, 4, 8 hexadecimal digits | the unit with that number |
| a line end | nothing; blanks at the start of the next line do not count |

Blanks with line ends among them are folded. No document mark may stand at the start of a line.
-/

namespace CardTransfer
namespace Yaml

/-- The characters that escapes of one character stand for. -/
def escapes : List (Char × Char) := [
  ('0', '\x00'), ('a', '\x07'), ('b', '\x08'), ('t', '\t'), ('\t', '\t'), ('n', '\n'),
  ('v', '\x0b'), ('f', '\x0c'), ('r', '\r'), ('e', '\x1b'), (' ', ' '), ('"', '"'),
  ('\\', '\\'), ('/', '/'), ('N', '\u0085'), ('_', '\u00a0'), ('L', '\u2028'), ('P', '\u2029')]

/-- The number of hexadecimal digits after a letter in an escape. -/
def hexDigits : List (Char × Nat) := [('x', 2), ('u', 4), ('U', 8)]

/-- The number that hexadecimal digits spell. -/
def hexNumber? (digits : List Char) : Option Nat :=
  digits.foldlM (fun n c => (Json.hexValue? c).map (16 * n + ·)) 0

/-- The character of a number in an escape. -/
def numberedChar (n : Nat) : Except Fault Char :=
  if n < 0x110000 then .ok (Text.charOfUnit n)
  else if n < Nat.pow 2 31 then .error (.badValue "chr() arg not in range(0x110000)")
  else .error (.tooLarge "signed integer is greater than maximum")

/-- The blanks at a place with their line ends, and the place after them. -/
def blanksAt (p : Cursor) : Except Fault (List Char × Cursor) :=
  let (blanks, q) := p.row fun c => isSpace c || isBreak c
  if blanks.getLast?.any isBreak && atDocumentMark q.rest then
    .error (illegible "found unexpected document separator")
  else .ok (blanks, q)

/-- What an escape stands for, from after its backslash, and the place after it. -/
def escapeAt (p : Cursor) : Except Fault (List Char × Cursor) :=
  match p.rest with
  | [] => .error (illegible "found unknown escape character")
  | c :: _ =>
    if isBreak c then do
      let (blanks, q) ← blanksAt p
      return ((breaksOf blanks).drop 1, q)
    else
      match escapes.lookup c, hexDigits.lookup c with
      | some d, _ => .ok ([d], p.next)
      | none, some size =>
        let digits := p.next.rest.take size
        match hexNumber? digits with
        | some n =>
          if digits.length == size then
            (numberedChar n).map fun d => ([d], p.next.skip size)
          else .error (illegible "expected hexadecimal numbers")
        | none => .error (illegible "expected hexadecimal numbers")
      | none, none => .error (illegible "found unknown escape character")

/-- The text up to the closing quote, and the place after the quote. `reversed` is what was read
before, backwards. -/
def quotedFrom (quote : Char) : Nat → List Char → Cursor → Except Fault (String × Cursor)
  | 0, _, _ => .error (illegible "found unexpected end of stream")
  | fuel + 1, reversed, p =>
    match p.rest with
    | [] => .error (illegible "found unexpected end of stream")
    | c :: rest =>
      if c == quote then
        if quote == '\'' && rest.head? == some '\'' then
          quotedFrom quote fuel ('\'' :: reversed) (p.skip 2)
        else .ok (String.ofList reversed.reverse, p.next)
      else if quote == '"' && c == '\\' then
        match escapeAt p.next with
        | .error f => .error f
        | .ok (text, q) => quotedFrom quote fuel (text.reverse ++ reversed) q
      else if isSpace c || isBreak c then
        match blanksAt p with
        | .error f => .error f
        | .ok (blanks, q) =>
          let breaks := breaksOf blanks
          let text := if breaks.isEmpty then blanks else folded breaks
          quotedFrom quote fuel (text.reverse ++ reversed) q
      else quotedFrom quote fuel (c :: reversed) p.next

/-- The text in the quotes at a place, and the place after them. -/
def quotedText (p : Cursor) : Except Fault (String × Cursor) :=
  match p.rest with
  | quote :: _ => quotedFrom quote (p.left + 1) [] p.next
  | [] => .error (illegible "found unexpected end of stream")

end Yaml
end CardTransfer
