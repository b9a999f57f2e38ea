import CardTransfer.Fault

/-!
# Places in a document

A place is what comes after it, with its line, its column and its offset, all counted from zero.
A byte order mark takes no column. Going forward never makes the rest longer.

Reading from a place may be refused:

| refusal | what is wrong |
| --- | --- |
| `unprintable` | a character that may not occur |
| `illegible` | characters that form no part of a document |
| `misplaced` | a part that may not stand where it is |
| `dangling` | a name that is not given, or given twice, or a second document |
| `unfit` | a part that is no value, or may not be a key |
-/

/-!
## Characters of settings documents

Five characters end a line: line feed, carriage return, next line, and the line and paragraph
separators; a carriage return and a line feed together end one line. The separators stand for
themselves where a line end counts as text, every other line end stands for a line feed.

Only printable characters may occur in a document, besides tab and the line ends.
-/

namespace CardTransfer
namespace Yaml

/-- The separators of lines and paragraphs. -/
def isSeparator (c : Char) : Bool := c == '\u2028' || c == '\u2029'

/-- Characters that end a line. -/
def isBreak (c : Char) : Bool := c == '\n' || c == '\r' || c == '\u0085' || isSeparator c

/-- Blanks inside a line. -/
def isSpace (c : Char) : Bool := c == ' ' || c == '\t'

/-- Characters that may occur in a document. -/
def isAllowed (c : Char) : Bool :=
  c == '\t' || c == '\n' || c == '\r' || c == '\u0085' || (' ' ≤ c && c ≤ '~') ||
    (160 ≤ c.toNat && c.toNat ≠ 65534 && c.toNat ≠ 65535)

/-- Characters with a meaning of their own inside braces and brackets. -/
def isFlowMark (c : Char) : Bool :=
  c == ',' || c == '[' || c == ']' || c == '\x7b' || c == '\x7d'

/-- Characters that a plain scalar cannot start with, whatever follows. -/
def isIndicator (c : Char) : Bool :=
  isFlowMark c || c == '#' || c == '&' || c == '*' || c == '!' || c == '|' || c == '>' ||
    c == '\'' || c == '"' || c == '%' || c == '@' || c == '\x60'

/-- Letters and digits of ASCII, the hyphen and the underscore. -/
def isNameChar (c : Char) : Bool := c.isAlphanum || c == '-' || c == '_'

/-- Whether a line ends in front of a text, or nothing is left. -/
def atLineEnd : List Char → Bool
  | [] => true
  | c :: _ => isBreak c

/-- Whether a space or a line end comes next, or nothing is left. -/
def atGap : List Char → Bool
  | [] => true
  | c :: _ => c == ' ' || isBreak c

/-- Whether a space, a tab or a line end comes next, or nothing is left. -/
def atBlank : List Char → Bool
  | [] => true
  | c :: _ => isSpace c || isBreak c

theorem atBlank_of_atGap {cs : List Char} (h : atGap cs = true) : atBlank cs = true := by
  cases cs with
  | nil => rfl
  | cons c cs =>
    simp only [atGap, atBlank, isSpace, Bool.or_eq_true] at h ⊢
    rcases h with h | h
    · exact Or.inl (Or.inl h)
    · exact Or.inr h

/-- Whether three hyphens or three points and a blank come next. At the start of a line they stand
between documents. -/
def atDocumentMark : List Char → Bool
  | a :: b :: c :: rest => (a == '-' || a == '.') && b == a && c == a && atBlank rest
  | _ => false

/-- What the line ends of a text stand for. -/
def breaksOf : List Char → List Char
  | '\r' :: '\n' :: cs => '\n' :: breaksOf cs
  | c :: cs =>
    if isBreak c then (if isSeparator c then c else '\n') :: breaksOf cs else breaksOf cs
  | [] => []

/-- What line ends inside a scalar stand for: one line feed for a space, and of several line feeds
the first for nothing. -/
def folded : List Char → List Char
  | [] => []
  | first :: more =>
    if first != '\n' then first :: more else if more.isEmpty then [' '] else more

end Yaml
end CardTransfer

namespace CardTransfer
namespace Yaml

/-- The fault of a text with a character that may not occur. -/
def unprintable : Fault := .other "ReaderError" "special characters are not allowed"

/-- The fault of characters that form no part of a document. -/
def illegible (what : String) : Fault := .other "ScannerError" what

/-- The fault of a part that may not stand where it is. -/
def misplaced (what : String) : Fault := .other "ParserError" what

/-- The fault of a name that is not given or given twice, and of a second document. -/
def dangling (what : String) : Fault := .other "ComposerError" what

/-- The fault of a part that is no value or may not be a key. -/
def unfit (what : String) : Fault := .other "ConstructorError" what

/-- A place in a document. -/
structure Cursor where
  rest : List Char
  /-- How many characters are left. -/
  left : Nat
  offset : Nat
  line : Nat
  column : Nat
  deriving Inhabited

namespace Cursor

/-- The start of a text. -/
def ofText (text : List Char) : Cursor := ⟨text, text.length, 0, 0, 0⟩

/-- The place after one character. -/
def next (p : Cursor) : Cursor :=
  match p.rest with
  | [] => p
  | c :: rest =>
    let q : Cursor := { p with rest, left := p.left - 1, offset := p.offset + 1 }
    if isBreak c && !(c == '\r' && rest.head? == some '\n') then
      { q with line := p.line + 1, column := 0 }
    else if c == '\ufeff' then q
    else { q with column := p.column + 1 }

/-- The place after a number of characters. -/
def skip : Nat → Cursor → Cursor
  | 0, p => p
  | n + 1, p => skip n p.next

/-- The longest row of characters of a class, and the place after it. -/
def row (p : Cursor) (test : Char → Bool) : List Char × Cursor :=
  let taken := p.rest.takeWhile test
  (taken, skip taken.length p)

/-- The place after the characters of a class. -/
def pass (p : Cursor) (test : Char → Bool) : Cursor := (p.row test).2

/-- A line end: what it stands for, and the place after it. -/
def lineBreak? (p : Cursor) : Option (Char × Cursor) :=
  match p.rest with
  | '\r' :: '\n' :: _ => some ('\n', skip 2 p)
  | c :: _ => if isBreak c then some (if isSeparator c then c else '\n', p.next) else none
  | [] => none

/-- The place after the rest of a line that holds at most spaces and a comment; none if the line
holds anything else. -/
def nextLine? (p : Cursor) : Option Cursor :=
  let p := p.pass (· == ' ')
  let p := if p.rest.head? == some '#' then p.pass (!isBreak ·) else p
  if atLineEnd p.rest then some ((p.lineBreak?.map (·.2)).getD p) else none

theorem rest_next (p : Cursor) : p.next.rest = p.rest.tail := by
  unfold next
  split
  · rename_i h
    simp [h]
  · rename_i c rest h
    rw [h]
    simp only [List.tail_cons]
    split
    · rfl
    · split <;> rfl

/-- Going forward drops characters. -/
theorem rest_skip (n : Nat) (p : Cursor) : (skip n p).rest = p.rest.drop n := by
  induction n generalizing p with
  | zero => simp [skip]
  | succ n ih => simp [skip, ih, rest_next]

/-- A row and what comes after it are the text. -/
theorem row_append (p : Cursor) (test : Char → Bool) :
    (p.row test).1 ++ (p.row test).2.rest = p.rest := by
  simp only [row, rest_skip]
  exact List.prefix_iff_eq_append.1 (List.takeWhile_prefix test)

end Cursor
end Yaml
end CardTransfer
