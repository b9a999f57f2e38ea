import CardTransfer.Yaml.Cursor

/-!
# Scalars as blocks of lines

After `|` the lines of a block stand for themselves; after `>` a line end between two lines that
start with no blank is folded. The header may also tell by how much the lines are indented, and
what becomes of the line ends after the last line:

| mark | line ends after the last line |
| --- | --- |
| none | one is kept |
| `-` | none is kept |
| `+` | all are kept |

If the header does not tell, the lines are indented as far as the first one that is not empty.
-/

namespace CardTransfer
namespace Yaml

/-- What becomes of the line ends after the last line of a block. -/
inductive Ending where
  | one
  | none
  | all
  deriving DecidableEq, Repr

/-- The ending that a mark in a header stands for. -/
def Ending.ofMark? : Char → Option Ending
  | '-' => some .none
  | '+' => some .all
  | _ => Option.none

/-- The header of a block. -/
structure BlockHeader where
  ending : Ending
  /-- By how much the lines are indented, if the header tells. -/
  step : Option Nat

/-- A digit in a header. -/
def stepAt? (p : Cursor) : Option Nat :=
  (p.rest.head?.filter Char.isDigit).map fun c => c.toNat - 48

/-- The header after its first character, and the place on the next line. -/
def blockHeader (p : Cursor) : Except Fault (BlockHeader × Cursor) := do
  let noStep := illegible "expected indentation indicator in the range 1-9, but found 0"
  let finish := fun (header : BlockHeader) (q : Cursor) =>
    if !atGap q.rest then
      throw (illegible "expected chomping or indentation indicators")
    else
      match q.nextLine? with
      | some q => pure (header, q)
      | none => throw (illegible "expected a comment or a line break")
  match p.rest.head?.bind Ending.ofMark? with
  | some ending =>
    match stepAt? p.next with
    | some 0 => throw noStep
    | some n => finish ⟨ending, some n⟩ p.next.next
    | none => finish ⟨ending, none⟩ p.next
  | none =>
    match stepAt? p with
    | some 0 => throw noStep
    | some n =>
      match p.next.rest.head?.bind Ending.ofMark? with
      | some ending => finish ⟨ending, some n⟩ p.next.next
      | none => finish ⟨.one, some n⟩ p.next
    | none => finish ⟨.one, none⟩ p

/-- The line ends at a place and what they stand for, with up to `indent` spaces at the start of
each line; `breaks` are those before, the last first. -/
def emptyLines (indent : Nat) : Nat → List Char → Cursor → List Char × Cursor
  | 0, breaks, p => (breaks.reverse, p)
  | fuel + 1, breaks, p =>
    let spaces := ((p.rest.take (indent - p.column)).takeWhile (· == ' ')).length
    let p := p.skip spaces
    match p.lineBreak? with
    | some (c, q) => emptyLines indent fuel (c :: breaks) q
    | none => (breaks.reverse, p)

/-- The most spaces at the start of one of the empty lines at a place, their line ends, and the
place after them. -/
def leadingLines : Nat → Nat → List Char → Cursor → Nat × List Char × Cursor
  | 0, widest, breaks, p => (widest, breaks.reverse, p)
  | fuel + 1, widest, breaks, p =>
    let (spaces, p) := p.row (· == ' ')
    let widest := if spaces.isEmpty then widest else max widest p.column
    match p.lineBreak? with
    | some (c, q) => leadingLines fuel widest (c :: breaks) q
    | none => (widest, breaks.reverse, p)

/-- Lines of a block as read: the text backwards up to the last line, the line end after that line
and those of empty lines after it, and the place after all. -/
structure BlockLines where
  reversed : List Char
  lastBreak : List Char
  breaks : List Char
  place : Cursor

/-- Whether a line of a block starts here. -/
def BlockLines.more (s : BlockLines) (indent : Nat) : Bool :=
  s.place.column == indent && !s.place.rest.isEmpty

/-- Reads the further lines of a block. -/
def BlockLines.extend (folds : Bool) (indent : Nat) : Nat → BlockLines → BlockLines
  | 0, s => s
  | fuel + 1, s =>
    if s.more indent then
      let startsText := fun (cs : List Char) => !cs.head?.any isSpace
      let (line, p) := s.place.row (!isBreak ·)
      let (lastBreak, p) := match p.lineBreak? with
        | some (c, q) => ([c], q)
        | none => ([], p)
      let (breaks, q) := emptyLines indent (p.left + 1) [] p
      let reversed := line.reverse ++ (s.breaks.reverse ++ s.reversed)
      let t : BlockLines := ⟨reversed, lastBreak, breaks, q⟩
      if t.more indent then
        let joint :=
          if folds && lastBreak == ['\n'] && startsText s.place.rest && startsText q.rest then
            if breaks.isEmpty then [' '] else []
          else lastBreak
        extend folds indent fuel { t with reversed := joint ++ reversed }
      else t
    else s

/-- The text of the block at a place, and the place after it. `least` is the least column of its
lines. -/
def blockText (least : Nat) (p : Cursor) : Except Fault (String × Cursor) := do
  let folds := p.rest.head? == some '>'
  let (header, p) ← blockHeader p.next
  let (indent, breaks, q) := match header.step with
    | some n =>
      let indent := least + n - 1
      let (breaks, q) := emptyLines indent (p.left + 1) [] p
      (indent, breaks, q)
    | none =>
      let (widest, breaks, q) := leadingLines (p.left + 1) 0 [] p
      (max least widest, breaks, q)
  let s := BlockLines.extend folds indent (q.left + 1) ⟨[], [], breaks, q⟩
  let tail := match header.ending with
    | .one => s.lastBreak
    | .none => []
    | .all => s.lastBreak ++ s.breaks
  return (String.ofList (s.reversed.reverse ++ tail), s.place)

end Yaml
end CardTransfer
