import CardTransfer.Yaml.Cursor

/-!
# Plain scalars in a text

A plain scalar is a row of words with gaps between them. A word ends at a blank, at a colon with a
blank after it, and inside braces and brackets also at their marks, at a question mark, and at a
colon in front of a mark. A gap is spaces, with line ends among them or not; its line ends are
folded, and without line ends it stands for itself. Tabs are no part of a gap.

A scalar goes on after a gap unless a comment, a document mark or a less indented line follows.
-/

namespace CardTransfer
namespace Yaml

/-- Whether a plain scalar can start here. -/
def startsPlain (inFlow : Bool) : List Char → Bool
  | [] => false
  | c :: rest =>
    if c == '-' then !atBlank rest
    else if c == '?' || c == ':' then !inFlow && !atBlank rest
    else !(isSpace c || isBreak c || isIndicator c)

/-- Whether a word ends in front of a text. -/
def endsWord (inFlow : Bool) : List Char → Bool
  | [] => true
  | c :: rest =>
    isSpace c || isBreak c || (inFlow && (isFlowMark c || c == '?')) ||
      (c == ':' && (atBlank rest || (inFlow && rest.head?.any isFlowMark)))

/-- `n` and the number of characters up to the end of the word. -/
def wordSize (inFlow : Bool) (n : Nat) : List Char → Nat
  | [] => n
  | c :: cs => if endsWord inFlow (c :: cs) then n else wordSize inFlow (n + 1) cs

/-- A plain scalar as read: its text backwards, the place after it and the gap that follows, and
whether that gap holds a line end. -/
structure PlainText where
  reversed : List Char
  place : Cursor
  atLineStart : Bool

/-- Reads on from the place of `s`. `gap` is what stands for the gap in front of that place,
`indent` the least column of further lines. -/
def PlainText.extend (inFlow : Bool) (indent : Nat) :
    Nat → PlainText → (gap : List Char) → PlainText
  | 0, s, _ => s
  | fuel + 1, s, gap =>
    let size := if s.place.rest.head? == some '#' then 0 else wordSize inFlow 0 s.place.rest
    if size == 0 then s
    else
      let word := s.place.rest.take size
      let (blanks, place) := (s.place.skip size).row fun c => c == ' ' || isBreak c
      let breaks := breaksOf blanks
      let s := ⟨word.reverse ++ (gap.reverse ++ s.reversed), place, !breaks.isEmpty⟩
      let atMark := blanks.getLast?.any isBreak && atDocumentMark place.rest
      if blanks.isEmpty || atMark || (!inFlow && place.column < indent) then s
      else extend inFlow indent fuel s (if breaks.isEmpty then blanks else folded breaks)

/-- The plain scalar at a place. -/
def plainText (inFlow : Bool) (indent : Nat) (p : Cursor) : PlainText :=
  PlainText.extend inFlow indent p.left ⟨[], p, false⟩ []

/-- A word that can start does not end at once. -/
theorem endsWord_eq_false_of_startsPlain {inFlow : Bool} {cs : List Char}
    (h : startsPlain inFlow cs = true) : endsWord inFlow cs = false := by
  cases cs with
  | nil => simp [startsPlain] at h
  | cons c rest =>
    unfold startsPlain at h
    unfold endsWord
    by_cases h1 : c = '-'
    · subst h1
      simp [isSpace, isBreak, isSeparator, isFlowMark]
    · by_cases h2 : c = '?'
      · subst h2
        simp_all [isSpace, isBreak, isSeparator, isFlowMark]
      · by_cases h3 : c = ':'
        · subst h3
          simp_all [isSpace, isBreak, isSeparator, isFlowMark]
        · simp_all [isIndicator]

end Yaml
end CardTransfer
