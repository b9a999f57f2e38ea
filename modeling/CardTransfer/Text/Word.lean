import CardTransfer.Text.Alphanumeric
import CardTransfer.Text.Blank

/-!
# Words in any letter case

Keywords and function names are given in lower case and found in any. A letter also stands for the
characters that the standard folds to it: `İ` and `ı` count as `i`, `ſ` as `s`, and the Kelvin
sign as `k`.

The functions below answer how many characters a word takes at the start of a text.
-/

namespace CardTransfer
namespace Text

/-- Whether `c` is the lower-case letter `l` in some case. -/
def foldsTo (l c : Char) : Bool :=
  c == l || c.toLower == l ||
    (l == 'i' && (c == 'İ' || c == 'ı')) || (l == 's' && c == 'ſ') || (l == 'k' && c == '\u212a')

/-- Whether a text starts with a word in some case. -/
def startsWith : (word : List Char) → List Char → Bool
  | [], _ => true
  | _ :: _, [] => false
  | l :: ls, c :: cs => foldsTo l c && startsWith ls cs

/-- The number of blank characters that a text starts with. -/
def blankLength (cs : List Char) : Nat := (cs.takeWhile isBlank).length

/-- Whether the character before a place is no part of a word. -/
def breaksBefore (before : Option Char) : Bool := !before.any isWord

/-- Whether the text goes on with something that is no part of a word. -/
def breaksAfter (cs : List Char) : Bool := !cs.head?.any isWord

/-- The length of a word at the start of a text. -/
def word? (word : List Char) (cs : List Char) : Option Nat :=
  if startsWith word cs then some word.length else none

/-- The length of a word, blanks and a character. -/
def wordThen? (word : List Char) (mark : Char) (cs : List Char) : Option Nat := do
  let n ← word? word cs
  let gap := blankLength (cs.drop n)
  if (cs.drop (n + gap)).head? == some mark then some (n + gap + 1) else none

/-- The length of two words with blanks between them. -/
def twoWords? (first second : List Char) (cs : List Char) : Option Nat := do
  let n ← word? first cs
  let gap := blankLength (cs.drop n)
  if gap == 0 then none
  else
    let m ← word? second (cs.drop (n + gap))
    some (n + gap + m)

/-- A word that starts with something found in a text is no longer than the text. -/
theorem length_le_of_startsWith {word cs : List Char} (h : startsWith word cs = true) :
    word.length ≤ cs.length := by
  induction word generalizing cs with
  | nil => simp
  | cons l ls ih =>
    cases cs with
    | nil => simp [startsWith] at h
    | cons c cs =>
      simp only [startsWith, Bool.and_eq_true] at h
      simpa using ih h.2

end Text
end CardTransfer
