/-!
# Blank characters and trimming

A character is *blank* when it is one of

| code points | characters |
| --- | --- |
| 9 – 13, 28 – 31, 32, 133, 160 | tabs, line ends, separators, the spaces of Latin 1 |
| 5760, 8192 – 8202, 8239, 8287, 12288 | the spaces of other scripts |
| 8232, 8233 | line and paragraph separators |

Trimming takes blank characters from one end or both.
-/

/-!
## Spans of code points

A character class of a standard is given as the closed intervals of code points that it holds.
-/

namespace CardTransfer
namespace Text

/-- Closed intervals of code points, in increasing order. -/
abbrev Spans := List (Nat × Nat)

/-- Whether some interval holds the code point. -/
def Spans.holds (spans : Spans) (n : Nat) : Bool :=
  spans.any fun s => s.1 ≤ n && n ≤ s.2

theorem Spans.holds_iff (spans : Spans) (n : Nat) :
    spans.holds n = true ↔ ∃ s ∈ spans, s.1 ≤ n ∧ n ≤ s.2 := by
  simp [Spans.holds]

end Text
end CardTransfer

namespace CardTransfer
namespace Text

/-- The blank code points. -/
def blankSpans : Spans :=
  [(9, 13), (28, 32), (133, 133), (160, 160), (5760, 5760), (8192, 8202), (8232, 8233),
    (8239, 8239), (8287, 8287), (12288, 12288)]

/-- Spaces, tabs and line ends of every kind. -/
def isBlank (c : Char) : Bool := blankSpans.holds c.toNat

/-- The text without the blank characters it starts with. -/
def trimStart (cs : List Char) : List Char := cs.dropWhile isBlank

/-- The text without the blank characters it ends with. -/
def trimEnd (cs : List Char) : List Char := (cs.reverse.dropWhile isBlank).reverse

/-- The text without blank characters at either end. -/
def trim (cs : List Char) : List Char := trimEnd (trimStart cs)

/-- `trim` on strings. -/
def strip (s : String) : String := String.ofList (trim s.toList)

/-- Trimming the start leaves nothing or a text that starts with a character that is not blank. -/
theorem head?_trimStart {cs : List Char} {c : Char} (h : (trimStart cs).head? = some c) :
    isBlank c = false := by
  induction cs with
  | nil => simp [trimStart] at h
  | cons d ds ih =>
    unfold trimStart at h ih
    by_cases hd : isBlank d = true
    · rw [List.dropWhile_cons_of_pos hd] at h
      exact ih h
    · rw [List.dropWhile_cons_of_neg hd] at h
      simp only [List.head?_cons, Option.some.injEq] at h
      subst h
      simpa using hd

end Text
end CardTransfer
