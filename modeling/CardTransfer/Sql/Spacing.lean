import CardTransfer.Text.Blank

/-!
# Blank lines

A query is tidied line by line: blanks at the end of each line go, of several blank lines in a row
the first stays, and blanks at both ends of the query go.
-/

namespace CardTransfer
namespace Sql

/-- The lines of a text. -/
def lines : List Char → List (List Char)
  | [] => [[]]
  | c :: cs =>
    match lines cs with
    | [] => [[c]]
    | line :: rest => if c == '\n' then [] :: line :: rest else (c :: line) :: rest

/-- Whether a line holds nothing but blanks. -/
def isBlankLine (line : List Char) : Bool := line.all Text.isBlank

/-- The lines without blanks at their ends, and without blank lines after a blank line. -/
def tidyLines (afterBlank : Bool) : List (List Char) → List (List Char)
  | [] => []
  | line :: rest =>
    if isBlankLine line then
      if afterBlank then tidyLines true rest else [] :: tidyLines true rest
    else Text.trimEnd line :: tidyLines false rest

/-- The text of lines. -/
def joinLines : List (List Char) → List Char
  | [] => []
  | [line] => line
  | line :: rest => line ++ '\n' :: joinLines rest

/-- A tidied text. -/
def tidyText (cs : List Char) : List Char := Text.trim (joinLines (tidyLines false (lines cs)))

/-- A tidied query. -/
def tidy (sql : String) : String := String.ofList (tidyText sql.toList)

theorem lines_ne_nil (cs : List Char) : lines cs ≠ [] := by
  induction cs with
  | nil => simp [lines]
  | cons c cs ih =>
    unfold lines
    split
    · simp
    · split <;> simp

/-- The lines of a text, put together, are the text. -/
theorem joinLines_lines (cs : List Char) : joinLines (lines cs) = cs := by
  induction cs with
  | nil => simp [lines, joinLines]
  | cons c cs ih =>
    unfold lines
    split
    · rename_i h
      exact absurd h (lines_ne_nil cs)
    · rename_i line rest h
      rw [h] at ih
      split
      · rename_i hc
        simp only [beq_iff_eq] at hc
        rw [joinLines, ih, hc]
        · simp
        · simp
      · cases rest with
        | nil => simpa [joinLines] using ih
        | cons l ls => simpa [joinLines] using ih

end Sql
end CardTransfer
