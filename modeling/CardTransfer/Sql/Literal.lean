import CardTransfer.Text.Scan

/-!
# String literals

A literal runs from a single quote to the next single quote that is not doubled; a doubled quote
inside it stands for one. Where a text ends inside a literal, the last doubled quote is taken
apart: its first half closes the literal. A quote that nothing closes is an ordinary character.

What lies between two literals is read on its own by `mapOutside`, as if it were a whole text.
-/

namespace CardTransfer
namespace Sql

/-- The number of characters up to the quote that closes a literal, that quote included, in the
text after the opening quote. -/
def closing? : List Char → Option Nat
  | [] => none
  | '\'' :: '\'' :: cs =>
    match closing? cs with
    | some n => some (n + 2)
    | none => some 1
  | c :: cs => if c == '\'' then some 1 else (closing? cs).map (· + 1)

/-- A literal, with its quotes. -/
def literalRule : Text.Rule Unit
  | _, '\'' :: cs => (closing? cs).map fun n => (n + 1, ())
  | _, _ => none

/-- The literals of a text, in order, with their quotes. -/
def literals (cs : List Char) : List (List Char) :=
  (Text.scan literalRule cs).filterMap fun
    | .plain _ => none
    | .found _ taken => some taken

/-- The text with the inside of every literal taken out. -/
def emptyLiterals (cs : List Char) : List Char :=
  Text.replace literalRule (fun _ => some ['\'', '\'']) cs

/-- Changes the runs of plain characters; `run` is the current one, last character first. -/
def mapRuns (f : List Char → List Char) : (run : List Char) → List (Text.Piece Unit) → List Char
  | run, [] => f run.reverse
  | run, .plain c :: pieces => mapRuns f (c :: run) pieces
  | run, .found _ taken :: pieces => f run.reverse ++ taken ++ mapRuns f [] pieces

/-- Changes every stretch of text outside of literals. -/
def mapOutside (f : List Char → List Char) (cs : List Char) : List Char :=
  mapRuns f [] (Text.scan literalRule cs)

/-- The stretches of text outside of literals, in order. -/
def runs : (run : List Char) → List (Text.Piece Unit) → List (List Char)
  | run, [] => [run.reverse]
  | run, .plain c :: pieces => runs (c :: run) pieces
  | run, .found _ _ :: pieces => run.reverse :: runs [] pieces

/-- The stretches of text outside of literals, in order. -/
def outside (cs : List Char) : List (List Char) := runs [] (Text.scan literalRule cs)

/-- Whether a place with this text before it lies inside quotes: their number so far is odd. -/
def oddQuotes (before : List Char) : Bool := before.count '\'' % 2 == 1

/-- A literal closes within the text. -/
theorem closing?_le {cs : List Char} {n : Nat} (h : closing? cs = some n) :
    0 < n ∧ n ≤ cs.length := by
  fun_induction closing? cs generalizing n with
  | case1 => simp at h
  | case2 cs m hm ih =>
    simp only [Option.some.injEq] at h
    have := ih hm
    simp only [List.length_cons]
    omega
  | case3 cs hm ih =>
    simp only [Option.some.injEq] at h
    simp only [List.length_cons]
    omega
  | case4 c cs hc hq =>
    simp only [Option.some.injEq] at h
    simp only [List.length_cons]
    omega
  | case5 c cs hc hq ih =>
    obtain ⟨m, hm, rfl⟩ := Option.map_eq_some_iff.1 h
    have := ih hm
    simp only [List.length_cons]
    omega

theorem mapRuns_id (run : List Char) (pieces : List (Text.Piece Unit)) :
    mapRuns id run pieces = run.reverse ++ pieces.flatMap Text.Piece.source := by
  induction pieces generalizing run with
  | nil => simp [mapRuns]
  | cons p pieces ih => cases p <;> simp [mapRuns, ih, Text.Piece.source]

/-- Changing nothing outside of literals changes nothing. -/
theorem mapOutside_id (cs : List Char) : mapOutside id cs = cs := by
  simp [mapOutside, mapRuns_id, Text.flatMap_source_scan]

end Sql
end CardTransfer
