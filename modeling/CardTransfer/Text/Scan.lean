/-!
# Scanning a text by a rule

A rule looks at the text from a place on, with the character before that place, and answers how
many characters it takes there and what they mean. Scanning goes from left to right and takes the
first match that starts at or after each place; a match never overlaps the one before. The result
lists, in order, the characters between the matches and the matches with the characters they took.
-/

namespace CardTransfer
namespace Text

/-- What a rule takes at a place: the number of characters, at least one, and their meaning. -/
abbrev Rule (α : Type) := Option Char → List Char → Option (Nat × α)

/-- A piece of a scanned text. -/
inductive Piece (α : Type) where
  /-- A character outside of all matches. -/
  | plain (c : Char)
  /-- A match, and the characters it took. -/
  | found (meaning : α) (taken : List Char)

/-- The text that a piece stands for. -/
def Piece.source {α : Type} : Piece α → List Char
  | plain c => [c]
  | found _ taken => taken

/-- Scans a text. `skip` counts the characters still to come of a match already listed, `before`
is the character before the text. -/
def scanFrom {α : Type} (rule : Rule α) :
    (skip : Nat) → (before : Option Char) → List Char → List (Piece α)
  | _, _, [] => []
  | skip + 1, _, c :: cs => scanFrom rule skip (some c) cs
  | 0, before, c :: cs =>
    match rule before (c :: cs) with
    | some (n, a) => .found a ((c :: cs).take (n - 1 + 1)) :: scanFrom rule (n - 1) (some c) cs
    | none => .plain c :: scanFrom rule 0 (some c) cs

/-- The pieces of a text. -/
def scan {α : Type} (rule : Rule α) (cs : List Char) : List (Piece α) := scanFrom rule 0 none cs

/-- The matches of a rule, in order. -/
def matchesOf {α : Type} (rule : Rule α) (cs : List Char) : List α :=
  (scan rule cs).filterMap fun
    | .plain _ => none
    | .found a _ => some a

/-- Writes a text instead of each match; a match that has none stays. -/
def replace {α : Type} (rule : Rule α) (write : α → Option (List Char)) (cs : List Char) :
    List Char :=
  (scan rule cs).flatMap fun
    | .plain c => [c]
    | .found a taken => (write a).getD taken

theorem flatMap_source_scanFrom {α : Type} (rule : Rule α) (skip : Nat) (before : Option Char)
    (cs : List Char) : (scanFrom rule skip before cs).flatMap Piece.source = cs.drop skip := by
  induction cs generalizing skip before with
  | nil => cases skip <;> simp [scanFrom]
  | cons c cs ih =>
    cases skip with
    | succ skip => simp [scanFrom, ih]
    | zero =>
      unfold scanFrom
      split
      · simp [Piece.source, ih, List.take_succ_cons]
      · simp [Piece.source, ih]

/-- **Scanning loses nothing:** the pieces of a text, put together, are the text. -/
theorem flatMap_source_scan {α : Type} (rule : Rule α) (cs : List Char) :
    (scan rule cs).flatMap Piece.source = cs := by
  simp [scan, flatMap_source_scanFrom]

/-! ### Texts inside texts -/

/-- Whether a text holds another as a part. -/
def hasPart (part : List Char) : List Char → Bool
  | [] => part.isEmpty
  | c :: cs => part.isPrefixOf (c :: cs) || hasPart part cs

theorem hasPart_iff (part cs : List Char) : hasPart part cs = true ↔ part <:+: cs := by
  induction cs with
  | nil => simp [hasPart, List.isEmpty_iff]
  | cons c cs ih =>
    simp only [hasPart, Bool.or_eq_true, List.isPrefixOf_iff_prefix, ih, List.infix_cons_iff]

end Text
end CardTransfer
