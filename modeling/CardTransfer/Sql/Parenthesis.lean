import CardTransfer.Text.Blank

/-!
# Matching parentheses and arguments

The partner of a parenthesis is found by counting depth; parentheses inside single quotes do not
count, and every single quote opens or closes such a stretch. Looking for the partner of a closing
parenthesis is the same search on the text before it, last character first, with the two kinds
exchanged.

Arguments are separated by commas outside of parentheses and of single and double quotes. Blanks
around an argument do not count, and empty arguments are dropped.
-/

namespace CardTransfer
namespace Sql

/-! ### Partners -/

/-- Splits a text at the partner of a parenthesis just before it: what is enclosed, and what comes
after the partner. `opens` is a parenthesis like the one before the text, `closes` its partner,
`depth` the number of parentheses open besides it. -/
def splitPartner (opens closes : Char) :
    (depth : Nat) → (quoted : Bool) → List Char → Option (List Char × List Char)
  | _, _, [] => none
  | depth, quoted, c :: cs =>
    if c == '\'' then
      (splitPartner opens closes depth (!quoted) cs).map fun p => (c :: p.1, p.2)
    else if quoted then
      (splitPartner opens closes depth quoted cs).map fun p => (c :: p.1, p.2)
    else if c == opens then
      (splitPartner opens closes (depth + 1) quoted cs).map fun p => (c :: p.1, p.2)
    else if c == closes then
      match depth with
      | 0 => some ([], cs)
      | depth + 1 => (splitPartner opens closes depth quoted cs).map fun p => (c :: p.1, p.2)
    else (splitPartner opens closes depth quoted cs).map fun p => (c :: p.1, p.2)

/-- Splits the text after an opening parenthesis at the closing one. -/
def splitClosing (cs : List Char) : Option (List Char × List Char) :=
  splitPartner '(' ')' 0 false cs

/-- Splits the text before a closing parenthesis, last character first, at the opening one. -/
def splitOpening (before : List Char) : Option (List Char × List Char) :=
  splitPartner ')' '(' 0 false before

/-- The two parts with the partner between them are the text. -/
theorem splitPartner_eq {opens closes : Char} {depth : Nat} {quoted : Bool}
    {cs inner after : List Char}
    (h : splitPartner opens closes depth quoted cs = some (inner, after)) :
    cs = inner ++ closes :: after := by
  induction cs generalizing depth quoted inner after with
  | nil => simp [splitPartner] at h
  | cons c cs ih =>
    have step {d : Nat} {q : Bool}
        (h : (splitPartner opens closes d q cs).map (fun p => (c :: p.1, p.2)) =
          some (inner, after)) : c :: cs = inner ++ closes :: after := by
      obtain ⟨p, hp, he⟩ := Option.map_eq_some_iff.1 h
      simp only [Prod.mk.injEq] at he
      obtain ⟨rfl, rfl⟩ := he
      rw [ih hp]
      simp
    unfold splitPartner at h
    split at h
    · exact step h
    · split at h
      · exact step h
      · split at h
        · exact step h
        · split at h
          · rename_i hc
            split at h
            · simp only [Option.some.injEq, Prod.mk.injEq] at h
              obtain ⟨rfl, rfl⟩ := h
              simp only [beq_iff_eq] at hc
              simp [hc]
            · exact step h
          · exact step h

theorem length_splitClosing {cs inner after : List Char}
    (h : splitClosing cs = some (inner, after)) :
    inner.length + after.length + 1 = cs.length := by
  rw [splitPartner_eq h]
  simp only [List.length_append, List.length_cons]
  omega

/-! ### Argument lists -/

/-- Where the reading of an argument list stands. -/
structure ArgumentState where
  depth : Int
  single : Bool
  double : Bool
  /-- The argument being read, last character first. -/
  current : List Char
  /-- The arguments read, last one first. -/
  done : List (List Char)

/-- Reads one character of an argument list. -/
def ArgumentState.step (s : ArgumentState) (c : Char) : ArgumentState :=
  let kept := { s with current := c :: s.current }
  if c == '\'' && !s.double then { kept with single := !s.single }
  else if c == '"' && !s.single then { kept with double := !s.double }
  else if s.single || s.double then kept
  else if c == '(' then { kept with depth := s.depth + 1 }
  else if c == ')' then { kept with depth := s.depth - 1 }
  else if c == ',' && s.depth == 0 then
    { s with current := [], done := s.current.reverse :: s.done }
  else kept

/-- The arguments of a list. -/
def arguments (cs : List Char) : List (List Char) :=
  let s := cs.foldl ArgumentState.step ⟨0, false, false, [], []⟩
  ((s.current.reverse :: s.done).reverse.map Text.trim).filter (!·.isEmpty)

/-- An argument without the quotes around it. -/
def unquote (cs : List Char) : List Char :=
  let t := Text.trim cs
  match t with
  | q :: _ :: _ => if (q == '\'' || q == '"') && t.getLast? == some q then (t.drop 1).dropLast else t
  | _ => t

end Sql
end CardTransfer
