import CardTransfer.Sql.Literal
import CardTransfer.Sql.Parenthesis
import CardTransfer.Text.Word

/-!
# Replacing function calls

A call is a function name in any letter case, not preceded by a part of a word, then blanks and an
argument list in parentheses. The calls of a function are replaced from the inside out: a handler
sees the argument list with the calls in it already replaced, and gives the text for the whole
call, or nothing to leave the call as it is.

Calls inside quotes are left alone, and from a call whose argument list is never closed on the
text is not changed.
-/

namespace CardTransfer
namespace Sql

/-- The length of the head of a call, the function name up to the opening parenthesis. -/
def callHead? (name : List Char) (before : Option Char) (cs : List Char) : Option Nat :=
  if Text.breaksBefore before then Text.wordThen? name '(' cs else none

theorem callHead?_pos {name : List Char} {before : Option Char} {cs : List Char} {n : Nat}
    (h : callHead? name before cs = some n) : 0 < n := by
  unfold callHead? at h
  split at h
  · simp only [Text.wordThen?, Option.bind_eq_bind, Option.bind_eq_some_iff] at h
    obtain ⟨m, -, h⟩ := h
    split at h
    · simp only [Option.some.injEq] at h
      omega
    · simp at h
  · simp at h

/-- Replaces the calls of a function in a text. `before` is the character before the text, and
`quoted` says whether the text starts inside quotes. -/
def replaceCallsFrom (name : List Char) (handler : List Char → Option (List Char))
    (before : Option Char) (quoted : Bool) (cs : List Char) : List Char :=
  match cs with
  | [] => []
  | c :: rest =>
    match _hn : callHead? name before (c :: rest) with
    | none =>
      c :: replaceCallsFrom name handler (some c) (if c == '\'' then !quoted else quoted) rest
    | some n =>
      let head := (c :: rest).take n
      if quoted then
        head ++ replaceCallsFrom name handler (some '(') quoted ((c :: rest).drop n)
      else
        match _hs : splitClosing ((c :: rest).drop n) with
        | none => c :: rest
        | some (inner, after) =>
          let arguments := replaceCallsFrom name handler none false inner
          (handler arguments).getD (head ++ arguments ++ [')']) ++
            replaceCallsFrom name handler (some ')') false after
termination_by cs.length
decreasing_by
  · simp
  · have := callHead?_pos _hn
    simp only [List.length_drop, List.length_cons]
    omega
  · have := callHead?_pos _hn
    have := length_splitClosing _hs
    simp only [List.length_drop, List.length_cons] at this ⊢
    omega
  · have := callHead?_pos _hn
    have := length_splitClosing _hs
    simp only [List.length_drop, List.length_cons] at this ⊢
    omega

/-- Replaces the calls of a function in a text. -/
def replaceCalls (name : String) (handler : List Char → Option (List Char)) (cs : List Char) :
    List Char :=
  replaceCallsFrom name.toList handler none false cs

end Sql
end CardTransfer
