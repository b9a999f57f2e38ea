import CardTransfer.Sql.Parenthesis
import CardTransfer.Text.Alphanumeric

/-!
# The operand before a postfix cast

The operand of `x::type` is read backwards from the colons. It ends with one of

| last character | the operand goes back to |
| --- | --- |
| `'` | the quote that opens the literal; a doubled quote belongs to the literal |
| `)` | the partner, and a function name directly before it |
| `"` | the quote before it |
| `}}` | the nearest `{{` |
| part of a word | the start of the word |

and goes on with a qualifying name if a dot stands directly before that. Texts before a place are
given last character first.
-/

namespace CardTransfer
namespace Sql

/-- Splits at the quote that opens a literal, given what precedes its closing quote. -/
def splitLiteralStart : List Char → Option (List Char × List Char)
  | [] => none
  | '\'' :: '\'' :: cs =>
    (splitLiteralStart cs).map fun p => ('\'' :: '\'' :: p.1, p.2)
  | c :: cs =>
    if c == '\'' then some (['\''], cs)
    else (splitLiteralStart cs).map fun p => (c :: p.1, p.2)

/-- Splits after the first occurrence of a character. -/
def splitAfter (mark : Char) : List Char → Option (List Char × List Char)
  | [] => none
  | c :: cs =>
    if c == mark then some ([c], cs) else (splitAfter mark cs).map fun p => (c :: p.1, p.2)

/-- Splits after the first doubled occurrence of a character. -/
def splitAfterPair (mark : Char) : List Char → Option (List Char × List Char)
  | [] => none
  | [_] => none
  | c :: d :: cs =>
    if c == mark && d == mark then some ([c, d], cs)
    else (splitAfterPair mark (d :: cs)).map fun p => (c :: p.1, p.2)

/-- Splits a word off. -/
def splitWord (cs : List Char) : List Char × List Char :=
  (cs.takeWhile Text.isWord, cs.dropWhile Text.isWord)

/-- Takes one name, literal or parenthesised expression off the end of a text. -/
def takePrimary : List Char → Option (List Char × List Char)
  | [] => none
  | c :: cs =>
    if c == '\'' then (splitLiteralStart cs).map fun p => (c :: p.1, p.2)
    else if c == ')' then
      (splitOpening cs).map fun p =>
        let w := splitWord p.2
        (c :: (p.1 ++ '(' :: w.1), w.2)
    else if c == '"' then (splitAfter '"' cs).map fun p => (c :: p.1, p.2)
    else if c == '\x7d' && cs.head? == some '\x7d' then
      (splitAfterPair '\x7b' cs).map fun p => (c :: p.1, p.2)
    else if Text.isWord c then
      let w := splitWord cs
      some (c :: w.1, w.2)
    else none

theorem splitLiteralStart_eq {cs taken rest : List Char}
    (h : splitLiteralStart cs = some (taken, rest)) : cs = taken ++ rest := by
  fun_induction splitLiteralStart cs generalizing taken rest with
  | case1 => simp at h
  | case2 cs ih =>
    obtain ⟨p, hp, he⟩ := Option.map_eq_some_iff.1 h
    simp only [Prod.mk.injEq] at he
    obtain ⟨rfl, rfl⟩ := he
    rw [ih hp]
    simp
  | case3 c cs hc hq =>
    simp only [Option.some.injEq, Prod.mk.injEq] at h
    obtain ⟨rfl, rfl⟩ := h
    simp only [beq_iff_eq] at hq
    simp [hq]
  | case4 c cs hc hq ih =>
    obtain ⟨p, hp, he⟩ := Option.map_eq_some_iff.1 h
    simp only [Prod.mk.injEq] at he
    obtain ⟨rfl, rfl⟩ := he
    rw [ih hp]
    simp

theorem splitAfter_eq {mark : Char} {cs taken rest : List Char}
    (h : splitAfter mark cs = some (taken, rest)) : cs = taken ++ rest := by
  fun_induction splitAfter mark cs generalizing taken rest with
  | case1 => simp at h
  | case2 c cs hc =>
    simp only [Option.some.injEq, Prod.mk.injEq] at h
    obtain ⟨rfl, rfl⟩ := h
    simp
  | case3 c cs hc ih =>
    obtain ⟨p, hp, he⟩ := Option.map_eq_some_iff.1 h
    simp only [Prod.mk.injEq] at he
    obtain ⟨rfl, rfl⟩ := he
    rw [ih hp]
    simp

theorem splitAfterPair_eq {mark : Char} {cs taken rest : List Char}
    (h : splitAfterPair mark cs = some (taken, rest)) : cs = taken ++ rest := by
  fun_induction splitAfterPair mark cs generalizing taken rest with
  | case1 => simp at h
  | case2 => simp at h
  | case3 c d cs hc =>
    simp only [Option.some.injEq, Prod.mk.injEq] at h
    obtain ⟨rfl, rfl⟩ := h
    simp
  | case4 c d cs hc ih =>
    obtain ⟨p, hp, he⟩ := Option.map_eq_some_iff.1 h
    simp only [Prod.mk.injEq] at he
    obtain ⟨rfl, rfl⟩ := he
    rw [ih hp]
    simp

/-- Taking a primary splits the text, and takes something. -/
theorem takePrimary_eq {cs taken rest : List Char} (h : takePrimary cs = some (taken, rest)) :
    cs = taken ++ rest ∧ taken ≠ [] := by
  have lift {c : Char} {cs : List Char} {o : Option (List Char × List Char)}
      (split : ∀ {t r}, o = some (t, r) → cs = t ++ r)
      (h : o.map (fun p => (c :: p.1, p.2)) = some (taken, rest)) :
      c :: cs = taken ++ rest ∧ taken ≠ [] := by
    obtain ⟨p, hp, he⟩ := Option.map_eq_some_iff.1 h
    simp only [Prod.mk.injEq] at he
    obtain ⟨rfl, rfl⟩ := he
    rw [split hp]
    simp
  cases cs with
  | nil => simp [takePrimary] at h
  | cons c cs =>
    simp only [takePrimary] at h
    split at h
    · exact lift splitLiteralStart_eq h
    · split at h
      · obtain ⟨p, hp, he⟩ := Option.map_eq_some_iff.1 h
        simp only [Prod.mk.injEq] at he
        obtain ⟨rfl, rfl⟩ := he
        have := splitPartner_eq hp
        rw [this]
        simp [splitWord, List.takeWhile_append_dropWhile]
      · split at h
        · exact lift splitAfter_eq h
        · split at h
          · exact lift splitAfterPair_eq h
          · split at h
            · simp only [splitWord, Option.some.injEq, Prod.mk.injEq] at h
              obtain ⟨rfl, rfl⟩ := h
              simp [List.takeWhile_append_dropWhile]
            · simp at h

/-- Splits the operand off the end of a text. -/
def splitOperand (before : List Char) : Option (List Char × List Char) :=
  match _h : takePrimary before with
  | none => none
  | some (taken, '.' :: rest) => (splitOperand rest).map fun p => (taken ++ '.' :: p.1, p.2)
  | some (taken, rest) => some (taken, rest)
termination_by before.length
decreasing_by
  have := (takePrimary_eq _h).1
  rw [this]
  simp only [List.length_append, List.length_cons]
  omega

/-- The operand and the text before it are the text. -/
theorem splitOperand_eq {before taken rest : List Char}
    (h : splitOperand before = some (taken, rest)) : before = taken ++ rest := by
  fun_induction splitOperand before generalizing taken rest with
  | case1 => simp at h
  | case2 before first more hp ih =>
    obtain ⟨p, hq, he⟩ := Option.map_eq_some_iff.1 h
    simp only [Prod.mk.injEq] at he
    obtain ⟨rfl, rfl⟩ := he
    rw [(takePrimary_eq hp).1, ih hq]
    simp
  | case3 before first more hdot hp =>
    simp only [Option.some.injEq, Prod.mk.injEq] at h
    obtain ⟨rfl, rfl⟩ := h
    exact (takePrimary_eq hp).1

end Sql
end CardTransfer
