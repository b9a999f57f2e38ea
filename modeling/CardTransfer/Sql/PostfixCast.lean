import CardTransfer.Sorting
import CardTransfer.Sql.Cast
import CardTransfer.Sql.Operand
import CardTransfer.Text.Digit

/-!
# Postfix casts

`x::type` becomes a call of the conversion function of the type. Casts are converted from left to
right; after each conversion reading goes on from the start of the new call, so that `x::date::text`
nests. A cast stays if it stands inside quotes, if nothing before it can be its operand, or if its
type has no conversion function.

A type may be followed by a size in parentheses, and nothing that could belong to a longer word may
come after it. Where a size is followed by a word, the type is taken without the size.
-/

namespace CardTransfer
namespace Sql

/-- The type names, the longest first, each as its words. -/
def typeNames : List (List (List Char)) :=
  (Sorting.sort (fun a b => b.length ≤ a.length) (conversions.map (·.1))).map fun name =>
    name.toList.splitOn ' '

/-- The length of words in any letter case with blanks between them. -/
def wordsLength? : List (List Char) → List Char → Option Nat
  | [], _ => some 0
  | [w], cs => Text.word? w cs
  | w :: ws, cs => do
    let n ← Text.word? w cs
    let gap := Text.blankLength (cs.drop n)
    if gap == 0 then none
    else
      let m ← wordsLength? ws (cs.drop (n + gap))
      some (n + gap + m)

/-- The length of a size: blanks, and digits, blanks and commas in parentheses. -/
def sizeLength? (cs : List Char) : Option Nat :=
  let gap := Text.blankLength cs
  match cs.drop gap with
  | '(' :: inner =>
    let n := (inner.takeWhile fun c => Text.isDigit c || Text.isBlank c || c == ',').length
    if (inner.drop n).head? == some ')' then some (gap + n + 2) else none
  | _ => none

/-- The length of a type name with its size. -/
def typeLength? (name : List (List Char)) (cs : List Char) : Option (Nat × Nat) := do
  let n ← wordsLength? name cs
  let after := cs.drop n
  match sizeLength? after with
  | some m =>
    if Text.breaksAfter (after.drop m) then some (n, n + m)
    else if Text.breaksAfter after then some (n, n)
    else none
  | none => if Text.breaksAfter after then some (n, n) else none

/-- The type of a cast, given the text after its colons, and the text after the type. -/
def castType? (cs : List Char) : Option (List Char × List Char) :=
  let body := cs.drop (Text.blankLength cs)
  (typeNames.findSome? fun name => typeLength? name body).map fun (n, m) =>
    (body.take n, body.drop m)

/-- The conversion of a cast that starts at a place, `before` being what precedes the place, last
character first: what precedes the new call, and the text from the call on. -/
def castAt? (before cs : List Char) : Option (List Char × List Char) :=
  match cs with
  | ':' :: ':' :: tail => do
    let (type, rest) ← castType? tail
    if oddQuotes before then none
    else
      let (operand, earlier) ← splitOperand before
      let function ← conversion? type
      some (earlier, callOf function operand.reverse ++ rest)
  | _ => none

/-- The first cast at or after a place that can be converted. -/
def nextCast? (before : List Char) : List Char → Option (List Char × List Char)
  | [] => none
  | c :: cs =>
    match castAt? before (c :: cs) with
    | some site => some site
    | none => nextCast? (c :: before) cs

/-- A conversion function is one of the table. -/
theorem exists_mem_conversions {type function : List Char} (h : conversion? type = some function) :
    ∃ f ∈ conversions, function = f.2.toList := by
  obtain ⟨name, hname, rfl⟩ := Option.map_eq_some_iff.1 h
  obtain ⟨l₁, l₂, heq, -⟩ := List.lookup_eq_some_iff.1 hname
  exact ⟨(_, name), heq ▸ List.mem_append_right _ (List.mem_cons_self ..), rfl⟩

theorem sublist_castType? {cs type rest : List Char} (h : castType? cs = some (type, rest)) : rest.Sublist cs := by
  unfold castType? at h
  obtain ⟨⟨n, m⟩, -, he⟩ := Option.map_eq_some_iff.1 h
  cases he
  exact (List.drop_sublist _ _).trans (List.drop_sublist _ _)

/-- **A conversion takes two colons out of the text**, and brings in the call of a conversion function only. -/
theorem countP_castAt? {p : Char → Bool} {before cs earlier later : List Char} (hcolon : p ':' = true)
    (hcall : ∀ f ∈ conversions, (callOf f.2.toList []).countP p = 0) (h : castAt? before cs = some (earlier, later)) :
    earlier.countP p + later.countP p + 2 ≤ before.countP p + cs.countP p := by
  unfold castAt? at h
  split at h
  case h_2 => cases h
  rename_i tail
  simp only [Option.bind_eq_bind, Option.bind_eq_some_iff] at h
  obtain ⟨⟨type, rest⟩, htype, h⟩ := h
  split at h
  case isTrue => cases h
  obtain ⟨⟨operand, earlier'⟩, hoperand, h⟩ := Option.bind_eq_some_iff.1 h
  obtain ⟨function, hfunction, h⟩ := Option.bind_eq_some_iff.1 h
  cases h
  obtain ⟨f, hf, rfl⟩ := exists_mem_conversions hfunction
  have hlight := hcall f hf
  have hrest : rest.countP p ≤ tail.countP p := (sublist_castType? htype).countP_le
  dsimp only
  rw [splitOperand_eq hoperand]
  simp only [callOf, List.countP_append, List.countP_cons, List.countP_reverse, List.countP_nil, hcolon,
    ↓reduceIte] at hlight ⊢
  omega

theorem count_castAt? {before cs earlier later : List Char} (h : castAt? before cs = some (earlier, later)) :
    earlier.count ':' + later.count ':' + 2 ≤ before.count ':' + cs.count ':' :=
  countP_castAt? (by decide) (by decide) h

theorem countP_nextCast? {p : Char → Bool} {before cs earlier later : List Char} (hcolon : p ':' = true)
    (hcall : ∀ f ∈ conversions, (callOf f.2.toList []).countP p = 0) (h : nextCast? before cs = some (earlier, later)) :
    earlier.countP p + later.countP p + 2 ≤ before.countP p + cs.countP p := by
  induction cs generalizing before with
  | nil => cases h
  | cons c cs ih =>
    unfold nextCast? at h
    split at h
    · rename_i site hs
      cases h
      exact countP_castAt? hcolon hcall hs
    · have hlater := ih h
      rw [List.countP_cons] at hlater ⊢
      omega

/-- Converts the casts at or after a place. -/
def convertPostfixFrom (before cs : List Char) : List Char :=
  match _h : nextCast? before cs with
  | none => before.reverse ++ cs
  | some (earlier, later) => convertPostfixFrom earlier later
termination_by before.countP (· == ':') + cs.countP (· == ':')
decreasing_by
  have := countP_nextCast? (p := (· == ':')) (by decide) (by decide) _h
  omega

/-- Converts the postfix casts of a text. -/
def convertPostfixCasts (cs : List Char) : List Char := convertPostfixFrom [] cs

end Sql
end CardTransfer
