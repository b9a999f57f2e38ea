import CardTransfer.Proofs.Sql.LiteralFate

/-!
# The argument lists of calls

What the replacement of calls does to a text is decided by the argument lists that its handler sees. They are
collected here as they stand in the text (`argumentListsFrom`), the list of a call before those of the calls in
it. Quotes count as they do for the replacement, and behind a call that is never closed no list is collected.

If the handler takes none of them the text is left alone (`replaceCallsFrom_eq_self`). The lists of a text whose
parentheses match come before those of what follows it (`argumentListsFrom_append_of_nesting`).
-/

namespace CardTransfer
namespace Sql

open Text (breaksBefore Clear isMatch lastOr isBlank isWord)

variable {word x y z inner after : List Char} {handler : List Char → Option (List Char)} {before : Option Char}
  {quoted : Bool} {n depth : Nat}

/-- The argument lists of the calls of a function. `before` is the character before the text, and `quoted` says
whether the text starts inside quotes. -/
def argumentListsFrom (word : List Char) (before : Option Char) (quoted : Bool) (cs : List Char) :
    List (List Char) :=
  match cs with
  | [] => []
  | c :: rest =>
    match _hn : callHead? word before (c :: rest) with
    | none => argumentListsFrom word (some c) (if c == '\'' then !quoted else quoted) rest
    | some n =>
      if quoted then argumentListsFrom word (some '(') quoted ((c :: rest).drop n)
      else
        match _hs : splitClosing ((c :: rest).drop n) with
        | none => []
        | some (inner, after) =>
          inner :: argumentListsFrom word none false inner ++ argumentListsFrom word (some ')') false after
termination_by cs.length
decreasing_by
  · simp
  · have := callHead?_pos _hn
    simp only [List.length_drop, List.length_cons]
    omega
  · have := callHead?_pos _hn
    have := length_splitClosing _hs
    simp only [List.length_drop, List.length_cons] at this ⊢
    omega
  · have := callHead?_pos _hn
    have := length_splitClosing _hs
    simp only [List.length_drop, List.length_cons] at this ⊢
    omega

/-! ### One step -/

theorem argumentListsFrom_nil : argumentListsFrom word before quoted [] = [] := by
  rw [argumentListsFrom]

theorem argumentListsFrom_cons_none {c : Char} (h : callHead? word before (c :: x) = none) :
    argumentListsFrom word before quoted (c :: x) =
      argumentListsFrom word (some c) (if c == '\'' then !quoted else quoted) x := by
  rw [argumentListsFrom]
  split
  · rfl
  · rename_i hn
    rw [h] at hn
    cases hn

theorem argumentListsFrom_quoted (h : callHead? word before x = some n) :
    argumentListsFrom word before true x = argumentListsFrom word (some '(') true (x.drop n) := by
  obtain ⟨c, rest, rfl⟩ := exists_cons_of_callHead? h
  rw [argumentListsFrom]
  split
  · rename_i hn
    rw [h] at hn
    cases hn
  · rename_i hn
    rw [h] at hn
    cases hn
    rfl

theorem argumentListsFrom_unquoted (h : callHead? word before x = some n) :
    argumentListsFrom word before false x = match splitClosing (x.drop n) with
      | none => []
      | some (inner, after) =>
        inner :: argumentListsFrom word none false inner ++ argumentListsFrom word (some ')') false after := by
  obtain ⟨c, rest, rfl⟩ := exists_cons_of_callHead? h
  rw [argumentListsFrom]
  split
  · rename_i hn
    rw [h] at hn
    cases hn
  · rename_i hn
    rw [h] at hn
    cases hn
    simp only [Bool.false_eq_true, ↓reduceIte]
    split <;> rename_i hs <;> rw [hs]

/-! ### Lists of a text in parts -/

theorem argumentListsFrom_congr {after : Option Char} (h : breaksBefore before = breaksBefore after) :
    argumentListsFrom word before quoted x = argumentListsFrom word after quoted x := by
  cases x with
  | nil => rw [argumentListsFrom_nil, argumentListsFrom_nil]
  | cons c x =>
    have hhead : callHead? word before (c :: x) = callHead? word after (c :: x) := by
      unfold callHead?
      rw [h]
    rw [argumentListsFrom.eq_def, argumentListsFrom.eq_def word after]
    dsimp only
    rw [hhead]

/-- A text without calls has no lists, and counts by its quotes alone. -/
theorem argumentListsFrom_append (h : Clear (isMatch (callRule word)) before x y) :
    argumentListsFrom word before quoted (x ++ y) =
      argumentListsFrom word (lastOr before x) (quoted ^^ oddQuotes x) y := by
  induction x generalizing before quoted with
  | nil => simp [lastOr, oddQuotes]
  | cons c x ih =>
    have hnone : callHead? word before (c :: (x ++ y)) = none :=
      callRule_eq_none.1 (Text.isMatch_eq_false.1 h.1)
    rw [List.cons_append, argumentListsFrom_cons_none hnone, ih h.2, oddQuotes_cons]
    cases hc : c == '\'' <;> simp [lastOr]

/-- **The lists of a text whose parentheses match** come before those of what follows. -/
theorem argumentListsFrom_append_of_nesting (hword : ∀ l ∈ word, isWord l = true) (hy : EndsHead y)
    (h : nesting nothing depth quoted x = some (0, false)) :
    argumentListsFrom word before quoted (x ++ y) =
      argumentListsFrom word before quoted x ++ argumentListsFrom word (lastOr before x) false y := by
  fun_induction argumentListsFrom word before quoted x generalizing depth with
  | case1 before quoted =>
    cases h
    rfl
  | case2 before quoted c rest hn ih =>
    obtain ⟨depth', htail⟩ := exists_nesting_tail h
    rw [htail] at h
    have hnone : callHead? word before (c :: (rest ++ y)) = none := by
      rw [← List.cons_append, callHead?_append hword hy]
      exact hn
    simp only [dite_eq_ite] at ih
    rw [List.cons_append, argumentListsFrom_cons_none hnone, ih h]
    rfl
  | case3 before c rest n hn ih =>
    have hrest := (nesting_afterHead hword hn h).2
    obtain ⟨hlast, hle⟩ := lastOr_head hword hn
    have hcall : callHead? word before (c :: rest ++ y) = some n := by rwa [callHead?_append hword hy]
    rw [argumentListsFrom_quoted hcall, List.drop_append_of_le_length hle, ih hrest, hlast]
  | case4 before quoted c rest n hn hq hs =>
    obtain rfl : quoted = false := Bool.eq_false_iff.2 hq
    obtain ⟨inner, after, hfound, -⟩ := exists_splitClosing (nesting_afterHead hword hn h).2 (Nat.zero_le _)
    rw [hfound] at hs
    cases hs
  | case5 before quoted c rest n hn hq inner after hs ih₁ ih₂ =>
    obtain rfl : quoted = false := Bool.eq_false_iff.2 hq
    obtain ⟨hlast, hle⟩ := lastOr_head hword hn
    have hafter := (nesting_of_splitPartner hs (nesting_afterHead hword hn h).2).2
    have hcall : callHead? word before (c :: rest ++ y) = some n := by rwa [callHead?_append hword hy]
    have hsplit : splitClosing ((c :: rest ++ y).drop n) = some (inner, after ++ y) := by
      rw [List.drop_append_of_le_length hle]
      exact splitPartner_line hs
    have hend : lastOr before (c :: rest) = lastOr (some ')') after := by
      rw [hlast, splitPartner_eq hs, Text.lastOr_append]
      rfl
    rw [argumentListsFrom_unquoted hcall, hsplit]
    dsimp only
    rw [ih₂ hafter, hend, List.append_assoc]

/-- Inside of quotes that do not end there are no lists. -/
theorem argumentListsFrom_of_quoteless (h : '\'' ∉ x) :
    argumentListsFrom word before true x = [] := by
  induction hn : x.length using Nat.strong_induction_on generalizing x before with
  | _ k ih =>
    cases x with
    | nil => exact argumentListsFrom_nil
    | cons c x =>
      rw [List.length_cons] at hn
      cases hhead : callHead? word before (c :: x) with
      | none =>
        rw [List.mem_cons, not_or] at h
        rw [argumentListsFrom_cons_none hhead, if_neg (by simpa using Ne.symm h.1)]
        exact ih x.length (by omega) h.2 rfl
      | some n =>
        have hpos := callHead?_pos hhead
        rw [argumentListsFrom_quoted hhead]
        refine ih _ ?_ (fun hmem => h (List.mem_of_mem_drop hmem)) rfl
        rw [List.length_drop, List.length_cons]
        omega

/-- The quotes and the parentheses of an argument list are closed in it. -/
theorem closed_of_mem_argumentLists {l : List Char} (h : l ∈ argumentListsFrom word before quoted x) :
    Closed nothing l := by
  fun_induction argumentListsFrom word before quoted x with
  | case1 => cases h
  | case2 before quoted c rest hn ih => exact ih (by simpa using h)
  | case3 before c rest n hn ih => exact ih h
  | case4 => cases h
  | case5 before quoted c rest n hn hq inner after hs ih₁ ih₂ =>
    rw [List.cons_append, List.mem_cons, List.mem_append] at h
    rcases h with rfl | h | h
    · exact closed_of_splitClosing hs
    · exact ih₁ h
    · exact ih₂ h

/-! ### Exhausted texts -/

/-- **Where the handler takes no argument list the text is left alone.** -/
theorem replaceCallsFrom_eq_self (h : ∀ l ∈ argumentListsFrom word before quoted x, handler l = none) :
    replaceCallsFrom word handler before quoted x = x := by
  fun_induction argumentListsFrom word before quoted x with
  | case1 => rw [replaceCallsFrom]
  | case2 before quoted c rest hn ih =>
    simp only [dite_eq_ite] at ih
    rw [replaceCallsFrom_cons_none hn, ih h]
  | case3 before c rest n hn ih =>
    rw [replaceCallsFrom_quoted hn, ih h, List.take_append_drop]
  | case4 before quoted c rest n hn hq hs =>
    obtain rfl : quoted = false := Bool.eq_false_iff.2 hq
    exact replaceCallsFrom_unclosed hn hs
  | case5 before quoted c rest n hn hq inner after hs ih₁ ih₂ =>
    obtain rfl : quoted = false := Bool.eq_false_iff.2 hq
    rw [List.cons_append, List.forall_mem_cons, List.forall_mem_append] at h
    rw [replaceCallsFrom_call hn hs, ih₁ h.2.1, ih₂ h.2.2, h.1, Option.getD_none, List.append_assoc,
      List.append_assoc, List.singleton_append, ← splitPartner_eq hs, List.take_append_drop]

/-- The handler takes no argument list of a call of the function. -/
def Exhausted (function : String) (handler : List Char → Option (List Char)) (x : List Char) : Prop :=
  ∀ l ∈ argumentListsFrom function.toList none false x, handler l = none

theorem Exhausted.replaceCalls_eq {function : String} (h : Exhausted function handler x) :
    replaceCalls function handler x = x :=
  replaceCallsFrom_eq_self h

end Sql
end CardTransfer
