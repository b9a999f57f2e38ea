import CardTransfer.Proofs.Sql.Literal
import CardTransfer.Proofs.Text.Scan
import CardTransfer.Sql.PostfixCast
import CardTransfer.Sql.Residual

/-!
# Casts behind a line

An operand that is found in a text is found there behind a line too (`splitOperand_line`), so that a cast
with an operand is converted alike. A cast that has none may find one in the line. Where that does not
happen (`Contained`), the line is kept and the text behind it converted as if it stood alone
(`convertPostfixFrom_line`).

It happens only if the line holds a quote, an opening parenthesis or two opening braces
(`contained_of_plain`).
-/

namespace CardTransfer
namespace Sql

variable {cs before taken rest line : List Char} {wall : Char}

/-! ### Operands -/

/-- A character that no operand goes on over: it is no part of a word and no quote, dot or brace. -/
def IsWall (c : Char) : Prop := Text.isWord c = false ∧ c ∉ ['\'', '.', '\x7d']

instance (c : Char) : Decidable (IsWall c) := inferInstanceAs (Decidable (_ ∧ _))

theorem isWall_newline : IsWall '\n' := by decide

theorem splitLiteralStart_wall (hwall : IsWall wall) (h : splitLiteralStart cs = some (taken, rest)) :
    splitLiteralStart (cs ++ wall :: line) = some (taken, rest ++ wall :: line) := by
  have hquote : wall ≠ '\'' := fun heq => hwall.2 (heq ▸ List.mem_cons_self ..)
  fun_induction splitLiteralStart cs generalizing taken rest with
  | case1 => cases h
  | case2 cs ih =>
    obtain ⟨p, hp, he⟩ := Option.map_eq_some_iff.1 h
    cases he
    rw [List.cons_append, List.cons_append, splitLiteralStart, ih hp]
    rfl
  | case3 c cs hc hq =>
    cases h
    cases beq_iff_eq.1 hq
    cases cs with
    | nil => simp [splitLiteralStart, hquote]
    | cons d cs =>
      have hd : d ≠ '\'' := fun hd => hc cs rfl (by rw [hd])
      simp [splitLiteralStart, hd]
  | case4 c cs hc hq ih =>
    obtain ⟨p, hp, he⟩ := Option.map_eq_some_iff.1 h
    cases he
    rw [beq_iff_eq] at hq
    rw [List.cons_append, splitLiteralStart, if_neg (by simpa using hq), ih hp]
    · rfl
    · exact fun _ hquote _ => hq hquote

theorem splitAfter_line {mark : Char} (h : splitAfter mark cs = some (taken, rest)) :
    splitAfter mark (cs ++ line) = some (taken, rest ++ line) := by
  fun_induction splitAfter mark cs generalizing taken rest with
  | case1 => cases h
  | case2 c cs hc =>
    cases h
    rw [List.cons_append, splitAfter, if_pos hc]
  | case3 c cs hc ih =>
    obtain ⟨p, hp, he⟩ := Option.map_eq_some_iff.1 h
    cases he
    rw [List.cons_append, splitAfter, if_neg hc, ih hp]
    rfl

theorem splitAfterPair_line {mark : Char} (h : splitAfterPair mark cs = some (taken, rest)) :
    splitAfterPair mark (cs ++ line) = some (taken, rest ++ line) := by
  fun_induction splitAfterPair mark cs generalizing taken rest with
  | case1 => cases h
  | case2 => cases h
  | case3 c d cs hc =>
    cases h
    rw [List.cons_append, List.cons_append, splitAfterPair, if_pos hc]
  | case4 c d cs hc ih =>
    obtain ⟨p, hp, he⟩ := Option.map_eq_some_iff.1 h
    cases he
    rw [List.cons_append, List.cons_append, splitAfterPair, if_neg hc, ← List.cons_append, ih hp]
    rfl

theorem splitPartner_line {opens closes : Char} {depth : Nat} {quoted : Bool}
    (h : splitPartner opens closes depth quoted cs = some (taken, rest)) :
    splitPartner opens closes depth quoted (cs ++ line) = some (taken, rest ++ line) := by
  induction cs generalizing depth quoted taken rest with
  | nil => cases h
  | cons c cs ih =>
    have hlater {depth : Nat} {quoted : Bool}
        (h : (splitPartner opens closes depth quoted cs).map (fun p => (c :: p.1, p.2)) =
          some (taken, rest)) :
        (splitPartner opens closes depth quoted (cs ++ line)).map (fun p => (c :: p.1, p.2)) =
          some (taken, rest ++ line) := by
      obtain ⟨p, hp, he⟩ := Option.map_eq_some_iff.1 h
      cases he
      rw [ih hp]
      rfl
    rw [List.cons_append]
    unfold splitPartner at h ⊢
    split_ifs at h ⊢
    · exact hlater h
    · exact hlater h
    · exact hlater h
    · cases depth with
      | zero =>
        cases h
        rfl
      | succ depth => exact hlater h
    · exact hlater h

theorem splitWord_wall (hwall : IsWall wall) (cs line : List Char) :
    splitWord (cs ++ wall :: line) = ((splitWord cs).1, (splitWord cs).2 ++ wall :: line) := by
  unfold splitWord
  induction cs with
  | nil => simp [hwall.1]
  | cons c cs ih =>
    rw [List.cons_append, List.takeWhile_cons, List.dropWhile_cons, List.takeWhile_cons,
      List.dropWhile_cons]
    cases hc : Text.isWord c with
    | true => simpa using ih
    | false => rfl

theorem head?_append_wall (hwall : IsWall wall) (cs line : List Char) :
    ((cs ++ wall :: line).head? == some '\x7d') = (cs.head? == some '\x7d') := by
  cases cs with
  | nil => simpa using fun heq => hwall.2 (by rw [heq]; simp)
  | cons => rfl

/-- A primary that is found in a text is found there behind a wall. -/
theorem takePrimary_wall (hwall : IsWall wall) (h : takePrimary before = some (taken, rest)) :
    takePrimary (before ++ wall :: line) = some (taken, rest ++ wall :: line) := by
  cases before with
  | nil => cases h
  | cons c cs =>
    rw [List.cons_append]
    simp only [takePrimary] at h ⊢
    by_cases hliteral : (c == '\'') = true
    · rw [if_pos hliteral] at h ⊢
      obtain ⟨p, hp, he⟩ := Option.map_eq_some_iff.1 h
      cases he
      rw [splitLiteralStart_wall hwall hp]
      rfl
    rw [if_neg hliteral] at h ⊢
    by_cases hclose : (c == ')') = true
    · rw [if_pos hclose] at h ⊢
      obtain ⟨p, hp, he⟩ := Option.map_eq_some_iff.1 h
      cases he
      rw [splitOpening, splitPartner_line hp, Option.map_some, splitWord_wall hwall]
    rw [if_neg hclose] at h ⊢
    by_cases hquote : (c == '"') = true
    · rw [if_pos hquote] at h ⊢
      obtain ⟨p, hp, he⟩ := Option.map_eq_some_iff.1 h
      cases he
      rw [splitAfter_line hp]
      rfl
    rw [if_neg hquote] at h ⊢
    rw [head?_append_wall hwall]
    by_cases hbrace : (c == '\x7d' && cs.head? == some '\x7d') = true
    · rw [if_pos hbrace] at h ⊢
      obtain ⟨p, hp, he⟩ := Option.map_eq_some_iff.1 h
      cases he
      rw [splitAfterPair_line hp]
      rfl
    rw [if_neg hbrace] at h ⊢
    by_cases hword : Text.isWord c = true
    · rw [if_pos hword] at h ⊢
      cases h
      rw [splitWord_wall hwall]
    · rw [if_neg hword] at h
      cases h

theorem splitOperand_of_dot (h : takePrimary before = some (taken, '.' :: rest)) :
    splitOperand before = (splitOperand rest).map fun p => (taken ++ '.' :: p.1, p.2) := by
  rw [splitOperand]
  split
  · rename_i hp
    rw [h] at hp
    cases hp
  · rename_i hp
    rw [h] at hp
    cases hp
    rfl
  · rename_i hdot hp
    rw [h] at hp
    cases hp
    exact (hdot rest rfl).elim

theorem splitOperand_of_primary (h : takePrimary before = some (taken, rest))
    (hdot : ∀ more, rest ≠ '.' :: more) : splitOperand before = some (taken, rest) := by
  rw [splitOperand]
  split
  · rename_i hp
    rw [h] at hp
    cases hp
  · rename_i more hp
    rw [h] at hp
    cases hp
    exact absurd rfl (hdot more)
  · rename_i hp
    rw [h] at hp
    cases hp
    rfl

/-- **An operand that is found in a text is found there behind a wall.** -/
theorem splitOperand_wall (hwall : IsWall wall) (h : splitOperand before = some (taken, rest)) :
    splitOperand (before ++ wall :: line) = some (taken, rest ++ wall :: line) := by
  fun_induction splitOperand before generalizing taken rest with
  | case1 => cases h
  | case2 before first more hp ih =>
    obtain ⟨p, hq, he⟩ := Option.map_eq_some_iff.1 h
    cases he
    have hfirst : takePrimary (before ++ wall :: line) = some (first, '.' :: (more ++ wall :: line)) :=
      takePrimary_wall hwall hp
    rw [splitOperand_of_dot hfirst, ih hq]
    rfl
  | case3 before first more hdot hp =>
    cases h
    refine splitOperand_of_primary (takePrimary_wall hwall hp) fun later heq => ?_
    cases more with
    | nil =>
      rw [List.nil_append] at heq
      exact hwall.2 (by rw [(List.cons.inj heq).1]; simp)
    | cons c more => exact hdot more (by rw [(List.cons.inj heq).1])

/-! ### Casts -/

/-- A cast that is converted is converted alike behind a line with an even number of quotes. -/
theorem castAt?_line {earlier later : List Char} (heven : oddQuotes line = false)
    (h : castAt? before cs = some (earlier, later)) :
    castAt? (before ++ '\n' :: line) cs = some (earlier ++ '\n' :: line, later) := by
  unfold castAt? at h ⊢
  split at h
  case h_2 => cases h
  rename_i tail
  simp only [Option.bind_eq_bind, Option.bind_eq_some_iff] at h
  obtain ⟨⟨type, rest⟩, htype, h⟩ := h
  split at h
  case isTrue => cases h
  rename_i hquotes
  obtain ⟨⟨operand, earlier'⟩, hoperand, h⟩ := Option.bind_eq_some_iff.1 h
  obtain ⟨function, hfunction, h⟩ := Option.bind_eq_some_iff.1 h
  cases h
  have hquotes' : oddQuotes (before ++ '\n' :: line) = false := by
    rw [oddQuotes_append, oddQuotes_cons, heven, Bool.eq_false_iff.2 hquotes]
    rfl
  simp [htype, hquotes', splitOperand_wall isWall_newline hoperand, hfunction]

/-- The text at and after a place, `before` being what precedes it, holds no cast that stays there and is
converted behind a line. The line is given last character first. -/
inductive Contained (line : List Char) : List Char → List Char → Prop
  | nil {before : List Char} : Contained line before []
  | stays {before : List Char} {c : Char} {cs : List Char} (h : castAt? before (c :: cs) = none)
      (hline : castAt? (before ++ line) (c :: cs) = none) (hlater : Contained line (c :: before) cs) :
      Contained line before (c :: cs)
  | converted {before cs earlier later : List Char} (h : castAt? before cs = some (earlier, later))
      (hlater : Contained line earlier later) : Contained line before cs

theorem convertPostfixFrom_eq (before cs : List Char) : convertPostfixFrom before cs =
    match nextCast? before cs with
    | none => before.reverse ++ cs
    | some (earlier, later) => convertPostfixFrom earlier later := by
  rw [convertPostfixFrom]
  split <;> rename_i h <;> rw [h]

theorem convertPostfixFrom_stays {c : Char} (h : castAt? before (c :: cs) = none) :
    convertPostfixFrom before (c :: cs) = convertPostfixFrom (c :: before) cs := by
  rw [convertPostfixFrom_eq, convertPostfixFrom_eq (c :: before), nextCast?, h]
  dsimp only
  rw [List.reverse_cons, List.append_assoc, List.singleton_append]

theorem convertPostfixFrom_converted {earlier later : List Char}
    (h : castAt? before cs = some (earlier, later)) :
    convertPostfixFrom before cs = convertPostfixFrom earlier later := by
  cases cs with
  | nil => cases h
  | cons c cs => rw [convertPostfixFrom_eq, nextCast?, h]

theorem castAt?_eq_none {previous : Option Char} (h : fixedText "::" previous cs = false) :
    castAt? before cs = none := by
  unfold castAt?
  split
  · simp [fixedText] at h
  · rfl

/-- Text without colons of casts is passed over. -/
theorem convertPostfixFrom_append {previous : Option Char} {x : List Char}
    (h : Text.Clear (fixedText "::") previous x cs) :
    convertPostfixFrom before (x ++ cs) = convertPostfixFrom (x.reverse ++ before) cs := by
  induction x generalizing before previous with
  | nil => rfl
  | cons c x ih =>
    have hnone : castAt? before (c :: (x ++ cs)) = none := castAt?_eq_none h.1
    rw [List.cons_append, convertPostfixFrom_stays hnone, ih h.2, List.reverse_cons, List.append_assoc]
    rfl

/-- No cast in text without colons of casts reaches into a line. -/
theorem contained_append {previous : Option Char} {x : List Char}
    (h : Text.Clear (fixedText "::") previous x cs) (hlater : Contained line (x.reverse ++ before) cs) :
    Contained line before (x ++ cs) := by
  induction x generalizing before previous with
  | nil => exact hlater
  | cons c x ih =>
    refine .stays (castAt?_eq_none h.1) (castAt?_eq_none h.1) (ih h.2 ?_)
    rwa [List.reverse_cons, List.append_assoc] at hlater

/-- **Casts are converted behind a line as they are without it,** if none reaches into it. -/
theorem convertPostfixFrom_line (heven : oddQuotes line = false) (h : Contained ('\n' :: line) before cs) :
    convertPostfixFrom (before ++ '\n' :: line) cs =
      ('\n' :: line).reverse ++ convertPostfixFrom before cs := by
  induction h with
  | nil =>
    rw [convertPostfixFrom_eq, convertPostfixFrom_eq]
    simp [nextCast?]
  | stays h hline _ ih => rw [convertPostfixFrom_stays hline, convertPostfixFrom_stays h, ← ih]; rfl
  | converted h _ ih =>
    rw [convertPostfixFrom_converted (castAt?_line heven h), convertPostfixFrom_converted h, ih]

/-! ### Lines that no cast reaches into -/

theorem splitLiteralStart_none (hline : '\'' ∉ line) (h : splitLiteralStart cs = none) :
    splitLiteralStart (cs ++ line) = none := by
  fun_induction splitLiteralStart cs with
  | case1 =>
    induction line with
    | nil => rfl
    | cons c line ih =>
      rw [List.mem_cons, not_or] at hline
      rw [List.nil_append] at ih ⊢
      rw [splitLiteralStart, ih hline.2]
      · simp [Ne.symm hline.1]
      · exact fun _ hc _ => hline.1 hc.symm
  | case2 cs ih =>
    rw [List.cons_append, List.cons_append, splitLiteralStart, ih (Option.map_eq_none_iff.1 h)]
    rfl
  | case3 => cases h
  | case4 c cs hc hq ih =>
    rw [List.cons_append, splitLiteralStart, ih (Option.map_eq_none_iff.1 h), if_neg hq]
    · rfl
    · exact fun _ hquote _ => hq (by rw [hquote]; rfl)

theorem splitAfter_none {mark : Char} (hline : mark ∉ line) (h : splitAfter mark cs = none) :
    splitAfter mark (cs ++ line) = none := by
  fun_induction splitAfter mark cs with
  | case1 =>
    induction line with
    | nil => rfl
    | cons c line ih =>
      rw [List.mem_cons, not_or] at hline
      rw [List.nil_append] at ih ⊢
      rw [splitAfter, ih hline.2, if_neg (by simpa using Ne.symm hline.1)]
      rfl
  | case2 => cases h
  | case3 c cs hc ih =>
    rw [List.cons_append, splitAfter, ih (Option.map_eq_none_iff.1 h), if_neg hc]
    rfl

theorem splitAfterPair_none {mark : Char} (hline : mark ∉ line) (h : splitAfterPair mark cs = none) :
    splitAfterPair mark (cs ++ line) = none := by
  -- the first of the two marks can stand before the line, the second cannot
  have hnone (c : Char) : splitAfterPair mark (c :: line) = none := by
    clear h
    induction line generalizing c with
    | nil => rfl
    | cons d line ih =>
      rw [List.mem_cons, not_or] at hline
      have hd : (d == mark) = false := beq_eq_false_iff_ne.2 (Ne.symm hline.1)
      rw [splitAfterPair, hd, Bool.and_false, ih hline.2]
      rfl
  fun_induction splitAfterPair mark cs with
  | case1 =>
    cases line with
    | nil => rfl
    | cons c line =>
      have htwice := hnone c
      rw [splitAfterPair] at htwice
      split at htwice
      · cases htwice
      · exact Option.map_eq_none_iff.1 htwice
  | case2 c => exact hnone c
  | case3 => cases h
  | case4 c d cs hc ih =>
    rw [List.cons_append, List.cons_append, splitAfterPair, if_neg hc, ← List.cons_append,
      ih (Option.map_eq_none_iff.1 h)]
    rfl

theorem splitPartner_none {opens closes : Char} {depth : Nat} {quoted : Bool} (hline : closes ∉ line)
    (h : splitPartner opens closes depth quoted cs = none) :
    splitPartner opens closes depth quoted (cs ++ line) = none := by
  induction cs generalizing depth quoted with
  | nil =>
    clear h
    rw [List.nil_append]
    induction line generalizing depth quoted with
    | nil => rfl
    | cons c line ih =>
      rw [List.mem_cons, not_or] at hline
      have hc : ¬(c == closes) = true := by simpa using Ne.symm hline.1
      unfold splitPartner
      rw [if_neg hc]
      simp only [ih hline.2, Option.map_none, ite_self]
  | cons c cs ih =>
    rw [List.cons_append]
    unfold splitPartner at h ⊢
    split_ifs at h ⊢
    · rw [ih (Option.map_eq_none_iff.1 h), Option.map_none]
    · rw [ih (Option.map_eq_none_iff.1 h), Option.map_none]
    · rw [ih (Option.map_eq_none_iff.1 h), Option.map_none]
    · cases depth with
      | zero => cases h
      | succ depth => exact Option.map_eq_none_iff.2 (ih (Option.map_eq_none_iff.1 h))
    · rw [ih (Option.map_eq_none_iff.1 h), Option.map_none]

theorem takePrimary_none (hplain : ∀ c ∈ ['\'', '"', '(', '\x7b'], c ∉ line)
    (h : takePrimary before = none) : takePrimary (before ++ '\n' :: line) = none := by
  have hmarks {c : Char} (hc : c ∈ ['\'', '"', '(', '\x7b']) : c ∉ '\n' :: line := by
    rw [List.mem_cons, not_or]
    refine ⟨?_, hplain c hc⟩
    rintro rfl
    revert hc
    decide
  cases before with
  | nil => simp [takePrimary, show Text.isWord '\n' = false by decide]
  | cons c cs =>
    rw [List.cons_append]
    simp only [takePrimary] at h ⊢
    rw [head?_append_wall isWall_newline]
    split_ifs at h ⊢
    · rw [splitLiteralStart_none (hmarks (by simp)) (Option.map_eq_none_iff.1 h), Option.map_none]
    · rw [splitOpening, splitPartner_none (hmarks (by simp)) (Option.map_eq_none_iff.1 h), Option.map_none]
    · rw [splitAfter_none (hmarks (by simp)) (Option.map_eq_none_iff.1 h), Option.map_none]
    · rw [splitAfterPair_none (hmarks (by simp)) (Option.map_eq_none_iff.1 h), Option.map_none]
    · rfl

/-- Where no operand is found in a text, none is found behind a line without its marks. -/
theorem splitOperand_none (hplain : ∀ c ∈ ['\'', '"', '(', '\x7b'], c ∉ line)
    (h : splitOperand before = none) : splitOperand (before ++ '\n' :: line) = none := by
  fun_induction splitOperand before with
  | case1 before hp =>
    rw [splitOperand]
    split
    · rfl
    · rename_i hline
      rw [takePrimary_none hplain hp] at hline
      cases hline
    · rename_i hline
      rw [takePrimary_none hplain hp] at hline
      cases hline
  | case2 before first more hp ih =>
    have hfirst : takePrimary (before ++ '\n' :: line) = some (first, '.' :: (more ++ '\n' :: line)) :=
      takePrimary_wall isWall_newline hp
    rw [splitOperand_of_dot hfirst, ih (Option.map_eq_none_iff.1 h), Option.map_none]
  | case3 => cases h

/-- A cast that stays in a text stays there behind such a line. -/
theorem castAt?_none (hplain : ∀ c ∈ ['\'', '"', '(', '\x7b'], c ∉ line)
    (h : castAt? before cs = none) : castAt? (before ++ '\n' :: line) cs = none := by
  have hquotes : oddQuotes (before ++ '\n' :: line) = oddQuotes before := by
    have hline : oddQuotes line = false := by
      rw [oddQuotes, List.count_eq_zero.2 (hplain '\'' (by simp))]
      rfl
    rw [oddQuotes_append, oddQuotes_cons, hline]
    exact Bool.xor_false _
  unfold castAt? at h ⊢
  split
  case h_2 => rfl
  rename_i tail
  cases htype : castType? tail with
  | none => rfl
  | some p =>
    simp only [htype, Option.bind_eq_bind, Option.bind_some, hquotes] at h ⊢
    split
    · rfl
    · rename_i hodd
      rw [if_neg hodd] at h
      cases hoperand : splitOperand before with
      | none => rw [splitOperand_none hplain hoperand, Option.bind_none]
      | some q =>
        rw [hoperand, Option.bind_some] at h
        cases hfunction : conversion? p.1 with
        | none => simp
        | some function =>
          rw [hfunction] at h
          cases h

/-- **No cast reaches into a line without quotes, opening parentheses and opening braces.** -/
theorem contained_of_plain (hplain : ∀ c ∈ ['\'', '"', '(', '\x7b'], c ∉ line) (before cs : List Char) :
    Contained ('\n' :: line) before cs := by
  -- each conversion takes two colons, and between conversions the text at the place gets shorter
  induction hn : before.count ':' + cs.count ':' using Nat.strong_induction_on generalizing before cs with
  | _ n ih =>
    induction cs generalizing before with
    | nil => exact .nil
    | cons c cs ihc =>
      cases h : castAt? before (c :: cs) with
      | none =>
        refine .stays h (castAt?_none hplain h) (ihc _ ?_)
        rw [← hn, List.count_cons, List.count_cons]
        omega
      | some p =>
        have hcount := count_castAt? h
        exact .converted h (ih _ (by omega) _ _ rfl)

end Sql
end CardTransfer
