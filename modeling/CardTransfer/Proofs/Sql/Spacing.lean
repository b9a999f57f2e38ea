import CardTransfer.Proofs.Sql.Separation
import CardTransfer.Sql.Spacing

/-!
# Blank lines and literals

A query is tidied line by line, and a line knows nothing of quotes: a literal that goes over several lines is
tidied like everything else (`literals_tidy`). What can be seen outside of the literals stays, in its order
(`visible_tidyText`). So a query keeps its literals just if each of them is settled: none of its lines ends
with a blank, and no empty line of it follows another (`tidy_keeps_literals_iff`).

The two ends of a text are trimmed at last, so that a text may as well be tidied as if it went on from a line
that something stands on (`tidied`, `tidyText_eq`). There one character after the other is kept, apart from some
blanks (`tidied_cons`, `tidied_cons_blank`), and the two sides of a character that is not blank are tidied apart
(`tidied_append`).
-/

namespace CardTransfer
namespace Sql

open Text (isBlank trim trimEnd trimStart)

variable {c q : Char} {b : Bool} {x y w cs line : List Char} {before after ls rest : List (List Char)}

/-! ### Lines -/

theorem exists_lines (cs : List Char) : ∃ line rest, lines cs = line :: rest :=
  List.exists_cons_of_ne_nil (lines_ne_nil cs)

theorem lines_cons_newline (cs : List Char) : lines ('\n' :: cs) = [] :: lines cs := by
  obtain ⟨line, rest, h⟩ := exists_lines cs
  simp [lines, h]

theorem lines_cons (hc : c ≠ '\n') (h : lines cs = line :: rest) : lines (c :: cs) = (c :: line) :: rest := by
  simp [lines, h, hc]

/-- Two texts that follow each other share a line. -/
theorem lines_append (hx : lines x = before ++ [w]) (hy : lines y = line :: rest) :
    lines (x ++ y) = before ++ (w ++ line) :: rest := by
  induction x generalizing before w with
  | nil =>
    obtain ⟨rfl, rfl⟩ : before = [] ∧ w = [] := by
      cases before with
      | nil => exact ⟨rfl, (List.cons.inj hx).1.symm⟩
      | cons l before => cases before <;> cases hx
    exact hy
  | cons c x ih =>
    rw [List.cons_append]
    by_cases hc : c = '\n'
    · subst hc
      rw [lines_cons_newline] at hx ⊢
      cases before with
      | nil => exact absurd (List.cons.inj hx).2 (lines_ne_nil x)
      | cons l before =>
        obtain ⟨rfl, hlater⟩ := List.cons.inj hx
        rw [ih hlater]
        rfl
    · obtain ⟨first, more, hfirst⟩ := exists_lines x
      rw [lines_cons hc hfirst] at hx
      cases before with
      | nil =>
        obtain ⟨rfl, rfl⟩ := List.cons.inj hx
        have hsame : lines x = [] ++ [first] := hfirst
        exact lines_cons hc (ih hsame)
      | cons l before =>
        obtain ⟨rfl, rfl⟩ := List.cons.inj hx
        have hsame : lines x = first :: before ++ [w] := hfirst
        exact lines_cons hc (ih hsame)

theorem newline_notMem_of_mem_lines (h : line ∈ lines cs) : '\n' ∉ line := by
  induction cs generalizing line with
  | nil =>
    cases List.mem_singleton.1 h
    exact List.not_mem_nil
  | cons c cs ih =>
    by_cases hc : c = '\n'
    · subst hc
      rw [lines_cons_newline] at h
      rcases List.mem_cons.1 h with rfl | h
      · exact List.not_mem_nil
      · exact ih h
    · obtain ⟨first, more, hfirst⟩ := exists_lines cs
      rw [lines_cons hc hfirst] at h
      rw [hfirst] at ih
      rcases List.mem_cons.1 h with rfl | h
      · rw [List.mem_cons, not_or]
        exact ⟨Ne.symm hc, ih (List.mem_cons_self ..)⟩
      · exact ih (List.mem_cons_of_mem _ h)

/-- A line is put before a line or at the end. -/
theorem joinLines_cons (line : List Char) (rest : List (List Char)) :
    joinLines (line :: rest) = line ++ joinLines ([] :: rest) := by
  cases rest with
  | nil => exact (List.append_nil line).symm
  | cons l rest => rfl

theorem joinLines_append (before : List (List Char)) (x y : List Char) (rest : List (List Char)) :
    joinLines (before ++ (x ++ y) :: rest) = joinLines (before ++ [x]) ++ joinLines (y :: rest) := by
  induction before with
  | nil => rw [List.nil_append, joinLines_cons, joinLines_cons y, List.append_assoc]; rfl
  | cons l before ih =>
    rw [List.cons_append, List.cons_append, joinLines_cons, joinLines_cons l]
    cases before with
    | nil =>
      change l ++ '\n' :: joinLines ([] ++ (x ++ y) :: rest) = (l ++ '\n' :: joinLines ([] ++ [x])) ++ _
      rw [ih, List.append_assoc]
      rfl
    | cons m before =>
      change l ++ '\n' :: joinLines (m :: before ++ (x ++ y) :: rest) =
        (l ++ '\n' :: joinLines (m :: before ++ [x])) ++ _
      rw [ih, List.append_assoc]
      rfl

/-- Lines that are put together are found again. -/
theorem lines_joinLines (hne : ls ≠ []) (h : ∀ line ∈ ls, '\n' ∉ line) : lines (joinLines ls) = ls := by
  have hline {line : List Char} (hline : '\n' ∉ line) : lines line = [line] := by
    induction line with
    | nil => rfl
    | cons c line ih =>
      rw [List.mem_cons, not_or] at hline
      exact lines_cons (Ne.symm hline.1) (ih hline.2)
  induction ls with
  | nil => exact absurd rfl hne
  | cons line rest ih =>
    rw [List.forall_mem_cons] at h
    cases rest with
    | nil => exact hline h.1
    | cons l rest =>
      have hlater : lines ('\n' :: joinLines (l :: rest)) = [] :: l :: rest := by
        rw [lines_cons_newline, ih (List.cons_ne_nil l rest) h.2]
      have hsame : lines line = [] ++ [line] := hline h.1
      have happend := lines_append hsame hlater
      rwa [List.append_nil] at happend

/-! ### Ends of lines -/

theorem trimEnd_append (hq : isBlank q = false) (x y : List Char) :
    trimEnd (x ++ q :: y) = x ++ q :: trimEnd y := by
  unfold trimEnd
  rw [List.reverse_append, List.reverse_cons, List.append_assoc, List.dropWhile_append]
  split
  · rename_i hnil
    rw [List.isEmpty_iff.1 hnil, List.singleton_append, List.dropWhile_cons_of_neg (by simp [hq])]
    simp
  · simp

theorem trimEnd_eq_nil (h : isBlankLine line = true) : trimEnd line = [] := by
  have hall : ∀ c ∈ line.reverse, isBlank c = true := fun c hc =>
    List.all_eq_true.1 h c (List.mem_reverse.1 hc)
  rw [trimEnd, List.dropWhile_eq_nil_iff.2 hall]
  rfl

theorem trimEnd_cons (h : isBlankLine (c :: line) = false) : trimEnd (c :: line) = c :: trimEnd line := by
  have hdrop : (line.reverse ++ [c]).dropWhile isBlank = line.reverse.dropWhile isBlank ++ [c] := by
    rw [List.dropWhile_append]
    split
    · rename_i hnil
      -- the character is not blank if nothing else stands there
      have hline : isBlankLine line = true := List.all_eq_true.2 fun d hd => by
        rw [List.isEmpty_iff, List.dropWhile_eq_nil_iff] at hnil
        exact hnil d (List.mem_reverse.2 hd)
      have hc : isBlank c = false := by
        rw [isBlankLine, List.all_cons] at h
        rwa [show line.all isBlank = true from hline, Bool.and_true] at h
      rw [List.isEmpty_iff.1 hnil, List.dropWhile_cons_of_neg (by simp [hc])]
      rfl
    · rfl
  rw [trimEnd, List.reverse_cons, hdrop, List.reverse_append]
  rfl

theorem isBlankLine_append (hq : isBlank q = false) (x y : List Char) : isBlankLine (x ++ q :: y) = false := by
  simp [isBlankLine, hq]

/-- A line on which something stands is kept. -/
theorem tidyLines_cons (hline : isBlankLine line = false) (rest : List (List Char)) :
    tidyLines b (line :: rest) = trimEnd line :: tidyLines false rest := by
  rw [tidyLines, hline]
  rfl

theorem tidyLines_blank (hline : isBlankLine line = true) (rest : List (List Char)) :
    tidyLines false (line :: rest) = [] :: tidyLines true rest := by
  rw [tidyLines, hline]
  rfl

theorem tidyLines_afterBlank (hline : isBlankLine line = true) (rest : List (List Char)) :
    tidyLines true (line :: rest) = tidyLines true rest := by
  rw [tidyLines, hline]
  rfl

/-- Behind a blank line at most an empty line less is written. -/
theorem tidyLines_false_or (ls : List (List Char)) :
    tidyLines false ls = [] :: tidyLines true ls ∨ tidyLines false ls = tidyLines true ls := by
  cases ls with
  | nil => exact .inr rfl
  | cons line rest =>
    cases hline : isBlankLine line with
    | false => exact .inr (by rw [tidyLines_cons hline, tidyLines_cons hline])
    | true => exact .inl (by rw [tidyLines_blank hline, tidyLines_afterBlank hline])

/-- Such a line divides the lines. -/
theorem tidyLines_append (hline : isBlankLine line = false) (before rest : List (List Char)) :
    tidyLines b (before ++ line :: rest) = tidyLines b before ++ trimEnd line :: tidyLines false rest := by
  induction before generalizing b with
  | nil => exact tidyLines_cons hline rest
  | cons l before ih =>
    rw [List.cons_append, tidyLines, tidyLines]
    split_ifs
    · exact ih
    · rw [ih, List.cons_append]
    · rw [ih, List.cons_append]

/-! ### Texts that go on from a line -/

/-- The rest of a text, tidied, if something stands before it on its first line. -/
def tidied (cs : List Char) : List Char :=
  match lines cs with
  | [] => []
  | line :: rest => joinLines (trimEnd line :: tidyLines false rest)

theorem tidied_eq (h : lines cs = line :: rest) :
    tidied cs = joinLines (trimEnd line :: tidyLines false rest) := by
  rw [tidied, h]

/-- What is not blank is kept. -/
theorem tidied_cons (hc : isBlank c = false) (cs : List Char) : tidied (c :: cs) = c :: tidied cs := by
  obtain ⟨line, rest, h⟩ := exists_lines cs
  have hne : c ≠ '\n' := by
    rintro rfl
    cases hc
  rw [tidied_eq (lines_cons hne h), tidied_eq h, trimEnd_cons (by simp [isBlankLine, hc]), joinLines_cons,
    joinLines_cons (trimEnd line)]
  rfl

/-- A blank is dropped or kept. -/
theorem tidied_cons_blank (hc : isBlank c = true) (cs : List Char) :
    tidied (c :: cs) = tidied cs ∨ tidied (c :: cs) = c :: tidied cs := by
  obtain ⟨line, rest, h⟩ := exists_lines cs
  rw [tidied_eq h]
  by_cases hne : c = '\n'
  · subst hne
    rw [tidied_eq (by rw [lines_cons_newline, h])]
    cases hline : isBlankLine line with
    | false =>
      rw [tidyLines_cons hline]
      exact .inr rfl
    | true =>
      rw [tidyLines_blank hline, trimEnd_eq_nil hline]
      rcases tidyLines_false_or rest with hrest | hrest
      · exact .inl (by rw [hrest]; rfl)
      · exact .inr (by rw [hrest]; rfl)
  · rw [tidied_eq (lines_cons hne h)]
    by_cases hline : isBlankLine (c :: line) = true
    · refine .inl ?_
      rw [trimEnd_eq_nil hline, trimEnd_eq_nil]
      rw [isBlankLine, List.all_cons, Bool.and_eq_true] at hline
      exact hline.2
    · refine .inr ?_
      rw [trimEnd_cons (Bool.eq_false_iff.2 hline), joinLines_cons, joinLines_cons (trimEnd line)]
      rfl

/-- The last blank before something else is kept. -/
theorem tidied_cons_cons (hq : isBlank q = false) (c : Char) (cs : List Char) :
    tidied (c :: q :: cs) = c :: q :: tidied cs := by
  rw [← tidied_cons hq cs]
  obtain ⟨line, rest, h⟩ := exists_lines cs
  have hne : q ≠ '\n' := by
    rintro rfl
    cases hq
  have hlines := lines_cons hne h
  have hline : isBlankLine (q :: line) = false := by simp [isBlankLine, hq]
  rw [tidied_eq hlines]
  by_cases hc : c = '\n'
  · subst hc
    rw [tidied_eq (by rw [lines_cons_newline, hlines]), tidyLines_cons hline]
    rfl
  · rw [tidied_eq (lines_cons hc hlines), trimEnd_cons (by simp [isBlankLine, hq]), joinLines_cons,
      joinLines_cons (trimEnd (q :: line))]
    rfl

/-- **The two sides of what is not blank are tidied apart.** -/
theorem tidied_append (hq : isBlank q = false) (x y : List Char) :
    tidied (x ++ q :: y) = tidied (x ++ [q]) ++ tidied y := by
  have hne : q ≠ '\n' := by
    rintro rfl
    cases hq
  obtain ⟨before, w, hx⟩ := List.eq_nil_or_concat (lines x) |>.resolve_left (lines_ne_nil x)
  rw [List.concat_eq_append] at hx
  obtain ⟨line, rest, hy⟩ := exists_lines y
  have hwhole := lines_append hx (lines_cons hne hy)
  have hleft := lines_append hx (lines_cons hne (show lines [] = [[]] from rfl))
  have hblank (v : List Char) : isBlankLine (w ++ q :: v) = false := isBlankLine_append hq w v
  have hend : trimEnd (w ++ q :: line) = (w ++ [q]) ++ trimEnd line := by
    rw [trimEnd_append hq, List.append_assoc]
    rfl
  have hlast : trimEnd (w ++ [q]) = w ++ [q] := trimEnd_append hq w []
  rw [tidied_eq hy]
  cases before with
  | nil =>
    rw [tidied_eq hwhole, tidied_eq hleft, hend, hlast]
    exact joinLines_append [] ..
  | cons first before =>
    rw [List.cons_append] at hwhole hleft
    rw [tidied_eq hwhole, tidied_eq hleft, tidyLines_append (hblank line), tidyLines_append (hblank []), hend,
      hlast]
    exact joinLines_append (trimEnd first :: tidyLines false before) ..

theorem tidied_concat (hq : isBlank q = false) (x : List Char) : ∃ z, tidied (x ++ [q]) = z ++ [q] := by
  induction x with
  | nil => exact ⟨[], tidied_cons hq []⟩
  | cons c x ih =>
    obtain ⟨z, hz⟩ := ih
    cases hc : isBlank c with
    | false => exact ⟨c :: z, by rw [List.cons_append, tidied_cons hc, hz, List.cons_append]⟩
    | true =>
      rcases tidied_cons_blank hc (x ++ [q]) with h | h
      · exact ⟨z, by rw [List.cons_append, h, hz]⟩
      · exact ⟨c :: z, by rw [List.cons_append, h, hz, List.cons_append]⟩

/-- Nothing but blanks is dropped. -/
theorem filter_tidied (cs : List Char) :
    (tidied cs).filter (fun c => !isBlank c) = cs.filter fun c => !isBlank c := by
  induction cs with
  | nil => rfl
  | cons c cs ih =>
    cases hc : isBlank c with
    | false => rw [tidied_cons hc, List.filter_cons, List.filter_cons, ih]
    | true =>
      rcases tidied_cons_blank hc cs with h | h
      · rw [h, ih, List.filter_cons_of_neg (by simp [hc])]
      · rw [h, List.filter_cons_of_neg (by simp [hc]), ih, List.filter_cons_of_neg (by simp [hc])]

/-- What a text does not start with, it does not start with when it is tidied. -/
theorem head?_tidied (hq : isBlank q = false) (h : cs.head? ≠ some q) : (tidied cs).head? ≠ some q := by
  induction cs with
  | nil => exact h
  | cons c cs ih =>
    cases hc : isBlank c with
    | false => rwa [tidied_cons hc]
    | true =>
      have hne : c ≠ q := by
        rintro rfl
        rw [hq] at hc
        cases hc
      rcases tidied_cons_blank hc cs with hdrop | hkeep
      · rw [hdrop]
        refine ih fun hhead => ?_
        -- the blank before it would be kept
        obtain ⟨cs, rfl⟩ := List.head?_eq_some_iff.1 hhead
        rw [tidied_cons_cons hq, tidied_cons hq] at hdrop
        exact hne (List.cons.inj hdrop).1
      · rw [hkeep]
        exact fun hhead => hne (Option.some.inj hhead)

/-- **A tidied query is the text, tidied behind something, without blanks at its ends.** -/
theorem tidyText_eq (cs : List Char) : tidyText cs = trim (tidied cs) := by
  obtain ⟨line, rest, h⟩ := exists_lines cs
  rw [tidyText, h, tidied_eq h]
  cases hline : isBlankLine line with
  | false => rw [tidyLines_cons hline]
  | true =>
    rw [tidyLines_blank hline, trimEnd_eq_nil hline]
    rcases tidyLines_false_or rest with hrest | hrest
    · rw [hrest]
      have htrim := Text.trim_append_blanks (x := joinLines ([] :: tidyLines true rest))
        (by decide : ∀ c ∈ ['\n'], isBlank c = true) (List.forall_mem_nil _)
      rw [List.append_nil] at htrim
      exact htrim.symm
    · rw [hrest]

/-! ### Literals -/

/-- Whether a piece of a text is not a blank outside of the literals. -/
def isVisible : Text.Piece Unit → Bool
  | .plain c => !isBlank c
  | .found _ _ => true

theorem isVisible_found (a : Unit) (taken : List Char) : isVisible (.found a taken) = true := rfl

/-- What can be seen of a text: its literals, and the characters outside of them that are not blank. -/
def visible (cs : List Char) : List (Text.Piece Unit) := (Text.scan literalRule cs).filter isVisible

/-- A text without the blanks outside of its literals. -/
def withoutBlanks (cs : List Char) : List Char := mapOutside (·.filter fun c => !isBlank c) cs

/-- A literal is tidied as if it were a query. -/
def tidyPiece : Text.Piece Unit → Text.Piece Unit
  | .plain c => .plain c
  | .found a taken => .found a (tidyText taken)

theorem withoutBlanks_eq (cs : List Char) : withoutBlanks cs = (visible cs).flatMap Text.Piece.source := by
  have hruns (run : List Char) (pieces : List (Text.Piece Unit)) :
      mapRuns (·.filter fun c => !isBlank c) run pieces =
        run.reverse.filter (fun c => !isBlank c) ++ (pieces.filter isVisible).flatMap Text.Piece.source := by
    induction pieces generalizing run with
    | nil => exact (List.append_nil _).symm
    | cons piece pieces ih =>
      cases piece with
      | plain c =>
        rw [mapRuns, ih, List.reverse_cons, List.filter_append, List.append_assoc]
        cases hc : isBlank c <;> simp [hc, isVisible, Text.Piece.source]
      | found a taken =>
        rw [mapRuns, ih, List.filter_cons_of_pos (isVisible_found a taken), List.flatMap_cons, List.append_assoc]
        rfl
  exact hruns [] _

theorem literals_eq (cs : List Char) : literals cs = (visible cs).filterMap fun
    | .plain _ => none
    | .found _ taken => some taken := by
  unfold literals visible
  generalize Text.scan literalRule cs = pieces
  induction pieces with
  | nil => rfl
  | cons piece pieces ih =>
    cases piece with
    | plain c => cases hc : isBlank c <;> simp [hc, isVisible, ih]
    | found a taken =>
      rw [List.filter_cons_of_pos (isVisible_found a taken), List.filterMap_cons, List.filterMap_cons, ih]

theorem visible_append {s : List Char} (heven : oddQuotes x = false)
    (hlast : x.getLast? ≠ some '\'' ∨ s.head? ≠ some '\'') : visible (x ++ s) = visible x ++ visible s := by
  unfold visible
  rw [scan_append heven hlast, List.filter_append]

theorem visible_of_quoteless (h : '\'' ∉ x) :
    visible x = (x.filter fun c => !isBlank c).map .plain := by
  rw [visible, scan_of_quoteless h, List.filter_map]
  rfl

theorem visible_literal (h : closing? w = some w.length) : visible ('\'' :: w) = [.found () ('\'' :: w)] := by
  rw [visible, scan_literal h]
  rfl

/-- Texts that differ in blanks alone have the same quotes. -/
theorem oddQuotes_congr (h : x.filter (fun c => !isBlank c) = y.filter fun c => !isBlank c) :
    oddQuotes x = oddQuotes y := by
  have hcount := congrArg (List.count '\'') h
  rw [List.count_filter (by decide), List.count_filter (by decide)] at hcount
  rw [oddQuotes, hcount, oddQuotes]

theorem visible_trim (heven : oddQuotes cs = false) : visible (trim cs) = visible cs := by
  obtain ⟨left, right, heq, hleft, hright⟩ := Text.exists_blanks cs
  have hnone {v : List Char} (hv : ∀ c ∈ v, isBlank c = true) : visible v = [] := by
    rw [visible_of_quoteless (quote_notMem_of_isBlank hv), List.filter_eq_nil_iff.2 fun c hc => by simp [hv c hc]]
    rfl
  have hl := quote_notMem_of_isBlank hleft
  have hinner : oddQuotes (left ++ trim cs) = false := by
    rw [heq, oddQuotes_append, oddQuotes_of_quoteless (quote_notMem_of_isBlank hright)] at heven
    simpa using heven
  conv_rhs => rw [heq]
  rw [visible_append hinner (.inr fun h => quote_notMem_of_isBlank hright (List.mem_of_head? h)),
    visible_append (oddQuotes_of_quoteless hl) (.inl fun h => hl (List.mem_of_getLast? h)), hnone hleft,
    hnone hright, List.nil_append, List.append_nil]

/-- A literal stays closed. -/
theorem closing?_tidied (h : closing? w = some w.length) : closing? (tidied w) = some (tidied w).length := by
  have hquote : isBlank '\'' = false := by decide
  fun_induction closing? w with
  | case1 => cases h
  | case2 cs m hm ih =>
    obtain rfl : m = cs.length := by simpa using h
    rw [tidied_cons hquote, tidied_cons hquote, closing?, ih hm]
    rfl
  | case3 cs hm ih => simp at h
  | case4 c cs hc hq =>
    obtain rfl : cs = [] := by simpa using h
    obtain rfl := beq_iff_eq.1 hq
    rfl
  | case5 c cs hc hq ih =>
    obtain ⟨m, hm, hlength⟩ := Option.map_eq_some_iff.1 h
    obtain rfl : m = cs.length := by simpa using hlength
    rw [beq_iff_eq] at hq
    have hlater := ih hm
    cases hblank : isBlank c with
    | false => rw [tidied_cons hblank, closing?_cons hq, hlater]; rfl
    | true =>
      rcases tidied_cons_blank hblank cs with hdrop | hkeep
      · rw [hdrop, hlater]
      · rw [hkeep, closing?_cons hq, hlater]
        rfl

theorem exists_concat_of_closing? (h : closing? w = some w.length) : ∃ inner, w = inner ++ ['\''] := by
  obtain ⟨inner, hinner⟩ := take_closing? h
  rw [List.take_length] at hinner
  exact ⟨inner, hinner⟩

/-- A literal has quotes at its ends, so that nothing of it is trimmed. -/
theorem tidyText_literal (h : closing? w = some w.length) : tidyText ('\'' :: w) = '\'' :: tidied w := by
  have hquote : isBlank '\'' = false := by decide
  obtain ⟨inner, rfl⟩ := exists_concat_of_closing? h
  obtain ⟨z, hz⟩ := tidied_concat hquote inner
  rw [tidyText_eq, tidied_cons hquote, hz]
  refine Text.trim_eq_self (fun c hc => ?_) fun c hc => ?_
  · cases hc
    exact hquote
  · rw [← List.cons_append, List.getLast?_concat] at hc
    cases hc
    exact hquote

/-- **What can be seen of a text stays, its literals being tidied.** -/
theorem visible_tidied (heven : oddQuotes cs = false) : visible (tidied cs) = (visible cs).map tidyPiece := by
  have hquote : isBlank '\'' = false := by decide
  induction hn : cs.length using Nat.strong_induction_on generalizing cs with
  | _ n ih =>
    have hquoteless {x y : List Char} (hx : '\'' ∉ x) (hy : y.filter (fun c => !isBlank c) =
        x.filter fun c => !isBlank c) : visible y = (visible x).map tidyPiece ∧ '\'' ∉ y := by
      have hy' : '\'' ∉ y := fun hmem => hx <| by
        have hmem : '\'' ∈ x.filter fun c => !isBlank c := hy ▸ List.mem_filter.2 ⟨hmem, by decide⟩
        exact (List.mem_filter.1 hmem).1
      refine ⟨?_, hy'⟩
      rw [visible_of_quoteless hx, visible_of_quoteless hy', hy, List.map_map]
      rfl
    by_cases hmem : '\'' ∈ cs
    · obtain ⟨u, w, rest, rfl, hu, hw, hhead, hrest⟩ := exists_literal heven hmem
      obtain ⟨inner, rfl⟩ := exists_concat_of_closing? hw
      obtain ⟨z, hz⟩ := tidied_concat hquote u
      have hfilter := filter_tidied (u ++ ['\''])
      rw [hz, List.filter_append, List.filter_append] at hfilter
      obtain ⟨hvisible, hz'⟩ := hquoteless hu (List.append_cancel_right hfilter)
      have hlater : visible (tidied rest) = (visible rest).map tidyPiece :=
        ih rest.length (by simp at hn; omega) hrest rfl
      have hliteral := closing?_tidied hw
      have hparts : tidied (u ++ '\'' :: (inner ++ ['\''] ++ rest)) =
          z ++ (('\'' :: tidied (inner ++ ['\''])) ++ tidied rest) := by
        rw [tidied_append hquote, hz, List.append_assoc inner, List.singleton_append, tidied_append hquote]
        simp
      rw [hparts, visible_append (oddQuotes_of_quoteless hz') (.inl fun h => hz' (List.mem_of_getLast? h)),
        visible_append (oddQuotes_literal hliteral) (.inr (head?_tidied hquote hhead)), visible_literal hliteral,
        visible_append (oddQuotes_of_quoteless hu) (.inl fun h => hu (List.mem_of_getLast? h)), ← List.cons_append,
        visible_append (oddQuotes_literal hw) (.inr hhead), visible_literal hw, hvisible, hlater,
        ← tidyText_literal hw, List.map_append, List.map_append]
      rfl
    · exact (hquoteless hmem (filter_tidied cs)).1

theorem visible_tidyText (heven : oddQuotes cs = false) :
    visible (tidyText cs) = (visible cs).map tidyPiece := by
  rw [tidyText_eq, visible_trim ((oddQuotes_congr (filter_tidied cs)).trans heven), visible_tidied heven]

theorem literals_tidyText (heven : oddQuotes cs = false) : literals (tidyText cs) = (literals cs).map tidyText := by
  rw [literals_eq, literals_eq, visible_tidyText heven]
  generalize visible cs = pieces
  induction pieces with
  | nil => rfl
  | cons piece pieces ih => cases piece <;> simp [tidyPiece, ih]

/-! ### Settled literals -/

/-- No empty line follows another. -/
def Apart (ls : List (List Char)) : Prop := ls.IsChain fun line next => line ≠ [] ∨ next ≠ []

instance : Decidable (Apart ls) := inferInstanceAs (Decidable (List.IsChain _ ls))

/-- Whether none of the lines of a text ends with a blank, and none that is empty follows another. -/
structure Settled (cs : List Char) : Prop where
  ends : ∀ line ∈ lines cs, ∀ c, line.getLast? = some c → isBlank c = false
  empty : Apart (lines cs)

theorem trimEnd_eq_self_iff : trimEnd line = line ↔ ∀ c, line.getLast? = some c → isBlank c = false := by
  rw [trimEnd, List.reverse_eq_iff, List.dropWhile_eq_self_iff]
  cases hline : line.reverse with
  | nil => simp [List.reverse_eq_nil_iff.1 hline]
  | cons c rest => simp [← List.head?_reverse, hline]

theorem length_tidyLines_le (b : Bool) (ls : List (List Char)) : (tidyLines b ls).length ≤ ls.length := by
  fun_induction tidyLines b ls with
  | case1 => exact Nat.le_refl _
  | case2 line rest _ ih =>
    rw [List.length_cons]
    omega
  | case3 b line rest _ _ ih => exact Nat.succ_le_succ ih
  | case4 b line rest _ ih => exact Nat.succ_le_succ ih

theorem apart_cons : Apart (line :: rest) ↔ (line = [] → rest.head? ≠ some []) ∧ Apart rest := by
  cases rest with
  | nil => simp [Apart]
  | cons next rest =>
    rw [Apart, List.isChain_cons_cons, or_iff_not_imp_left, not_not]
    simp [Apart]

/-- Which lines are left as they are, behind a blank line or not. -/
theorem tidyLines_eq_self_iff : tidyLines b ls = ls ↔
    (∀ line ∈ ls, trimEnd line = line) ∧ (b = true → ls.head? ≠ some []) ∧ Apart ls := by
  induction ls generalizing b with
  | nil => simp [tidyLines, Apart]
  | cons line rest ih =>
    rw [List.forall_mem_cons, apart_cons, List.head?_cons, Ne, Option.some.injEq]
    cases hline : isBlankLine line with
    | false =>
      have hne : line ≠ [] := by
        rintro rfl
        cases hline
      rw [tidyLines_cons hline, List.cons_eq_cons, ih]
      simp [hne, and_assoc]
    | true =>
      have hnil : trimEnd line = line ↔ line = [] := by rw [trimEnd_eq_nil hline, eq_comm]
      rw [hnil]
      cases b with
      | false =>
        rw [tidyLines_blank hline, List.cons_eq_cons, ih, eq_comm]
        constructor
        · rintro ⟨rfl, hends, hhead, hapart⟩
          exact ⟨⟨rfl, hends⟩, nofun, fun _ => hhead rfl, hapart⟩
        · rintro ⟨⟨rfl, hends⟩, -, hhead, hapart⟩
          exact ⟨rfl, hends, fun _ => hhead rfl, hapart⟩
      | true =>
        have hlength := length_tidyLines_le true rest
        rw [tidyLines_afterBlank hline]
        constructor
        · intro h
          rw [h, List.length_cons] at hlength
          omega
        · rintro ⟨⟨rfl, -⟩, hhead, -⟩
          exact absurd rfl (hhead rfl)

theorem newline_notMem_tidyLines (h : ∀ line ∈ ls, '\n' ∉ line) : ∀ line ∈ tidyLines b ls, '\n' ∉ line := by
  induction ls generalizing b with
  | nil => exact List.forall_mem_nil _
  | cons line rest ih =>
    rw [List.forall_mem_cons] at h
    have htrim : '\n' ∉ trimEnd line := fun hmem =>
      h.1 (List.mem_reverse.1 ((List.dropWhile_sublist _).subset (List.mem_reverse.1 hmem)))
    rw [tidyLines]
    split_ifs
    · exact ih h.2
    · exact List.forall_mem_cons.2 ⟨List.not_mem_nil, ih h.2⟩
    · exact List.forall_mem_cons.2 ⟨htrim, ih h.2⟩

/-- **A literal is left as it is just if it is settled.** -/
theorem tidyText_literal_eq_self_iff (h : closing? w = some w.length) :
    tidyText ('\'' :: w) = '\'' :: w ↔ Settled ('\'' :: w) := by
  have hquote : isBlank '\'' = false := by decide
  obtain ⟨line, rest, hw⟩ := exists_lines w
  have hlines := lines_cons (by decide : '\'' ≠ '\n') hw
  have hline : isBlankLine ('\'' :: line) = false := by simp [isBlankLine, hquote]
  have htidied : tidyText ('\'' :: w) = joinLines (tidyLines false (lines ('\'' :: w))) := by
    rw [tidyText_literal h, ← tidied_cons hquote, tidied_eq hlines, hlines, tidyLines_cons hline]
  have hmem : ∀ line ∈ lines ('\'' :: w), '\n' ∉ line := fun _ => newline_notMem_of_mem_lines
  have hfound : lines (tidyText ('\'' :: w)) = tidyLines false (lines ('\'' :: w)) := by
    rw [htidied]
    refine lines_joinLines ?_ (newline_notMem_tidyLines hmem)
    rw [hlines, tidyLines_cons hline]
    exact List.cons_ne_nil _ _
  have hsame : tidyText ('\'' :: w) = '\'' :: w ↔
      tidyLines false (lines ('\'' :: w)) = lines ('\'' :: w) := by
    rw [← hfound]
    refine ⟨fun heq => by rw [heq], fun heq => ?_⟩
    rw [← joinLines_lines (tidyText _), heq, joinLines_lines]
  rw [hsame, tidyLines_eq_self_iff]
  simp only [trimEnd_eq_self_iff]
  exact ⟨fun ⟨hends, _, hapart⟩ => ⟨hends, hapart⟩, fun hsettled => ⟨hsettled.ends, nofun, hsettled.empty⟩⟩

/-- A literal starts with a quote that the rest of it closes. -/
theorem closing?_of_mem_literals (heven : oddQuotes cs = false) {l : List Char} (hl : l ∈ literals cs) :
    ∃ w, l = '\'' :: w ∧ closing? w = some w.length := by
  induction hn : cs.length using Nat.strong_induction_on generalizing cs with
  | _ n ih =>
    by_cases hmem : '\'' ∈ cs
    · obtain ⟨u, w, rest, rfl, hu, hw, hhead, hrest⟩ := exists_literal heven hmem
      rw [literals_append (oddQuotes_of_quoteless hu) (.inl fun h => hu (List.mem_of_getLast? h)),
        ← List.cons_append, literals_append (oddQuotes_literal hw) (.inr hhead), List.mem_append,
        List.mem_append] at hl
      rcases hl with hl | hl | hl
      · simp [literals, scan_of_quoteless hu] at hl
      · rw [literals, scan_literal hw] at hl
        exact ⟨w, List.mem_singleton.1 hl, hw⟩
      · exact ih rest.length (by simp at hn; omega) hrest hl rfl
    · simp [literals, scan_of_quoteless hmem] at hl

/-! ### Queries -/

/-- **What tidying does to literals.** What can be seen of a query stays in its order, each literal being tidied
like a query. So the literals, and the rest but for blanks, are the same just if every literal is settled. -/
theorem tidy_keeps_literals_iff (sql : String) (heven : oddQuotes sql.toList = false) :
    visible (tidy sql).toList = (visible sql.toList).map tidyPiece ∧
      literals (tidy sql).toList = (literals sql.toList).map tidyText ∧
      ((literals (tidy sql).toList = literals sql.toList ∧
          withoutBlanks (tidy sql).toList = withoutBlanks sql.toList) ↔
        ∀ l ∈ literals sql.toList, Settled l) := by
  have htidy : (tidy sql).toList = tidyText sql.toList := String.toList_ofList
  rw [htidy]
  refine ⟨visible_tidyText heven, literals_tidyText heven, ?_⟩
  have hsame {α : Type} {f : α → α} {l : List α} : l.map f = l ↔ ∀ a ∈ l, f a = a := by
    simpa using List.map_inj_left (f := f) (g := id) (l := l)
  have hsettled : ∀ l ∈ literals sql.toList, tidyText l = l ↔ Settled l := fun l hl => by
    obtain ⟨w, rfl, hw⟩ := closing?_of_mem_literals heven hl
    exact tidyText_literal_eq_self_iff hw
  rw [literals_tidyText heven]
  constructor
  · rintro ⟨hkept, -⟩ l hl
    exact (hsettled l hl).1 (hsame.1 hkept l hl)
  · intro h
    have hkept : ∀ l ∈ literals sql.toList, tidyText l = l := fun l hl => (hsettled l hl).2 (h l hl)
    refine ⟨hsame.2 hkept, ?_⟩
    rw [withoutBlanks_eq, withoutBlanks_eq, visible_tidyText heven]
    refine congrArg (List.flatMap Text.Piece.source) (hsame.2 fun piece hpiece => ?_)
    cases piece with
    | plain c => rfl
    | found a taken =>
      have hmem : taken ∈ literals sql.toList := by
        rw [literals_eq]
        exact List.mem_filterMap.2 ⟨_, hpiece, rfl⟩
      rw [tidyPiece, hkept taken hmem]

/-- A query with a literal over two lines that is settled, a doubled quote, and blanks around it. -/
theorem tidy_keeps_literals_iff_twoLines :
    let sql := "select  'it''s\n\n two' ,  x \n \n\nfrom t  \n"
    oddQuotes sql.toList = false ∧ (∀ l ∈ literals sql.toList, Settled l) ∧
      tidy sql = "select  'it''s\n\n two' ,  x\n\nfrom t" ∧
      literals (tidy sql).toList = literals sql.toList ∧
      withoutBlanks (tidy sql).toList = withoutBlanks sql.toList := by
  intro sql
  have heven : oddQuotes sql.toList = false := by decide
  have htidy : tidy sql = "select  'it''s\n\n two' ,  x\n\nfrom t" := by decide +kernel
  have hsettled : ∀ l ∈ literals sql.toList, Settled l := by
    have hliterals : literals sql.toList = ["'it''s\n\n two'".toList] := by decide +kernel
    have hends : ∀ line ∈ lines "'it''s\n\n two'".toList, line.getLast?.any isBlank = false := by decide +kernel
    rw [hliterals, List.forall_mem_singleton]
    refine ⟨fun line hline c hc => ?_, by decide +kernel⟩
    rw [← hends line hline, hc, Option.any_some]
  obtain ⟨-, -, hkept⟩ := tidy_keeps_literals_iff sql heven
  exact ⟨heven, hsettled, htidy, hkept.2 hsettled⟩

/-- **A literal loses what it has at the end of a line,** and a query with it is another query. -/
theorem literal_loses_blank : ¬∀ sql : String, oddQuotes sql.toList = false →
    literals (tidy sql).toList = literals sql.toList ∧
      withoutBlanks (tidy sql).toList = withoutBlanks sql.toList := by
  intro h
  have hkept := (h "select 'a  \nb'" (by decide)).1
  have hlost : literals (tidy "select 'a  \nb'").toList = ["'a\nb'".toList] ∧
      literals "select 'a  \nb'".toList = ["'a  \nb'".toList] := by
    decide +kernel
  rw [hlost.1, hlost.2] at hkept
  revert hkept
  decide

end Sql
end CardTransfer
