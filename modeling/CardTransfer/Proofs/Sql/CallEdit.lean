import CardTransfer.Proofs.Sql.Edit

/-!
# The replacement of calls as edits

A handler writes a call of one of the arguments, and drops what stands besides it (`Rewrites`); so the replacement
of the calls of a function is a series of edits (`edits_replaceCallsFrom`). No edit makes the head of a call of
what was none before it, so that the handler takes none of the argument lists of the text that results
(`exhausted_replaceCalls`).
-/

namespace CardTransfer
namespace Sql

open Text (breaksBefore Clear isMatch lastOr isBlank isWord)

variable {cs x y z inner text left operand right part : List Char} {before after : Option Char} {quoted : Bool}
  {function : String} {handler : List Char → Option (List Char)}

/-! ### Edits in a text -/

theorem Edit.oddQuotes_eq (h : Edit before quoted x y) : oddQuotes y = oddQuotes x := by
  obtain ⟨hwritten, -, -⟩ := h
  obtain ⟨k, ha, hb⟩ := hwritten.nesting
  have hodd := (quoted_of_nesting ha).symm.trans (quoted_of_nesting hb)
  rw [Bool.false_xor, Bool.false_xor] at hodd
  rw [oddQuotes_append, oddQuotes_append, oddQuotes_append, oddQuotes_append, hodd]

theorem Edit.of_breaks (h : Edit before quoted x y) (hbefore : breaksBefore before = true → breaksBefore after = true) :
    Edit after quoted x y := by
  obtain ⟨hwritten, hbreaks, hquotes⟩ := h
  rename_i u a b v
  refine .place hwritten ?_ hquotes
  cases u with
  | nil => exact hbefore hbreaks
  | cons => exact hbreaks

theorem Edit.append_left (h : Edit (lastOr before z) (quoted ^^ oddQuotes z) x y) :
    Edit before quoted (z ++ x) (z ++ y) := by
  obtain ⟨hwritten, hbreaks, hquotes⟩ := h
  rename_i u a b v
  rw [← List.append_assoc z u (a ++ v), ← List.append_assoc z u (b ++ v)]
  refine .place hwritten ?_ (hquotes.imp_left fun hodd => ?_)
  · rw [Text.lastOr_append]
    exact hbreaks
  · rw [oddQuotes_append, hodd]
    cases quoted <;> cases oddQuotes z <;> rfl

theorem Edit.append_right (h : Edit before quoted x y) (hz : EndsHead z) (heven : oddQuotes x = quoted) :
    Edit before quoted (x ++ z) (y ++ z) := by
  obtain ⟨hwritten, hbreaks, hquotes⟩ := h
  rename_i u a b v
  have hwritten' : Written (v ++ z) a b := hwritten.congr (endsHead_append hz).2
  simp only [List.append_assoc]
  refine .place hwritten' hbreaks (.inl ?_)
  rcases hquotes with hodd | hquote
  · exact hodd
  · rw [oddQuotes_append, oddQuotes_of_quoteless hquote, Bool.xor_false] at heven
    exact heven

/-- A series of edits. -/
abbrev Edits (before : Option Char) (quoted : Bool) : List Char → List Char → Prop :=
  Relation.ReflTransGen (Edit before quoted)

theorem Edits.of_breaks (h : Edits before quoted x y)
    (hbefore : breaksBefore before = true → breaksBefore after = true) : Edits after quoted x y :=
  h.lift id fun _ _ hstep => hstep.of_breaks hbefore

theorem Edits.append_left (h : Edits (lastOr before z) (quoted ^^ oddQuotes z) x y) :
    Edits before quoted (z ++ x) (z ++ y) :=
  h.lift (z ++ ·) fun _ _ hstep => hstep.append_left

theorem Edits.append_right (h : Edits before quoted x y) (hz : EndsHead z) (heven : oddQuotes x = quoted) :
    Edits before quoted (x ++ z) (y ++ z) := by
  have hall : Edits before quoted (x ++ z) (y ++ z) ∧ oddQuotes y = quoted := by
    induction h with
    | refl => exact ⟨.refl, heven⟩
    | tail _ hstep ih => exact ⟨ih.1.tail (hstep.append_right hz ih.2), hstep.oddQuotes_eq.trans ih.2⟩
  exact hall.1

/-- An edit behind a place makes no call start there. -/
theorem Edit.callHead?_eq {c : Char} (h : Edit (some c) quoted x y) (hf : function ∈ dateCalls) :
    callHead? function.toList before (c :: y) = callHead? function.toList before (c :: x) := by
  obtain ⟨hwritten, hbreaks, -⟩ := h
  rename_i u a b v
  have hbreaks' : breaksBefore (lastOr before (c :: u)) = true := hbreaks
  obtain ⟨⟨d, a, rfl, hd⟩, e, b, rfl, he⟩ := hwritten.starts
  exact callHead?_blind (isWord_dateCalls hf) (ne_nil_of_mem_dateCalls hf) (List.cons_ne_nil _ _) hbreaks' he hd

theorem Edits.callHead?_eq {c : Char} (h : Edits (some c) quoted x y) (hf : function ∈ dateCalls) :
    callHead? function.toList before (c :: y) = callHead? function.toList before (c :: x) := by
  induction h with
  | refl => rfl
  | tail _ hstep ih => rw [hstep.callHead?_eq hf, ih]

/-! ### Handlers -/

/-- A handler writes a call of one argument. -/
def Rewrites (handler : List Char → Option (List Char)) : Prop :=
  ∀ inner text, handler inner = some text → Closed nothing inner → Rewritten inner text

theorem Rewrites.closed (h : Rewrites handler) :
    ∀ inner text, handler inner = some text → Closed nothing inner → Closed nothing text :=
  fun inner text htext hinner => (h inner text htext hinner).closed.2

/-- What is written ends with a parenthesis. -/
theorem Rewritten.lastOr_eq (h : Rewritten inner text) : lastOr before text = some ')' := by
  obtain ⟨-, -, -, -⟩ := h
  simp only [Text.lastOr_append]
  rfl

/-- **The replacement of calls is a series of edits.** -/
theorem edits_replaceCallsFrom (hf : function ∈ dateCalls) (h : Rewrites handler) :
    Edits before quoted x (replaceCallsFrom function.toList handler before quoted x) := by
  have hword := isWord_dateCalls hf
  have hne := ne_nil_of_mem_dateCalls hf
  fun_induction replaceCallsFrom function.toList handler before quoted x with
  | case1 => exact .refl
  | case2 before quoted c rest hn ih =>
    simp only [dite_eq_ite] at ih
    refine Edits.append_left (z := [c]) ?_
    have hquoted : (quoted ^^ oddQuotes [c]) = if c == '\'' then !quoted else quoted := by
      rw [oddQuotes_cons]
      cases c == '\'' <;> cases quoted <;> rfl
    rw [hquoted]
    exact ih
  | case3 before c rest n hn head ih =>
    obtain ⟨head', tail, hcs, rfl, hhead, -⟩ := exists_isHead hword hne hn
    obtain ⟨start, hstart, -⟩ := hhead.eq_concat
    have hquote := quoted_of_nesting hhead.nesting
    rw [Bool.false_xor] at hquote
    simp only [head]
    rw [hcs] at ih ⊢
    rw [List.take_left, List.drop_left] at *
    refine Edits.append_left ?_
    rw [← hquote, Bool.xor_false, hstart, Text.lastOr_append]
    exact ih
  | case4 => exact .refl
  | case5 before quoted c rest n hn head hquoted inner after hsplit arguments ih₁ ih₂ =>
    obtain rfl : quoted = false := Bool.eq_false_iff.2 hquoted
    have hinner : Closed nothing inner := closed_of_splitClosing hsplit
    have harguments : Closed nothing arguments := nesting_replaceCallsFrom hword h.closed hinner
    obtain ⟨head', tail, hcs, rfl, hhead, -⟩ := exists_isHead hword hne hn
    obtain ⟨start, hstart, -⟩ := hhead.eq_concat
    have hquote := quoted_of_nesting hhead.nesting
    rw [Bool.false_xor] at hquote
    simp only [head]
    rw [hcs, List.drop_left] at hsplit
    rw [hcs, List.take_left, splitPartner_eq hsplit]
    -- the argument list, then the call, then what follows it
    have hlist : Edits before false (head' ++ (inner ++ ')' :: after)) (head' ++ (arguments ++ ')' :: after)) := by
      refine Edits.append_left ?_
      rw [← hquote, Bool.xor_false, hstart, Text.lastOr_append]
      exact Edits.of_breaks (ih₁.append_right (endsHead_close after) hinner.even) fun _ => rfl
    refine hlist.trans ?_
    cases hr : handler arguments with
    | some text =>
      have htext := h _ _ hr harguments
      have hcall : Edit before false ([] ++ (head' ++ (arguments ++ [')']) ++ after)) ([] ++ (text ++ after)) :=
        .place (.call hhead htext) (callHead?_eq_some_iff.1 hn).1 (.inl rfl)
      have hlater : Edits before false (text ++ after)
          (text ++ replaceCallsFrom function.toList handler (some ')') false after) := by
        refine Edits.append_left ?_
        rw [htext.closed.2.even, Bool.xor_false, htext.lastOr_eq]
        exact ih₂
      refine .head ?_ hlater
      simpa using hcall
    | none =>
      have hlater : Edits before false (head' ++ arguments ++ [')'] ++ after)
          (head' ++ arguments ++ [')'] ++ replaceCallsFrom function.toList handler (some ')') false after) := by
        refine Edits.append_left ?_
        rw [oddQuotes_append, oddQuotes_append, ← hquote, harguments.even, Text.lastOr_append]
        exact ih₂
      simpa using hlater

/-- **The handler takes no argument list of the text that results.** -/
theorem exhausted_replaceCallsFrom (hf : function ∈ dateCalls) (h : Rewrites handler) :
    ∀ l ∈ argumentListsFrom function.toList before quoted (replaceCallsFrom function.toList handler before quoted x),
      handler l = none := by
  have hword := isWord_dateCalls hf
  have hne := ne_nil_of_mem_dateCalls hf
  fun_induction replaceCallsFrom function.toList handler before quoted x with
  | case1 => simp [argumentListsFrom_nil]
  | case2 before quoted c rest hn ih =>
    simp only [dite_eq_ite] at ih ⊢
    have hedits : Edits (some c) (if c == '\'' then !quoted else quoted) rest _ := edits_replaceCallsFrom hf h
    rw [argumentListsFrom_cons_none ((hedits.callHead?_eq hf).trans hn)]
    exact ih
  | case3 before c rest n hn head ih =>
    obtain ⟨head', tail, hcs, rfl, -, hany⟩ := exists_isHead hword hne hn
    simp only [head]
    rw [hcs] at ih ⊢
    rw [List.take_left, List.drop_left] at *
    rw [argumentListsFrom_quoted (hany _), List.drop_left]
    exact ih
  | case4 before quoted c rest n hn hquoted hsplit =>
    obtain rfl : quoted = false := Bool.eq_false_iff.2 hquoted
    rw [argumentListsFrom_unquoted hn, hsplit]
    exact List.forall_mem_nil _
  | case5 before quoted c rest n hn head hquoted inner after hsplit arguments ih₁ ih₂ =>
    obtain rfl : quoted = false := Bool.eq_false_iff.2 hquoted
    have harguments : Closed nothing arguments :=
      nesting_replaceCallsFrom hword h.closed (closed_of_splitClosing hsplit)
    obtain ⟨head', tail, hcs, rfl, -, hany⟩ := exists_isHead hword hne hn
    simp only [head]
    rw [hcs, List.take_left]
    intro l hl
    cases hr : handler arguments with
    | some text =>
      rw [hr, Option.getD_some] at hl
      rcases (h _ _ hr harguments).mem_argumentLists hf (callHead?_eq_some_iff.1 hn).1 hl with hl | hl
      · exact ih₁ l hl
      · exact ih₂ l hl
    | none =>
      rw [hr, Option.getD_none, List.append_assoc, List.append_assoc] at hl
      rw [argumentListsFrom_unquoted (hany _), List.drop_left, List.singleton_append, splitClosing,
        splitPartner_closed harguments] at hl
      dsimp only at hl
      rw [List.cons_append, List.mem_cons, List.mem_append] at hl
      rcases hl with rfl | hl | hl
      · exact hr
      · exact ih₁ l hl
      · exact ih₂ l hl

theorem exhausted_replaceCalls (hf : function ∈ dateCalls) (h : Rewrites handler) (x : List Char) :
    Exhausted function handler (replaceCalls function handler x) :=
  exhausted_replaceCallsFrom hf h

/-! ### The handlers of the date rules and of `btrim` -/

theorem openings_facts : (∀ p ∈ unitStarts, p.2.1.toList ∈ openings ∧
      ∃ extra ∈ extras, p.2.2.toList = extra ++ [')']) ∧
    (∀ p ∈ partFunctions, p.2.toList ++ ['('] ∈ openings) ∧ "trimBoth".toList ++ ['('] ∈ openings := by
  decide

theorem nil_mem_extras : [] ∈ extras := List.mem_cons_self ..

theorem notMem_of_isBlank (h : ∀ c ∈ x, isBlank c = true) : ∀ c ∈ x, c ∉ ['"', '(', ')'] := by
  intro c hc hmem
  have hblank := h c hc
  revert hblank
  simp only [List.mem_cons, List.not_mem_nil, or_false] at hmem
  rcases hmem with rfl | rfl | rfl <;> decide

theorem breaksBefore_of_signs (h : ∀ c ∈ x, isWord c = false) : breaksBefore (lastOr none x) = true := by
  rcases List.eq_nil_or_concat' x with rfl | ⟨init, c, rfl⟩
  · rfl
  · rw [Text.lastOr_append]
    exact congrArg not (h c (by simp))

/-- Blanks stand aside, also behind a comma. -/
theorem aside_of_blanks {blanks : List Char} (hblanks : ∀ c ∈ blanks, isBlank c = true)
    (hright : ∀ c ∈ right, isBlank c = true ∨ c = ',') : Aside blanks right where
  clear f hf _ := (separated_dateCalls f hf).clear_signs fun c hc => isWord_of_isBlank (hblanks c hc)
  breaks := breaksBefore_of_signs fun c hc => isWord_of_isBlank (hblanks c hc)
  even := oddQuotes_of_quoteless (quote_notMem_of_isBlank hblanks)
  plain := notMem_of_isBlank hblanks
  right := hright

theorem aside_of_comma {blanks : List Char} (hleft : ∀ c ∈ left, c ∉ ['"', '(', ')']) (heven : oddQuotes left = false)
    (hblanks : ∀ c ∈ blanks, isBlank c = true) (hright : ∀ c ∈ right, isBlank c = true ∨ c = ',') :
    Aside (left ++ (',' :: blanks)) right := by
  have hsigns : ∀ c ∈ ',' :: blanks, isWord c = false := by
    rw [List.forall_mem_cons]
    exact ⟨by decide, fun c hc => isWord_of_isBlank (hblanks c hc)⟩
  refine ⟨fun f hf z => ?_, ?_, ?_, ?_, hright⟩
  · rw [Text.clear_append]
    refine ⟨clear_of_parenless (isWord_dateCalls hf) (fun hmem => hleft _ hmem (by simp)) ?_,
      (separated_dateCalls f hf).clear_signs hsigns⟩
    exact .cons (by decide) (by decide) (by decide) _
  · rw [Text.lastOr_append]
    exact breaksBefore_of_signs hsigns
  · rw [oddQuotes_append, heven, oddQuotes_cons, oddQuotes_of_quoteless (quote_notMem_of_isBlank hblanks)]
    rfl
  · rw [List.forall_mem_append, List.forall_mem_cons]
    exact ⟨hleft, by decide, notMem_of_isBlank hblanks⟩

/-- **What stands around the last argument of a list** stands aside if the others hold no marks but quotes. -/
theorem exists_aside (l₁ : List (List Char)) (harguments : arguments cs = l₁ ++ [operand])
    (hothers : ∀ a ∈ l₁, (∀ c ∈ a, c ∉ ['"', '(', ')']) ∧ oddQuotes a = false) :
    ∃ left right, cs = left ++ (operand ++ right) ∧ Aside left right := by
  obtain ⟨pieces, piece, later, heq, rfl, hpieces, hlater⟩ := exists_pieces_around l₁ [] harguments
  obtain ⟨blanks, blanks', hpiece, hblanks, hblanks'⟩ := Text.exists_blanks piece
  -- behind the argument there are blanks and commas, a comma last
  obtain ⟨right, hend, hright⟩ : ∃ right, blanks' ++ ([','] ++ later.flatMap (· ++ [','])) = right ++ [','] ∧
      ∀ c ∈ right, isBlank c = true ∨ c = ',' := by
    have hall : ∀ c ∈ blanks' ++ ([','] ++ later.flatMap (· ++ [','])), isBlank c = true ∨ c = ',' := by
      simp only [List.forall_mem_append, List.mem_singleton, forall_eq, List.mem_flatMap]
      refine ⟨fun c hc => .inl (hblanks' c hc), .inr trivial, ?_⟩
      rintro c ⟨q, hq, hc⟩
      rcases List.mem_append.1 hc with hc | hc
      · have hblank := (hlater q hq).resolve_right (fun h => nomatch h)
        obtain ⟨l, r, hq', hl, hr⟩ := Text.exists_blanks q
        rw [hblank, List.append_nil] at hq'
        rw [hq', List.mem_append] at hc
        exact .inl (hc.elim (hl c) (hr c))
      · exact .inr (List.mem_singleton.1 hc)
    rcases List.eq_nil_or_concat' later with rfl | ⟨init, q, rfl⟩
    · exact ⟨blanks', by simp, fun c hc => .inl (hblanks' c hc)⟩
    · refine ⟨blanks' ++ ([','] ++ (init.flatMap (· ++ [',']) ++ q)), by simp, fun c hc => hall c ?_⟩
      simp only [List.mem_append, List.flatMap_append, List.flatMap_singleton] at hc ⊢
      rcases hc with hc | hc | hc | hc <;> simp [hc]
  have hcs : cs = pieces.flatMap (· ++ [',']) ++ blanks ++ (Text.trim piece ++ right) := by
    have hsplit : cs ++ [','] = pieces.flatMap (· ++ [',']) ++ blanks ++ (Text.trim piece ++ right) ++ [','] := by
      rw [List.append_assoc _ _ [','], List.append_assoc (Text.trim piece), ← hend, heq]
      conv_lhs => rw [hpiece]
      simp only [List.append_assoc]
    exact List.append_cancel_right hsplit
  refine ⟨_, right, hcs, ?_⟩
  -- in front of it there are the other arguments, with a comma behind each
  rcases List.eq_nil_or_concat' pieces with rfl | ⟨init, q, rfl⟩
  · exact aside_of_blanks hblanks hright
  have hfront : ∀ p ∈ init ++ [q], (∀ c ∈ p, c ∉ ['"', '(', ')']) ∧ oddQuotes p = false := by
    intro p hp
    obtain ⟨l, r, hp', hl, hr⟩ := Text.exists_blanks p
    have htrim : (∀ c ∈ Text.trim p, c ∉ ['"', '(', ')']) ∧ oddQuotes (Text.trim p) = false := by
      rcases hpieces p hp with hblank | hmem
      · rw [hblank]
        exact ⟨List.forall_mem_nil _, rfl⟩
      · exact hothers _ hmem
    refine ⟨?_, (oddQuotes_trim p).symm.trans htrim.2⟩
    rw [hp']
    simp only [List.forall_mem_append]
    exact ⟨⟨notMem_of_isBlank hl, htrim.1⟩, notMem_of_isBlank hr⟩
  have hlist : (∀ c ∈ init.flatMap (· ++ [',']) ++ q, c ∉ ['"', '(', ')']) ∧
      oddQuotes (init.flatMap (· ++ [',']) ++ q) = false := by
    rw [List.forall_mem_append, List.forall_mem_singleton] at hfront
    obtain ⟨hinit, hq, hq'⟩ := hfront
    clear hpieces heq hcs
    induction init with
    | nil => exact ⟨hq, hq'⟩
    | cons p init ih =>
      rw [List.forall_mem_cons] at hinit
      obtain ⟨hlater, heven⟩ := ih hinit.2
      rw [List.flatMap_cons, List.append_assoc, List.append_assoc, List.forall_mem_append, List.forall_mem_append,
        oddQuotes_append, oddQuotes_append, hinit.1.2, heven]
      exact ⟨⟨hinit.1.1, by decide, hlater⟩, by decide⟩
  have hcomma := aside_of_comma hlist.1 hlist.2 hblanks hright
  simpa using hcomma

theorem rewrites_trimCall? : Rewrites trimCall? := by
  intro inner text h hinner
  unfold trimCall? at h
  split at h
  case h_2 => cases h
  rename_i operand harguments
  cases h
  have hoperand := closed_argument [] [] harguments (fun _ h => nomatch h) hinner
  obtain ⟨left, right, rfl, haside⟩ := exists_aside [] harguments (List.forall_mem_nil _)
  have hwritten := Rewritten.keeps haside hoperand openings_facts.2.2 nil_mem_extras
  simpa [callOf] using hwritten

/-- The argument besides a unit of a table is kept. -/
theorem exists_aside_unit {α : Type} {table : List (String × α)} {v : α} {unit : String}
    (htable : ∀ p ∈ table, ∀ c ∈ ['\'', '"', '(', ')'], c ∉ p.1.toList)
    (hoperand : unitAndOperand? inner = some (unit, operand)) (hunit : table.lookup unit = some v)
    (hinner : Closed nothing inner) :
    ∃ left right, inner = left ++ (operand ++ right) ∧ Aside left right ∧ Closed nothing operand := by
  obtain ⟨name, harguments, hname, hclosed⟩ := closed_unitAndOperand? htable hoperand hunit hinner
  have hquoted := (closed_quoted (hname '\'' (by simp))).even
  obtain ⟨left, right, heq, haside⟩ := exists_aside ['\'' :: name ++ ['\'']] harguments (by
    rw [List.forall_mem_singleton]
    refine ⟨fun c hc hmem => ?_, hquoted⟩
    rw [List.cons_append, List.mem_cons, List.mem_append, List.mem_singleton] at hc
    rcases hc with rfl | hc | rfl
    · revert hmem
      decide
    · exact hname c (List.mem_cons_of_mem _ hmem) hc
    · revert hmem
      decide)
  exact ⟨left, right, heq, haside, hclosed⟩

theorem rewrites_truncCall? : Rewrites truncCall? := by
  intro inner text h hinner
  simp only [truncCall?, Option.bind_eq_bind, Option.bind_eq_some_iff] at h
  obtain ⟨⟨unit, operand⟩, hoperand, ⟨opening, closing⟩, hunit, h⟩ := h
  cases h
  obtain ⟨left, right, rfl, haside, hclosed⟩ := exists_aside_unit (by decide) hoperand hunit hinner
  obtain ⟨hopening, extra, hextra, hclosing⟩ := openings_facts.1 _ (mem_of_lookup hunit)
  dsimp only at hclosing
  rw [hclosing, List.append_assoc]
  exact .keeps haside hclosed hopening hextra

theorem rewrites_partCall? : Rewrites partCall? := by
  intro inner text h hinner
  simp only [partCall?, Option.bind_eq_bind, Option.bind_eq_some_iff] at h
  obtain ⟨⟨unit, operand⟩, hoperand, name, hunit, h⟩ := h
  cases h
  obtain ⟨left, right, rfl, haside, hclosed⟩ := exists_aside_unit (by decide) hoperand hunit hinner
  have hwritten := Rewritten.keeps haside hclosed (openings_facts.2.1 _ (mem_of_lookup hunit)) nil_mem_extras
  simpa [callOf] using hwritten

/-- **What stands in front of the operand of `part from x`.** -/
theorem partFrom?_eq_some_iff : partFrom? cs = some (part, x) ↔ ∃ start gap word,
    cs = start ++ (part ++ (gap ++ (word ++ x))) ∧ (∀ c ∈ start, isBlank c = true) ∧
      (part ≠ [] ∧ ∀ c ∈ part, isWord c = true) ∧ (gap ≠ [] ∧ ∀ c ∈ gap, isBlank c = true) ∧
      Folds "from".toList word ∧ ∃ b rest, x = b :: rest ∧ isBlank b = true := by
  have hlength {x : List Char} : Text.blankLength x = 0 ↔ ¬∃ b rest, x = b :: rest ∧ isBlank b = true := by
    cases x with
    | nil => simp [Text.blankLength]
    | cons b rest => cases hb : isBlank b <;> simp [Text.blankLength, hb]
  unfold partFrom?
  dsimp only
  rw [Text.drop_blankLength, Text.drop_blankLength]
  constructor
  · intro h
    split at h
    case isTrue => cases h
    rename_i hparts
    simp only [Bool.or_eq_true, Bool.not_eq_true', not_or, Bool.not_eq_false, beq_iff_eq, List.isEmpty_iff] at hparts
    cases h
    obtain ⟨⟨⟨hpart, hgap⟩, hfrom⟩, hrest⟩ := hparts
    refine ⟨cs.takeWhile isBlank, ((cs.dropWhile isBlank).dropWhile isWord).takeWhile isBlank,
      (((cs.dropWhile isBlank).dropWhile isWord).dropWhile isBlank).take 4, ?_, fun c hc => List.mem_takeWhile_imp hc,
      ⟨hpart, fun c hc => List.mem_takeWhile_imp hc⟩, ⟨?_, fun c hc => List.mem_takeWhile_imp hc⟩,
      folds_of_startsWith hfrom, not_not.1 (hlength.not.1 hrest)⟩
    · simp only [List.take_append_drop, List.takeWhile_append_dropWhile]
    · intro hnil
      rw [Text.blankLength, hnil] at hgap
      exact hgap rfl
  · rintro ⟨start, gap, word, rfl, hstart, ⟨hne, hpart⟩, ⟨hgapne, hgap⟩, hword, hx⟩
    have hletters : ∀ c ∈ word, isWord c = true := hword.isWord (by decide)
    obtain ⟨p, part, rfl⟩ := List.exists_cons_of_ne_nil hne
    obtain ⟨g, gap, rfl⟩ := List.exists_cons_of_ne_nil hgapne
    obtain ⟨w, word, rfl⟩ := List.exists_cons_of_ne_nil (hword.ne_nil (by decide))
    have hp := isBlank_of_isWord (hpart p (List.mem_cons_self ..))
    have hg := isWord_of_isBlank (hgap g (List.mem_cons_self ..))
    have hw := isBlank_of_isWord (hletters w (List.mem_cons_self ..))
    have hstart' : (start ++ (p :: part ++ (g :: gap ++ (w :: word ++ x)))).dropWhile isBlank =
        p :: part ++ (g :: gap ++ (w :: word ++ x)) := by
      rw [List.dropWhile_append_of_pos hstart, List.cons_append, List.dropWhile_cons_of_neg (by simp [hp])]
    have hpart' : (p :: part ++ (g :: gap ++ (w :: word ++ x))).takeWhile isWord = p :: part := by
      have hnone : (g :: gap ++ (w :: word ++ x)).takeWhile isWord = [] :=
        List.takeWhile_cons_of_neg (by simp [hg])
      rw [List.takeWhile_append_of_pos hpart, hnone, List.append_nil]
    have hafter : (p :: part ++ (g :: gap ++ (w :: word ++ x))).dropWhile isWord = g :: gap ++ (w :: word ++ x) := by
      rw [List.dropWhile_append_of_pos hpart, List.cons_append, List.dropWhile_cons_of_neg (by simp [hg])]
    have hgap' : (g :: gap ++ (w :: word ++ x)).dropWhile isBlank = w :: word ++ x := by
      rw [List.dropWhile_append_of_pos hgap, List.cons_append, List.dropWhile_cons_of_neg (by simp [hw])]
    have hgaplength : ¬Text.blankLength (g :: gap ++ (w :: word ++ x)) = 0 := by
      rw [hlength, not_not]
      exact ⟨g, _, rfl, hgap g (List.mem_cons_self ..)⟩
    have hfour : (w :: word ++ x).drop 4 = x := List.drop_left' hword.length_eq.symm
    rw [hstart', hpart', hafter, hgap', hfour, if_neg]
    simp only [startsWith_of_folds hword x, hgaplength, hlength.not.2 (not_not.2 hx), beq_iff_eq, List.isEmpty_cons,
      Bool.or_eq_true, Bool.not_eq_true', or_false, Bool.false_eq_true, reduceCtorEq, not_false_eq_true]

/-- In a text without parentheses that leads to a word no call starts. -/
theorem clear_before_word {d : Char} (hf : function ∈ dateCalls) (hx : '(' ∉ x)
    (hbreaks : breaksBefore (lastOr before x) = true) (hd : isWord d = true) :
    Clear (isMatch (callRule function.toList)) before x (d :: z) := by
  induction x generalizing before with
  | nil => trivial
  | cons c x ih =>
    refine ⟨Text.isMatch_eq_false.2 (callRule_eq_none.2 ?_), ih (fun hmem => hx (List.mem_cons_of_mem _ hmem)) hbreaks⟩
    rw [Option.eq_none_iff_forall_ne_some]
    intro n hn
    obtain ⟨head, rest, heq, -, hhead, -⟩ := exists_head_before (isWord_dateCalls hf) (ne_nil_of_mem_dateCalls hf)
      (List.cons_ne_nil _ _) hbreaks hd hn
    obtain ⟨start, rfl, -⟩ := hhead.eq_concat
    exact hx (by rw [heq]; simp)

/-- A word of four letters is no head of a call. -/
theorem callHead?_short {blanks : List Char} (hf : function ∈ dateCalls) (hlength : x.length = 4) (hne : blanks ≠ [])
    (hblanks : ∀ c ∈ blanks, isBlank c = true) (z : List Char) :
    callHead? function.toList before (x ++ (blanks ++ z)) = none := by
  have hall : ∀ f ∈ dateCalls, 4 < f.toList.length := by decide
  have hlong := hall function hf
  obtain ⟨b, blanks, rfl⟩ := List.exists_cons_of_ne_nil hne
  rw [Option.eq_none_iff_forall_ne_some]
  intro n hn
  obtain ⟨-, name, gap, rest, heq, -, hname, -⟩ := callHead?_eq_some_iff.1 hn
  have hnamelength := hname.length_eq
  rcases List.append_eq_append_iff.1 heq with ⟨s, rfl, hs⟩ | ⟨s, rfl, -⟩
  · cases s with
    | nil =>
      rw [List.append_nil] at hnamelength
      omega
    | cons c s =>
      -- the name would hold the blank
      obtain ⟨rfl, -⟩ := List.cons.inj hs
      have hword := hname.isWord (isWord_dateCalls hf) b (by simp)
      rw [isWord_of_isBlank (hblanks b (List.mem_cons_self ..))] at hword
      cases hword
  · rw [List.length_append] at hlength
    omega

/-- What stands in front of the operand of `part from x` stands aside, with the blanks behind it. -/
theorem aside_of_from {start gap word blanks : List Char} (hstart : ∀ c ∈ start, isBlank c = true)
    (hpart : ∀ c ∈ part, isWord c = true) (hgap : gap ≠ [] ∧ ∀ c ∈ gap, isBlank c = true)
    (hword : Folds "from".toList word) (hne : blanks ≠ []) (hblanks : ∀ c ∈ blanks, isBlank c = true)
    (hright : ∀ c ∈ right, isBlank c = true) : Aside (start ++ (part ++ gap) ++ (word ++ blanks)) right := by
  have hletters : ∀ c ∈ word, isWord c = true := hword.isWord (by decide)
  have hlength : word.length = 4 := hword.length_eq.symm
  obtain ⟨w, word, rfl⟩ := List.exists_cons_of_ne_nil (hword.ne_nil (by decide))
  have hplain : ∀ c ∈ start ++ (part ++ gap) ++ (w :: word ++ blanks), c ∉ ['"', '(', ')'] ∧ c ≠ '\'' := by
    have hwordy {x : List Char} (hx : ∀ c ∈ x, isWord c = true) : ∀ c ∈ x, c ∉ ['"', '(', ')'] ∧ c ≠ '\'' := by
      intro c hc
      have hmarks : ∀ c ∈ ['"', '(', ')', '\''], isWord c = false := by decide
      have hmem : c ∉ ['"', '(', ')', '\''] := fun hmem => by
        have hword := hx c hc
        rw [hmarks c hmem] at hword
        cases hword
      simpa [and_assoc] using hmem
    have hblank {x : List Char} (hx : ∀ c ∈ x, isBlank c = true) : ∀ c ∈ x, c ∉ ['"', '(', ')'] ∧ c ≠ '\'' :=
      fun c hc => ⟨notMem_of_isBlank hx c hc, fun hquote => quote_notMem_of_isBlank hx (hquote ▸ hc)⟩
    simp only [List.forall_mem_append]
    exact ⟨⟨hblank hstart, hwordy hpart, hblank hgap.2⟩, hwordy hletters, hblank hblanks⟩
  have hbreaks : breaksBefore (lastOr none (start ++ (part ++ gap))) = true := by
    obtain ⟨init, c, rfl⟩ := (List.eq_nil_or_concat' gap).resolve_left hgap.1
    rw [Text.lastOr_append, Text.lastOr_append, Text.lastOr_append]
    exact congrArg not (isWord_of_isBlank (hgap.2 c (by simp)))
  refine ⟨fun f hf z => ?_, ?_, ?_, fun c hc => (hplain c hc).1, fun c hc => .inl (hright c hc)⟩
  · rw [Text.clear_append (x := start ++ (part ++ gap)), Text.clear_append (x := w :: word)]
    refine ⟨clear_before_word hf (fun hmem => ?_) hbreaks (hletters w (List.mem_cons_self ..)), ⟨?_, ?_⟩,
      (separated_dateCalls f hf).clear_signs fun c hc => isWord_of_isBlank (hblanks c hc)⟩
    · exact (hplain _ (List.mem_append_left _ hmem)).1 (by simp)
    · exact Text.isMatch_eq_false.2 (callRule_eq_none.2 (callHead?_short hf hlength hne hblanks z))
    · exact clear_of_isWord (hletters w (List.mem_cons_self ..)) fun c hc => hletters c (List.mem_cons_of_mem _ hc)
  · obtain ⟨init, c, rfl⟩ := (List.eq_nil_or_concat' blanks).resolve_left hne
    rw [Text.lastOr_append, Text.lastOr_append, Text.lastOr_append]
    exact congrArg not (isWord_of_isBlank (hblanks c (by simp)))
  · exact oddQuotes_of_quoteless fun hmem => (hplain _ hmem).2 rfl

theorem rewrites_extractCall? : Rewrites extractCall? := by
  intro inner text h hinner
  simp only [extractCall?, Option.bind_eq_bind, Option.bind_eq_some_iff] at h
  obtain ⟨⟨part, operand⟩, hoperand, name, hpart, h⟩ := h
  cases h
  have hclosed := (closed_trim_iff fair_nothing).2 (closed_of_partFrom? hoperand hinner)
  obtain ⟨start, gap, word, rfl, hstart, ⟨-, hletters⟩, hgap, hword, b, rest, rfl, hb⟩ :=
    partFrom?_eq_some_iff.1 hoperand
  obtain ⟨left, right, hrest, hleft, hright⟩ := Text.exists_blanks rest
  have htrim : Text.trim (b :: rest) = Text.trim rest := by
    have hblank : Text.trim ([b] ++ rest ++ []) = Text.trim rest :=
      Text.trim_append_blanks (by simpa using hb) (List.forall_mem_nil _)
    simpa using hblank
  have haside : Aside (start ++ (part ++ gap) ++ (word ++ b :: left)) right :=
    aside_of_from hstart hletters hgap hword (List.cons_ne_nil _ _)
      (List.forall_mem_cons.2 ⟨hb, hleft⟩) hright
  rw [htrim] at hclosed ⊢
  have hwritten := Rewritten.keeps haside hclosed (openings_facts.2.1 _ (mem_of_lookup hpart)) nil_mem_extras
  conv in rest => rw [hrest]
  simpa [callOf] using hwritten

end Sql
end CardTransfer
