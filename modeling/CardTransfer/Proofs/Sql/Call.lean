import CardTransfer.Proofs.Sql.Literal
import CardTransfer.Proofs.Text.Character
import CardTransfer.Sql.Dialect

/-!
# What the replacement of calls keeps

A stretch of text in which no call starts is copied (`replaceCallsFrom_append`), and counts for what
follows by its quotes alone.

A name in double braces is kept if the handler keeps it (`braced_infix_replaceCallsFrom`): no head of a
call reaches into it, and an argument list holds it as a whole or not at all.
-/

namespace CardTransfer
namespace Sql

open Text (breaksBefore Clear isMatch lastOr)

variable {word : List Char} {handler : List Char → Option (List Char)} {before : Option Char}
  {quoted : Bool} {name cs x v : List Char} {m : Nat}

/-! ### Text without calls -/

theorem callRule_eq_none : callRule word before cs = none ↔ callHead? word before cs = none := by
  rw [callRule, Option.map_eq_none_iff]

theorem replaceCallsFrom_cons_none {c : Char} (h : callHead? word before (c :: cs) = none) :
    replaceCallsFrom word handler before quoted (c :: cs) =
      c :: replaceCallsFrom word handler (some c) (if c == '\'' then !quoted else quoted) cs := by
  rw [replaceCallsFrom]
  split
  · rfl
  · rename_i hn
    rw [h] at hn
    cases hn

/-- **The replacement of calls passes over a text without calls.** -/
theorem replaceCallsFrom_append (h : Clear (isMatch (callRule word)) before x v) :
    replaceCallsFrom word handler before quoted (x ++ v) =
      x ++ replaceCallsFrom word handler (lastOr before x) (quoted ^^ oddQuotes x) v := by
  induction x generalizing before quoted with
  | nil => simp [lastOr, oddQuotes]
  | cons c x ih =>
    have hnone : callHead? word before (c :: (x ++ v)) = none :=
      callRule_eq_none.1 (Text.isMatch_eq_false.1 h.1)
    rw [List.cons_append, replaceCallsFrom_cons_none hnone, ih h.2, oddQuotes_cons]
    cases hc : c == '\'' <;> simp [lastOr]

theorem replaceCallsFrom_congr {after : Option Char} (hbreaks : breaksBefore before = breaksBefore after) :
    replaceCallsFrom word handler before quoted x = replaceCallsFrom word handler after quoted x := by
  cases x with
  | nil => rw [replaceCallsFrom, replaceCallsFrom]
  | cons c x =>
    have hhead : callHead? word before (c :: x) = callHead? word after (c :: x) := by
      unfold callHead?
      rw [hbreaks]
    rw [replaceCallsFrom.eq_def, replaceCallsFrom.eq_def word handler after]
    dsimp only
    rw [hhead]

/-- Calls are replaced behind such a text as they are without it. -/
theorem replaceCalls_append {function : String} (heven : oddQuotes x = false)
    (hbreaks : breaksBefore (lastOr none x) = true)
    (hclear : Clear (isMatch (callRule function.toList)) none x v) :
    replaceCalls function handler (x ++ v) = x ++ replaceCalls function handler v := by
  have hstart : breaksBefore (lastOr none x) = breaksBefore none := hbreaks
  unfold replaceCalls
  rw [replaceCallsFrom_append hclear, heven, Bool.xor_false, replaceCallsFrom_congr hstart]

/-! ### Heads of calls -/

/-- Whether the letters of a name stand for no braces. -/
def Braceless (word : List Char) : Prop := ∀ l ∈ word, Text.foldsTo l '\x7b' = false ∧
  Text.foldsTo l '\x7d' = false

instance : Decidable (Braceless word) := inferInstanceAs (Decidable (∀ l ∈ word, _))

theorem Braceless.isBrace_of_foldsTo (h : Braceless word) {l c : Char} (hl : l ∈ word)
    (hc : Text.foldsTo l c = true) : isBrace c = false := by
  rw [isBrace, Bool.or_eq_false_iff, beq_eq_false_iff_ne, beq_eq_false_iff_ne]
  constructor
  · rintro rfl
    rw [(h l hl).1] at hc
    cases hc
  · rintro rfl
    rw [(h l hl).2] at hc
    cases hc

theorem isBrace_of_isBlank {c : Char} (h : Text.isBlank c = true) : isBrace c = false := by
  rw [isBrace, Bool.or_eq_false_iff, beq_eq_false_iff_ne, beq_eq_false_iff_ne]
  constructor
  · rintro rfl
    revert h
    decide
  · rintro rfl
    revert h
    decide

/-- A head of a call ends with the parenthesis, and holds no brace before. -/
theorem callHead?_eq_some (hword : Braceless word) (h : callHead? word before cs = some m) :
    ∃ head rest, cs = head ++ '(' :: rest ∧ m = head.length + 1 ∧ ∀ c ∈ head, isBrace c = false := by
  unfold callHead? at h
  split at h
  case isFalse => cases h
  obtain ⟨spelt, gap, rest, rfl, rfl, hspelt, hgap⟩ := Text.wordThen?_eq_some h
  refine ⟨spelt ++ gap, rest, rfl, List.length_append, fun c hc => ?_⟩
  rcases List.mem_append.1 hc with hc | hc
  · obtain ⟨l, hl, hfold⟩ := hspelt c hc
    exact hword.isBrace_of_foldsTo hl hfold
  · exact isBrace_of_isBlank (hgap c hc)

/-- No head of a call starts in a text without parentheses before a brace. -/
theorem callHead?_brace (hword : Braceless word) {d : Char} (hd : isBrace d = true)
    (hx : '(' ∉ x) : callHead? word before (x ++ d :: v) = none := by
  rw [Option.eq_none_iff_forall_ne_some]
  intro m h
  obtain ⟨head, rest, heq, -, hhead⟩ := callHead?_eq_some hword h
  rcases List.append_eq_append_iff.1 heq with ⟨a, rfl, ha⟩ | ⟨a, rfl, ha⟩
  · cases a with
    | nil =>
      cases ha
      cases hd
    | cons e a =>
      cases ha
      rw [hhead d (by simp)] at hd
      cases hd
  · cases a with
    | nil =>
      cases ha
      cases hd
    | cons e a =>
      cases ha
      exact hx (by simp)

theorem clear_callRule (hword : Braceless word) {d : Char} (hd : isBrace d = true) (hx : '(' ∉ x) :
    Clear (isMatch (callRule word)) before (x ++ [d]) v := by
  induction x generalizing before with
  | nil =>
    have hnone : callHead? word before ([] ++ d :: v) = none := callHead?_brace hword hd hx
    exact ⟨Text.isMatch_eq_false.2 (callRule_eq_none.2 hnone), trivial⟩
  | cons c x ih =>
    have hnone : callHead? word before (c :: x ++ d :: v) = none := callHead?_brace hword hd hx
    refine ⟨Text.isMatch_eq_false.2 (callRule_eq_none.2 ?_), ih fun hc => hx (List.mem_cons_of_mem _ hc)⟩
    rw [List.append_cons] at hnone
    exact hnone

/-! ### Names in braces -/

/-- Whether a handler keeps a name in its braces. -/
def Keeps (name : List Char) (handler : List Char → Option (List Char)) : Prop :=
  ∀ inner text, handler inner = some text → braced name <:+: inner → braced name <:+: text

/-- **The replacement of calls keeps a name in braces** if the handler keeps it. -/
theorem braced_infix_replaceCallsFrom (hword : Braceless word) (hplain : IsPlain name)
    (hkeeps : Keeps name handler) (h : braced name <:+: cs) :
    braced name <:+: replaceCallsFrom word handler before quoted cs := by
  have hopen : '(' ∉ name := hplain.marks _ (by simp)
  have hafterHead {m : Nat} {cs : List Char} {before : Option Char}
      (hm : callHead? word before cs = some m) (h : braced name <:+: cs) :
      braced name <:+: cs.drop m := by
    obtain ⟨head, rest, rfl, rfl, hhead⟩ := callHead?_eq_some hword hm
    have hbrace : '\x7b' ∉ head ++ ['('] := by
      intro hc
      rcases List.mem_append.1 hc with hc | hc
      · cases hhead _ hc
      · cases List.mem_singleton.1 hc
    rw [List.append_cons] at h ⊢
    rw [List.drop_left' (by simp)]
    exact braced_infix_right h hbrace
  fun_induction replaceCallsFrom word handler before quoted cs with
  | case1 => exact h
  | case2 before quoted c rest hn ih =>
    rcases List.infix_cons_iff.1 h with ⟨v, hv⟩ | h
    · -- the name starts here, and no head of a call starts in it
      have hclear : Clear (isMatch (callRule word)) before (braced name) v := by
        rw [braced_eq]
        exact clear_callRule hword rfl (by simp [hopen])
      have hcopy : replaceCallsFrom word handler before quoted (braced name ++ v) = _ :=
        replaceCallsFrom_append hclear
      rw [hv, replaceCallsFrom_cons_none hn] at hcopy
      rw [hcopy]
      exact (List.prefix_append ..).isInfix
    · exact (ih h).trans (List.suffix_cons ..).isInfix
  | case3 before c rest m hn head ih =>
    exact (ih (hafterHead hn h)).trans (List.suffix_append ..).isInfix
  | case4 before quoted c rest m hn hq hs => exact h
  | case5 before quoted c rest m hn head hq inner after hs arguments ih₁ ih₂ =>
    have hafter := hafterHead hn h
    rw [splitPartner_eq hs] at hafter
    rcases Text.infix_or_of_not_mem hafter (hplain.not_mem_braced (by simp)) with hinner | hafter
    · refine List.IsInfix.trans ?_ (List.prefix_append ..).isInfix
      cases hr : handler arguments with
      | none =>
        rw [Option.getD_none]
        exact (ih₁ hinner).trans (List.infix_append head arguments [')'])
      | some text => exact hkeeps _ _ hr (ih₁ hinner)
    · exact (ih₂ hafter).trans (List.suffix_append ..).isInfix

theorem braced_infix_replaceCalls (function : String) (hword : Braceless function.toList)
    (hplain : IsPlain name) (hkeeps : Keeps name handler) (h : braced name <:+: cs) :
    braced name <:+: replaceCalls function handler cs :=
  braced_infix_replaceCallsFrom hword hplain hkeeps h

end Sql
end CardTransfer

/-!
## What the handlers of calls keep

An argument list is cut at commas (`exists_pieces`). A name in double braces can be cut, but not where all
but one of the arguments hold no brace (`braced_infix_argument`). The units and parts of the tables hold
none, so that the handlers of date parts and of `btrim` keep the name with the other argument.

A `CAST` keeps it with the operand. Its type is dropped, with a size in parentheses, and a size can hold a
name in braces; `plainCast?` leaves such a call as it is.
-/

namespace CardTransfer
namespace Sql

variable {name cs : List Char}

/-! ### Pieces of an argument list -/

/-- What has been read of an argument list. -/
def ArgumentState.read (s : ArgumentState) : List Char :=
  s.done.reverse.flatMap (· ++ [',']) ++ s.current.reverse

theorem ArgumentState.read_step (s : ArgumentState) (c : Char) : (s.step c).read = s.read ++ [c] := by
  unfold ArgumentState.step ArgumentState.read
  split_ifs with _ _ _ _ _ hcomma
  pick_goal 6
  · -- a comma between arguments starts a new piece
    rw [Bool.and_eq_true, beq_iff_eq] at hcomma
    simp [hcomma.1]
  all_goals simp

theorem ArgumentState.read_foldl (s : ArgumentState) (cs : List Char) :
    (cs.foldl ArgumentState.step s).read = s.read ++ cs := by
  induction cs generalizing s with
  | nil => exact (List.append_nil _).symm
  | cons c cs ih => rw [List.foldl_cons, ih, ArgumentState.read_step, List.append_assoc]; rfl

/-- **An argument list is its pieces with commas between them,** and the arguments are the pieces without
blanks around them, apart from the empty ones. -/
theorem exists_pieces (cs : List Char) : ∃ pieces : List (List Char),
    cs ++ [','] = pieces.flatMap (· ++ [',']) ∧
      arguments cs = (pieces.map Text.trim).filter (!·.isEmpty) := by
  have hread := ArgumentState.read_foldl ⟨0, false, false, [], []⟩ cs
  refine ⟨_, ?_, rfl⟩
  rw [List.reverse_cons, List.flatMap_append, List.flatMap_singleton, ← List.append_assoc]
  exact congrArg (· ++ [',']) hread.symm

/-! ### The argument with the braces -/

/-- Trimming takes blanks alone. -/
theorem mem_trim {c : Char} (hc : Text.isBlank c = false) (h : c ∈ cs) : c ∈ Text.trim cs := by
  have hdrop {l : List Char} (h : c ∈ l) : c ∈ l.dropWhile Text.isBlank := by
    rw [← List.takeWhile_append_dropWhile (p := Text.isBlank) (l := l), List.mem_append] at h
    refine h.resolve_left fun h => ?_
    rw [List.mem_takeWhile_imp h] at hc
    cases hc
  exact List.mem_reverse.2 (hdrop (List.mem_reverse.2 (hdrop h)))

theorem mem_trim_of_isBrace {c : Char} (hc : isBrace c = true) (h : c ∈ cs) : c ∈ Text.trim cs := by
  refine mem_trim (Bool.eq_false_iff.2 fun hblank => ?_) h
  rw [isBrace_of_isBlank hblank] at hc
  cases hc

/-- Each argument is one of the pieces, and the others are the other arguments or blank. -/
theorem exists_pieces_around (l₁ l₂ : List (List Char)) {operand : List Char}
    (harguments : arguments cs = l₁ ++ operand :: l₂) :
    ∃ (left : List (List Char)) (piece : List Char) (right : List (List Char)),
      cs ++ [','] = left.flatMap (· ++ [',']) ++ (piece ++ [',']) ++ right.flatMap (· ++ [',']) ∧
        Text.trim piece = operand ∧ (∀ q ∈ left, Text.trim q = [] ∨ Text.trim q ∈ l₁) ∧
          ∀ q ∈ right, Text.trim q = [] ∨ Text.trim q ∈ l₂ := by
  obtain ⟨pieces, hcs, hpieces⟩ := exists_pieces cs
  rw [harguments] at hpieces
  obtain ⟨t₁, t₂, ht, hleft, hrest⟩ := List.filter_eq_append_iff.1 hpieces.symm
  obtain ⟨u₁, u₂, rfl, hblank, -, hright⟩ := List.filter_eq_cons_iff.1 hrest
  obtain ⟨r₁, s, rfl, rfl, hs⟩ := List.map_eq_append_iff.1 ht
  obtain ⟨s₁, s', rfl, rfl, hs'⟩ := List.map_eq_append_iff.1 hs
  obtain ⟨piece, s₂, rfl, hpiece, rfl⟩ := List.map_eq_cons_iff.1 hs'
  have hkept {l : List (List Char)} {kept : List (List Char)}
      (hl : (l.map Text.trim).filter (!·.isEmpty) = kept) : ∀ q ∈ l, Text.trim q = [] ∨ Text.trim q ∈ kept := by
    intro q hq
    rw [or_iff_not_imp_left]
    intro hne
    rw [← hl]
    exact List.mem_filter.2 ⟨List.mem_map_of_mem hq, by rw [List.isEmpty_eq_false_iff.2 hne]; rfl⟩
  refine ⟨r₁ ++ s₁, piece, s₂, ?_, hpiece, fun q hq => ?_, hkept hright⟩
  · rw [hcs, List.flatMap_append, List.flatMap_append, List.flatMap_append, List.flatMap_cons]
    simp only [List.append_assoc]
  · rcases List.mem_append.1 hq with hq | hq
    · exact hkept hleft q hq
    · exact (hkept (List.filter_eq_nil_iff.2 hblank) q hq).imp_right fun h => nomatch h

/-- **A name in braces stands in one argument** if the others hold no brace. -/
theorem braced_infix_argument (l₁ l₂ : List (List Char)) {operand : List Char}
    (harguments : arguments cs = l₁ ++ operand :: l₂)
    (hplain : ∀ a ∈ l₁ ++ l₂, ∀ c ∈ a, isBrace c = false) (h : braced name <:+: cs) :
    braced name <:+: operand := by
  obtain ⟨left, piece, right, hcs, rfl, hleft, hright⟩ := exists_pieces_around l₁ l₂ harguments
  have hother {l kept : List (List Char)} (hl : ∀ q ∈ l, Text.trim q = [] ∨ Text.trim q ∈ kept)
      (hplain : ∀ a ∈ kept, ∀ c ∈ a, isBrace c = false) : ∀ c ∈ l.flatMap (· ++ [',']), isBrace c = false := by
    intro c hc
    obtain ⟨q, hq, hc⟩ := List.mem_flatMap.1 hc
    rcases List.mem_append.1 hc with hc | hc
    · by_contra hbrace
      rw [Bool.not_eq_false] at hbrace
      have htrim := mem_trim_of_isBrace hbrace hc
      rcases hl q hq with hq | hq
      · rw [hq] at htrim
        cases htrim
      · rw [hplain _ hq c htrim] at hbrace
        cases hbrace
    · cases List.mem_singleton.1 hc
      rfl
  replace hleft := hother hleft fun a ha => hplain a (List.mem_append_left _ ha)
  replace hright := hother hright fun a ha => hplain a (List.mem_append_right _ ha)
  replace h : braced name <:+: cs ++ [','] := h.trans (List.prefix_append ..).isInfix
  rw [hcs, List.append_assoc, List.append_assoc] at h
  refine braced_infix_trim (braced_infix_left (b := [','] ++ right.flatMap (· ++ [','])) ?_ ?_)
  · exact braced_infix_right h fun hc => nomatch hleft _ hc
  · intro hc
    rcases List.mem_append.1 hc with hc | hc
    · cases List.mem_singleton.1 hc
    · cases hright _ hc

/-! ### Handlers -/

/-- A call holds its argument. -/
theorem infix_callOf (function argument : List Char) : argument <:+: callOf function argument :=
  ⟨function ++ ['('], [')'], by simp [callOf]⟩

/-- `btrim` keeps a name in braces. -/
theorem keeps_trimCall? : Keeps name trimCall? := by
  intro inner text h hi
  unfold trimCall? at h
  split at h
  case h_2 => cases h
  rename_i operand harguments
  cases h
  exact (braced_infix_argument [] [] harguments (by simp) hi).trans (infix_callOf ..)

/-- Lower case keeps the characters without case. -/
theorem mem_lower {c : Char} (hlower : Text.lowerChar c = c ∧ (c == 'Σ') = false ∧ (c == 'İ') = false)
    (h : c ∈ cs) : c ∈ Text.lower cs := by
  have hfrom (before : List Char) : c ∈ Text.lowerFrom before cs := by
    induction cs generalizing before with
    | nil => exact h
    | cons d cs ih =>
      unfold Text.lowerFrom
      rcases List.mem_cons.1 h with rfl | h
      · rw [hlower.1, hlower.2.1, hlower.2.2]
        exact List.mem_cons_self ..
      · have hlater := ih h (d :: before)
        split
        · exact List.mem_cons_of_mem _ hlater
        · split
          · exact List.mem_cons_of_mem _ (List.mem_cons_of_mem _ hlater)
          · exact List.mem_cons_of_mem _ hlater
  exact hfrom []

theorem mem_lower_of_isBrace {c : Char} (hc : isBrace c = true) (h : c ∈ cs) : c ∈ Text.lower cs := by
  refine mem_lower ?_ h
  rw [isBrace, Bool.or_eq_true, beq_iff_eq, beq_iff_eq] at hc
  rcases hc with rfl | rfl <;> decide

/-- What names an entry of a table without braces holds none itself. -/
theorem isBrace_of_lookup {α : Type} {table : List (String × α)} {v : α}
    (htable : ∀ p ∈ table, ∀ c ∈ p.1.toList, isBrace c = false)
    (h : table.lookup (unitKey cs) = some v) : ∀ c ∈ cs, isBrace c = false := by
  intro c hc
  by_contra hbrace
  rw [Bool.not_eq_false] at hbrace
  obtain ⟨l₁, l₂, rfl, -⟩ := List.lookup_eq_some_iff.1 h
  have hlower := mem_lower_of_isBrace hbrace hc
  rw [htable (unitKey cs, v) (by simp) c (by rwa [unitKey, String.toList_ofList])] at hbrace
  cases hbrace

/-- Taking quotes off takes no brace. -/
theorem mem_unquote_of_isBrace {c : Char} (hc : isBrace c = true) (h : c ∈ cs) : c ∈ unquote cs := by
  have htrim := mem_trim_of_isBrace hc h
  unfold unquote
  dsimp only
  split
  case h_2 => exact htrim
  rename_i q a rest ht
  rw [ht] at htrim ⊢
  split
  case isFalse => exact htrim
  rename_i hquotes
  rw [Bool.and_eq_true, Bool.or_eq_true, beq_iff_eq, beq_iff_eq, beq_iff_eq, List.getLast?_cons_cons,
    List.getLast?_eq_some_iff] at hquotes
  obtain ⟨hq, ys, hys⟩ := hquotes
  have hne : c ≠ q := by
    rintro rfl
    rcases hq with rfl | rfl <;> cases hc
  rw [List.drop_one, List.tail_cons, hys, List.dropLast_concat]
  rw [hys, List.mem_cons, List.mem_append, List.mem_singleton] at htrim
  exact (htrim.resolve_left hne).resolve_right hne

/-- The argument besides a unit of a table holds a name in braces. -/
theorem braced_infix_unitAndOperand? {α : Type} {table : List (String × α)} {v : α} {unit : String}
    {operand : List Char} (htable : ∀ p ∈ table, ∀ c ∈ p.1.toList, isBrace c = false)
    (hoperand : unitAndOperand? cs = some (unit, operand)) (hunit : table.lookup unit = some v)
    (h : braced name <:+: cs) : braced name <:+: operand := by
  unfold unitAndOperand? at hoperand
  split at hoperand
  case h_2 => cases hoperand
  rename_i quotedUnit _ harguments
  split at hoperand
  case isFalse => cases hoperand
  cases hoperand
  have hplain := isBrace_of_lookup htable hunit
  refine braced_infix_argument [quotedUnit] [] harguments (fun a ha c hc => ?_) h
  rw [List.append_nil, List.mem_singleton] at ha
  subst ha
  by_contra hbrace
  rw [Bool.not_eq_false] at hbrace
  rw [hplain c (mem_unquote_of_isBrace hbrace hc)] at hbrace
  cases hbrace

/-- `date_trunc` keeps a name in braces. -/
theorem keeps_truncCall? : Keeps name truncCall? := by
  intro inner text h hi
  simp only [truncCall?, Option.bind_eq_bind, Option.bind_eq_some_iff] at h
  obtain ⟨⟨unit, operand⟩, hoperand, ⟨left, right⟩, hunit, h⟩ := h
  cases h
  have hkept := braced_infix_unitAndOperand? (by decide) hoperand hunit hi
  rw [List.append_assoc]
  exact hkept.trans (List.infix_append' ..)

/-- `date_part` keeps a name in braces. -/
theorem keeps_partCall? : Keeps name partCall? := by
  intro inner text h hi
  simp only [partCall?, Option.bind_eq_bind, Option.bind_eq_some_iff] at h
  obtain ⟨⟨part, operand⟩, hoperand, function, hpart, h⟩ := h
  cases h
  exact (braced_infix_unitAndOperand? (by decide) hoperand hpart hi).trans (infix_callOf ..)

theorem braced_infix_afterBlanks (h : braced name <:+: cs) :
    braced name <:+: cs.drop (Text.blankLength cs) := by
  rw [Text.drop_blankLength]
  exact braced_infix_dropWhile h (by decide)

/-- What follows `part from` holds a name in braces. -/
theorem braced_infix_partFrom? {part operand : List Char} (h : partFrom? cs = some (part, operand))
    (hi : braced name <:+: cs) : braced name <:+: operand := by
  unfold partFrom? at h
  dsimp only at h
  split at h
  case isTrue => cases h
  rename_i hparts
  simp only [Bool.or_eq_true, Bool.not_eq_true', not_or, Bool.not_eq_false] at hparts
  cases h
  have hafter := braced_infix_dropWhile (p := Text.isWord) (braced_infix_afterBlanks hi) (by decide)
  refine braced_infix_drop (braced_infix_afterBlanks hafter) fun hc => ?_
  have hfrom : Braceless "from".toList := by decide
  obtain ⟨l, hl, hfold⟩ := Text.exists_foldsTo_of_mem_take hparts.1.2 hc
  cases hfrom.isBrace_of_foldsTo hl hfold

/-- `extract` keeps a name in braces. -/
theorem keeps_extractCall? : Keeps name extractCall? := by
  intro inner text h hi
  simp only [extractCall?, Option.bind_eq_bind, Option.bind_eq_some_iff] at h
  obtain ⟨⟨part, operand⟩, hoperand, function, -, h⟩ := h
  cases h
  exact (braced_infix_trim (braced_infix_partFrom? hoperand hi)).trans (infix_callOf ..)

/-! ### Casts -/

/-- `AS` between blanks holds no brace. -/
theorem isBrace_of_asLength? {n : Nat} (h : asLength? cs = some n) :
    ∀ c ∈ cs.take n, isBrace c = false := by
  unfold asLength? at h
  dsimp only at h
  split at h
  case isTrue => cases h
  split at h
  case isFalse => cases h
  rename_i hstart
  split at h
  case isTrue => cases h
  cases h
  intro c hc
  rw [List.take_add, List.take_add, List.mem_append, List.mem_append] at hc
  rcases hc with (hc | hc) | hc
  · exact isBrace_of_isBlank (Text.isBlank_of_mem_take hc)
  · have hword : Braceless "as".toList := by decide
    obtain ⟨l, hl, hfold⟩ := Text.exists_foldsTo_of_mem_take hstart hc
    exact hword.isBrace_of_foldsTo hl hfold
  · exact isBrace_of_isBlank (Text.isBlank_of_mem_take hc)

/-- A text is split at an `AS`. -/
theorem exists_of_splitAs {skip : Nat} {depth : Int} {quoted : Bool} {before operand type : List Char}
    (h : splitAs skip depth quoted before cs = some (operand, type)) :
    ∃ rest n, before.reverse ++ cs = operand ++ rest ∧ asLength? rest = some n ∧ type = rest.drop n := by
  induction cs generalizing skip depth quoted before with
  | nil => cases h
  | cons c cs ih =>
    have hlater {skip : Nat} {depth : Int} {quoted : Bool}
        (h : splitAs skip depth quoted (c :: before) cs = some (operand, type)) :
        ∃ rest n, before.reverse ++ c :: cs = operand ++ rest ∧ asLength? rest = some n ∧ type = rest.drop n := by
      obtain ⟨rest, n, hrest⟩ := ih h
      rw [List.reverse_cons, List.append_assoc] at hrest
      exact ⟨rest, n, hrest⟩
    unfold splitAs at h
    split at h
    · exact hlater h
    · split at h
      · rename_i n hn
        dsimp only at h
        split at h
        · exact hlater h
        · cases hl : splitAs (n - 1) depth quoted (c :: before) cs with
          | none =>
            rw [hl] at h
            cases h
            exact ⟨c :: cs, n, rfl, hn, rfl⟩
          | some p =>
            rw [hl] at h
            cases h
            exact hlater hl
      · split_ifs at h
        all_goals exact hlater h

/-- A `CAST` of which the type holds no brace. -/
def plainCast? (inner : List Char) : Option (List Char) :=
  if (splitAs 0 0 false [] inner).any fun p => p.2.any isBrace then none else castCall? inner

/-- A `CAST` keeps a name in braces if its type holds none. -/
theorem keeps_plainCast? : Keeps name plainCast? := by
  intro inner text h hi
  unfold plainCast? at h
  split at h
  case isTrue => cases h
  rename_i hplain
  simp only [castCall?, Option.bind_eq_bind, Option.bind_eq_some_iff] at h
  obtain ⟨⟨operand, type⟩, hsplit, function, -, h⟩ := h
  cases h
  rw [hsplit, Option.any_some, Bool.not_eq_true, List.any_eq_false] at hplain
  obtain ⟨rest, n, heq, hn, rfl⟩ := exists_of_splitAs hsplit
  rw [List.reverse_nil, List.nil_append] at heq
  rw [heq] at hi
  refine (braced_infix_trim (braced_infix_left hi fun hc => ?_)).trans (infix_callOf ..)
  rw [← List.take_append_drop n rest] at hc
  rcases List.mem_append.1 hc with hc | hc
  · cases isBrace_of_asLength? hn _ hc
  · exact hplain _ hc rfl

end Sql
end CardTransfer
