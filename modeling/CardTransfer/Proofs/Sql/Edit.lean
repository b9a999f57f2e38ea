import CardTransfer.Proofs.Sql.ArgumentList
import CardTransfer.Proofs.Sql.CastOperand
import Mathlib.Logic.Relation

/-!
# Edits

The rules that follow those of casts change a text at one place at a time: a call becomes another call of one of
its arguments, a name with its parenthesis becomes another one, and a word becomes a call without arguments
(`Written`). Everything written starts with a name that is none of those looked for (`openings`), and every place
where something is written starts with a part of a word. So an edit brings no new call: a head of a call in front
of it does not reach into it (`exists_head_before`), and what is written holds no other calls than what it was
written for.

Hence each argument list of an edited text is one of the text before, or one of them with the edit in it
(`mem_argumentLists_of_edit`).
-/

namespace CardTransfer
namespace Sql

open Text (breaksBefore Clear isMatch lastOr isBlank isWord)

variable {word a b u v x y z head left operand right inner text opening : List Char} {before : Option Char}
  {quoted : Bool} {n depth : Nat} {function : String}

/-! ### Heads -/

/-- A name, blanks and a parenthesis. -/
def IsHead (head : List Char) : Prop := ∃ name gap, head = name ++ (gap ++ ['(']) ∧ name ≠ [] ∧
  (∀ c ∈ name, isWord c = true) ∧ ∀ c ∈ gap, isBlank c = true

/-- **What the head of a call is.** -/
theorem callHead?_eq_some_iff : callHead? word before x = some n ↔ breaksBefore before = true ∧
    ∃ name gap rest, x = name ++ (gap ++ '(' :: rest) ∧ n = name.length + gap.length + 1 ∧ Folds word name ∧
      ∀ c ∈ gap, isBlank c = true := by
  have hblank : isBlank '(' = false := by decide
  constructor
  · intro h
    unfold callHead? at h
    split at h
    case isFalse => cases h
    rename_i hbefore
    simp only [Text.wordThen?, Text.word?, Option.bind_eq_bind, Option.bind_eq_some_iff] at h
    obtain ⟨m, hm, h⟩ := h
    split at hm
    case isFalse => cases hm
    rename_i hstart
    cases hm
    split at h
    case isFalse => cases h
    rename_i hmark
    cases h
    obtain ⟨rest, hrest⟩ := List.head?_eq_some_iff.1 (beq_iff_eq.1 hmark)
    refine ⟨hbefore, x.take word.length, (x.drop word.length).take (Text.blankLength (x.drop word.length)), rest,
      ?_, ?_, folds_of_startsWith hstart, fun c hc => Text.isBlank_of_mem_take hc⟩
    · rw [← hrest, ← List.drop_drop, List.take_append_drop, List.take_append_drop]
    · rw [List.length_take_of_le (Text.length_le_of_startsWith hstart),
        List.length_take_of_le (Text.blankLength_le _)]
  · rintro ⟨hbefore, name, gap, rest, rfl, rfl, hname, hgap⟩
    have hlength := hname.length_eq
    have hblanks : Text.blankLength (gap ++ '(' :: rest) = gap.length := by
      rw [Text.blankLength_append_cons hblank, Text.blankLength, List.takeWhile_eq_self_iff.2 hgap]
    have hdrop : (name ++ (gap ++ '(' :: rest)).drop (word.length + gap.length) = '(' :: rest := by
      rw [hlength, ← List.drop_drop, List.drop_left, List.drop_left]
    rw [callHead?, if_pos hbefore, Text.wordThen?, Text.word?, if_pos (startsWith_of_folds hname _)]
    simp only [Option.bind_eq_bind, Option.bind_some]
    rw [hlength, List.drop_left, hblanks, ← hlength, hdrop]
    rfl

/-- The head of a call, and that it is one whatever follows it. -/
theorem exists_isHead (hword : ∀ l ∈ word, isWord l = true) (hne : word ≠ [])
    (h : callHead? word before x = some n) : ∃ head rest, x = head ++ rest ∧ n = head.length ∧ IsHead head ∧
      ∀ t, callHead? word before (head ++ t) = some n := by
  obtain ⟨hbefore, name, gap, rest, rfl, rfl, hname, hgap⟩ := callHead?_eq_some_iff.1 h
  refine ⟨name ++ (gap ++ ['(']), rest, by simp, by simp; omega,
    ⟨name, gap, rfl, hname.ne_nil hne, hname.isWord hword, hgap⟩, fun t => ?_⟩
  exact callHead?_eq_some_iff.2 ⟨hbefore, name, gap, t, by simp, rfl, hname, hgap⟩

theorem breaksBefore_of_isWord (hne : x ≠ []) (h : ∀ c ∈ x, isWord c = true) :
    breaksBefore (lastOr before x) = false := by
  obtain ⟨init, c, rfl⟩ := (List.eq_nil_or_concat' x).resolve_left hne
  rw [Text.lastOr_append]
  exact congrArg not (h c (by simp))

/-- **A head of a call does not reach into a word behind it.** -/
theorem exists_head_before {d : Char} (hword : ∀ l ∈ word, isWord l = true) (hne : word ≠ []) (hu : u ≠ [])
    (hbreaks : breaksBefore (lastOr before u) = true) (hd : isWord d = true)
    (h : callHead? word before (u ++ d :: z) = some n) : ∃ head rest, u = head ++ rest ∧ n = head.length ∧
      IsHead head ∧ ∀ t, callHead? word before (head ++ t) = some n := by
  obtain ⟨head, rest, heq, hn, hhead, hany⟩ := exists_isHead hword hne h
  rcases List.append_eq_append_iff.1 heq with ⟨w, hw, hz⟩ | ⟨w, hw, -⟩
  case inr => exact ⟨head, w, hw, hn, hhead, hany⟩
  cases w with
  | nil => exact ⟨head, [], by rw [hw, List.append_nil, List.append_nil], hn, hhead, hany⟩
  | cons e w =>
    obtain ⟨rfl, -⟩ := List.cons.inj hz
    obtain ⟨name, gap, rfl, -, hname, hgap⟩ := hhead
    have hstop (s : List Char) (hs : gap ++ ['('] = s ++ d :: w) : False := by
      have hmem : d ∈ gap ++ ['('] := by simp [hs]
      rcases List.mem_append.1 hmem with hmem | hmem
      · have hblank := hgap d hmem
        rw [isBlank_of_isWord hd] at hblank
        cases hblank
      · cases List.mem_singleton.1 hmem
        exact absurd hd (by decide)
    rcases List.append_eq_append_iff.1 hw with ⟨s, hs, hgap'⟩ | ⟨s, hs, hgap'⟩
    · exact (hstop s hgap').elim
    · cases s with
      | nil => exact (hstop [] hgap'.symm).elim
      | cons e s =>
        -- the word would go on through the place
        have hletters : ∀ c ∈ u, isWord c = true := fun c hc => hname c (by rw [hs]; exact List.mem_append_left _ hc)
        rw [breaksBefore_of_isWord hu hletters] at hbreaks
        cases hbreaks

/-- Behind a part of a word no call starts before the word ends. -/
theorem clear_of_isWord {d : Char} (hd : isWord d = true) (hx : ∀ c ∈ x, isWord c = true) :
    Clear (isMatch (callRule word)) (some d) x y := by
  induction x generalizing d with
  | nil => trivial
  | cons c x ih =>
    rw [List.forall_mem_cons] at hx
    exact ⟨Text.isMatch_eq_false.2 (callRule_eq_none.2 (callHead?_of_isWord hd _)), ih hx.1 hx.2⟩

/-- In the head of a call that is none of the function no call of it starts. -/
theorem IsHead.clear (h : IsHead head) (hsep : Separated (callRule word))
    (hnone : callHead? word before (head ++ z) = none) : Clear (isMatch (callRule word)) before head z := by
  obtain ⟨name, gap, rfl, hne, hname, hgap⟩ := h
  obtain ⟨c, name, rfl⟩ := List.exists_cons_of_ne_nil hne
  rw [List.forall_mem_cons] at hname
  rw [Text.clear_append]
  refine ⟨⟨Text.isMatch_eq_false.2 (callRule_eq_none.2 ?_), clear_of_isWord hname.1 hname.2⟩,
    hsep.clear_signs fun d hd => ?_⟩
  · simpa using hnone
  · rcases List.mem_append.1 hd with hd | hd
    · exact isWord_of_isBlank (hgap d hd)
    · cases List.mem_singleton.1 hd
      rfl

/-- Only the parenthesis at its end is one. -/
theorem IsHead.eq_concat (h : IsHead head) : ∃ start, head = start ++ ['('] ∧
    ∀ c ∈ start, isWord c = true ∨ isBlank c = true := by
  obtain ⟨name, gap, rfl, -, hname, hgap⟩ := h
  refine ⟨name ++ gap, (List.append_assoc ..).symm, fun c hc => ?_⟩
  exact (List.mem_append.1 hc).imp (hname c) (hgap c)

theorem IsHead.length_eq (h : IsHead head) (hword : ∀ l ∈ word, isWord l = true)
    (hcall : callHead? word before (head ++ z) = some n) : n = head.length := by
  obtain ⟨start, rfl, hstart⟩ := h.eq_concat
  obtain ⟨start', rest, heq, rfl, hstart'⟩ := exists_head hword hcall
  have hopen {x : List Char} (hx : ∀ c ∈ x, isWord c = true ∨ isBlank c = true) : '(' ∉ x := fun hmem =>
    ((hx _ hmem).elim still_of_isWord still_of_isBlank) (by simp)
  rw [List.append_assoc] at heq
  obtain ⟨rfl, -⟩ := Text.eq_of_append_cons (hopen hstart) (hopen hstart') heq
  rw [List.length_append, List.length_singleton]

theorem IsHead.exists_cons (h : IsHead head) : ∃ d rest, head = d :: rest ∧ isWord d = true := by
  obtain ⟨name, gap, rfl, hne, hname, -⟩ := h
  obtain ⟨d, name, rfl⟩ := List.exists_cons_of_ne_nil hne
  exact ⟨d, _, rfl, hname d (List.mem_cons_self ..)⟩

/-! ### What is written -/

/-- What is written in front of the argument of a call, or instead of a name and its parenthesis. -/
def openings : List (List Char) :=
  unitStarts.map (·.2.1.toList) ++ partFunctions.map (·.2.toList ++ ['(']) ++
    ["trimBoth(".toList, "lengthUTF8(".toList, "position(".toList, "today(".toList]

theorem exists_of_openings (h : opening ∈ openings) : ∃ name, opening = name ++ ['('] ∧ name ≠ [] ∧
    ∀ c ∈ name, isWord c = true := by
  have hall : ∀ o ∈ openings, o = o.dropLast ++ ['('] ∧ o.dropLast ≠ [] ∧ ∀ c ∈ o.dropLast, isWord c = true := by
    decide
  exact ⟨opening.dropLast, hall opening h⟩

theorem isHead_openings (h : opening ∈ openings) : IsHead opening := by
  obtain ⟨name, heq, hne, hword⟩ := exists_of_openings h
  exact ⟨name, [], heq, hne, hword, List.forall_mem_nil _⟩

/-- No call that is looked for has such a name. -/
theorem clear_openings (hf : function ∈ dateCalls) (h : opening ∈ openings)
    (hbefore : breaksBefore before = true) (z : List Char) :
    Clear (isMatch (callRule function.toList)) before opening z := by
  have hall (z : List Char) : (dateCalls.all fun f => openings.all fun o =>
      decide (Clear (isMatch (callRule f.toList)) none o z)) = true := rfl
  have hnone := of_decide_eq_true (List.all_eq_true.1 (List.all_eq_true.1 (hall z) function hf) opening h)
  have hbreaks : breaksBefore none = breaksBefore before := hbefore.symm
  exact ((separated_dateCalls function hf).clear_congr hbreaks).1 hnone

/-- What stands in an argument list besides the argument that is kept: no call starts in it or reaches over it,
and nothing is open behind it. -/
structure Aside (left right : List Char) : Prop where
  clear : ∀ f ∈ dateCalls, ∀ z, Clear (isMatch (callRule f.toList)) none left z
  breaks : breaksBefore (lastOr none left) = true
  even : oddQuotes left = false
  plain : ∀ c ∈ left, c ∉ ['"', '(', ')']
  right : ∀ c ∈ right, isBlank c = true ∨ c = ','

/-- What may be written behind the argument. -/
def extras : List (List Char) := [[], ", 1".toList]

/-- An argument list, and what is written for its call. -/
inductive Rewritten : List Char → List Char → Prop
  | keeps {left operand right opening extra : List Char} (haside : Aside left right)
      (hoperand : Closed nothing operand) (hopening : opening ∈ openings) (hextra : extra ∈ extras) :
      Rewritten (left ++ (operand ++ right)) (opening ++ (operand ++ (extra ++ [')'])))

/-- What is written for a part of a text that a text follows. -/
inductive Written (after : List Char) : List Char → List Char → Prop
  | call {head inner text : List Char} (hhead : IsHead head) (htext : Rewritten inner text) :
      Written after (head ++ (inner ++ [')'])) text
  | name {head opening : List Char} (hhead : IsHead head)
      (hother : ∀ f ∈ dateCalls, ∀ z, callHead? f.toList none (head ++ z) = none) (hopening : opening ∈ openings) :
      Written after head opening
  | today {name : List Char} (hne : name ≠ []) (hname : ∀ c ∈ name, isWord c = true) (hafter : EndsHead after) :
      Written after name "today()".toList

theorem EndsHead.cons {c : Char} (hword : isWord c = false) (hblank : isBlank c = false) (hc : c ≠ '(')
    (z : List Char) : EndsHead (c :: z) := by
  refine ⟨by simp [Text.breaksAfter, hword], ?_⟩
  rw [List.dropWhile_cons_of_neg (by simp [hblank])]
  simpa using hc

/-- No call starts in a text without parentheses, if none goes on into what follows. -/
theorem clear_of_parenless (hword : ∀ l ∈ word, isWord l = true) (hx : '(' ∉ x) (hy : EndsHead y) :
    Clear (isMatch (callRule word)) before x y := by
  induction x generalizing before with
  | nil => trivial
  | cons c x ih =>
    refine ⟨Text.isMatch_eq_false.2 (callRule_eq_none.2 ?_), ih fun hmem => hx (List.mem_cons_of_mem _ hmem)⟩
    rw [callHead?_append hword hy, Option.eq_none_iff_forall_ne_some]
    intro n hn
    obtain ⟨start, rest, heq, -⟩ := exists_head hword hn
    exact hx (by rw [heq]; simp)

theorem clear_extras {extra : List Char} (hf : function ∈ dateCalls) (h : extra ∈ extras) (z : List Char) :
    Clear (isMatch (callRule function.toList)) before (extra ++ [')']) z := by
  have hsep := separated_dateCalls function hf
  simp only [extras, List.mem_cons, List.not_mem_nil, or_false] at h
  rcases h with rfl | rfl
  · exact hsep.clear_signs (by decide)
  · have hlater (z : List Char) : (dateCalls.all fun f =>
        decide (Clear (isMatch (callRule f.toList)) (some ',') " 1)".toList z)) = true := rfl
    exact ⟨Text.isMatch_eq_false.2 (hsep.sign ',' (by decide) ..),
      of_decide_eq_true (List.all_eq_true.1 (hlater z) function hf)⟩

/-! ### What is open -/

theorem nesting_of_parenless (h : ∀ c ∈ x, c ∉ ['(', ')']) :
    nesting nothing depth quoted x = some (depth, quoted ^^ oddQuotes x) := by
  induction x generalizing quoted with
  | nil => simp [nesting, oddQuotes]
  | cons c x ih =>
    rw [List.forall_mem_cons] at h
    have hc := h.1
    simp only [List.mem_cons, List.not_mem_nil, or_false, not_or] at hc
    unfold nesting
    rw [oddQuotes_cons]
    split_ifs with hbad hquote hquoted hopen hclose
    · cases hbad
    · rw [ih h.2, hquote]
      cases quoted <;> cases oddQuotes x <;> rfl
    · rw [ih h.2, Bool.eq_false_iff.2 hquote, Bool.xor_false]
    · exact absurd (beq_iff_eq.1 hopen) hc.1
    · exact absurd (beq_iff_eq.1 hclose) hc.2
    · exact absurd (beq_iff_eq.1 hclose) hc.2
    · rw [ih h.2, Bool.eq_false_iff.2 hquote, Bool.xor_false]

theorem IsHead.nesting (h : IsHead head) : nesting nothing 0 false head = some (1, false) := by
  obtain ⟨start, rfl, hstart⟩ := h.eq_concat
  have hstill : Sql.nesting nothing 0 false start = some (0, false) :=
    nesting_of_still fun c hc => ⟨rfl, (hstart c hc).elim still_of_isWord still_of_isBlank⟩
  rw [nesting_append, hstill]
  rfl

theorem Aside.closed (h : Aside left right) (hoperand : Closed nothing operand) :
    Closed nothing (left ++ (operand ++ right)) := by
  have hleft : Closed nothing left := by
    rw [Closed, nesting_of_parenless fun c hc hmem => h.plain c hc (List.mem_cons_of_mem _ hmem), h.even]
    rfl
  have hright : Closed nothing right := nesting_of_still fun c hc => by
    refine ⟨rfl, (h.right c hc).elim still_of_isBlank ?_⟩
    rintro rfl
    decide
  exact hleft.append (hoperand.append hright)

theorem Rewritten.closed (h : Rewritten inner text) : Closed nothing inner ∧ Closed nothing text := by
  obtain ⟨haside, hoperand, hopening, hextra⟩ := h
  rename_i left operand right opening extra
  have hopen := (isHead_openings hopening).nesting
  have hclose : nesting nothing 1 false (extra ++ [')']) = some (0, false) := by
    have hall : ∀ e ∈ extras, nesting nothing 1 false (e ++ [')']) = some (0, false) := by decide
    exact hall extra hextra
  refine ⟨haside.closed hoperand, ?_⟩
  rw [Closed, nesting_append, hopen, Option.bind_some, nesting_append, hoperand.nesting_eq]
  exact hclose

/-- **What is written opens what it was written for.** -/
theorem Written.nesting (h : Written v a b) : ∃ k, nesting nothing 0 false a = some (k, false) ∧
    nesting nothing 0 false b = some (k, false) := by
  cases h with
  | @call head inner text hhead htext =>
    obtain ⟨hinner, htext⟩ := htext.closed
    refine ⟨0, ?_, htext⟩
    rw [nesting_append, hhead.nesting, Option.bind_some, nesting_append, hinner.nesting_eq]
    rfl
  | name hhead _ hopening => exact ⟨1, hhead.nesting, (isHead_openings hopening).nesting⟩
  | today _ hname =>
    exact ⟨0, nesting_of_still fun c hc => ⟨rfl, still_of_isWord (hname c hc)⟩, by decide⟩

theorem quote_notMem_openings (h : opening ∈ openings) : '\'' ∉ opening := by
  have hall : ∀ o ∈ openings, '\'' ∉ o := by decide
  exact hall opening h

theorem Rewritten.quote_notMem (h : Rewritten inner text) (hinner : '\'' ∉ inner) : '\'' ∉ text := by
  obtain ⟨-, -, hopening, hextra⟩ := h
  have hall : ∀ e ∈ extras, '\'' ∉ e ++ [')'] := by decide
  simp only [List.mem_append, not_or] at hinner ⊢
  exact ⟨quote_notMem_openings hopening, hinner.2.1, by simpa using hall _ hextra⟩

theorem Written.quote_notMem (h : Written v a b) (ha : '\'' ∉ a) : '\'' ∉ b := by
  cases h with
  | call _ htext =>
    refine htext.quote_notMem fun hmem => ha ?_
    simp [hmem]
  | name _ _ hopening => exact quote_notMem_openings hopening
  | today => decide

/-- Both start with a part of a word. -/
theorem Written.starts (h : Written v a b) :
    (∃ d x, a = d :: x ∧ isWord d = true) ∧ ∃ d x, b = d :: x ∧ isWord d = true := by
  cases h with
  | call hhead htext =>
    obtain ⟨d, x, rfl, hd⟩ := hhead.exists_cons
    obtain ⟨-, -, hopening, -⟩ := htext
    obtain ⟨e, y, rfl, he⟩ := (isHead_openings hopening).exists_cons
    exact ⟨⟨d, _, rfl, hd⟩, e, _, rfl, he⟩
  | name hhead _ hopening => exact ⟨hhead.exists_cons, (isHead_openings hopening).exists_cons⟩
  | today hne hname =>
    obtain ⟨d, x, rfl⟩ := List.exists_cons_of_ne_nil hne
    exact ⟨⟨d, x, rfl, hname d (List.mem_cons_self ..)⟩, _, _, rfl, by decide⟩

/-! ### Argument lists where something is written -/

variable {l : List Char}

/-- A sign starts no call. -/
theorem argumentListsFrom_sign {c : Char} (hsep : Separated (callRule word)) (hword : isWord c = false)
    (hc : c ≠ '\'') : argumentListsFrom word before quoted (c :: x) = argumentListsFrom word (some c) quoted x := by
  have hnone : callHead? word before (c :: x) = none := callRule_eq_none.1 (hsep.sign c hword ..)
  rw [argumentListsFrom_cons_none hnone, if_neg (by simpa using hc)]

/-- **What is written for a call has its lists from the list of the call.** -/
theorem Rewritten.mem_argumentLists (h : Rewritten inner text) (hf : function ∈ dateCalls)
    (hbefore : breaksBefore before = true) (hl : l ∈ argumentListsFrom function.toList before false (text ++ z)) :
    l ∈ argumentListsFrom function.toList none false inner ∨
      l ∈ argumentListsFrom function.toList (some ')') false z := by
  obtain ⟨haside, hoperand, hopening, hextra⟩ := h
  rename_i left operand right opening extra
  have hword := isWord_dateCalls hf
  have hopen : breaksBefore (some '(') = breaksBefore none := by decide
  have hleft : breaksBefore (lastOr none left) = breaksBefore none := haside.breaks
  have hright : EndsHead right := by
    refine ⟨?_, fun hhead => ?_⟩
    · cases hr : right with
      | nil => rfl
      | cons c x =>
        rcases haside.right c (by simp [hr]) with hblank | rfl
        · simp [Text.breaksAfter, isWord_of_isBlank hblank]
        · rfl
    · rcases haside.right '(' ((List.dropWhile_suffix _).subset (List.mem_of_head? hhead)) with hblank | hcomma
      · exact absurd hblank (by decide)
      · exact absurd hcomma (by decide)
  have hend : EndsHead (extra ++ [')'] ++ z) := by
    simp only [extras, List.mem_cons, List.not_mem_nil, or_false] at hextra
    rcases hextra with rfl | rfl
    · exact .cons (by decide) (by decide) (by decide) z
    · exact .cons (by decide) (by decide) (by decide) _
  have hlast : lastOr before opening = some '(' := by
    obtain ⟨start, rfl, -⟩ := (isHead_openings hopening).eq_concat
    rw [Text.lastOr_append]
    rfl
  have hclose (p : Option Char) : lastOr p (extra ++ [')']) = some ')' := Text.lastOr_append ..
  have hquotes : oddQuotes (extra ++ [')']) = false := by
    have hall : ∀ e ∈ extras, oddQuotes (e ++ [')']) = false := by decide
    exact hall extra hextra
  have hrest : argumentListsFrom function.toList none false (operand ++ (extra ++ [')'] ++ z)) = _ :=
    argumentListsFrom_append_of_nesting hword hend hoperand
  rw [argumentListsFrom_append (clear_extras hf hextra z), hclose, hquotes] at hrest
  have hlists : argumentListsFrom function.toList before false (opening ++ (operand ++ (extra ++ [')'])) ++ z) =
      argumentListsFrom function.toList none false operand ++ argumentListsFrom function.toList (some ')') false z := by
    rw [List.append_assoc, List.append_assoc, argumentListsFrom_append (clear_openings hf hopening hbefore _), hlast,
      oddQuotes_of_quoteless (quote_notMem_openings hopening), Bool.xor_false, argumentListsFrom_congr hopen]
    exact hrest
  rw [hlists, List.mem_append] at hl
  refine hl.imp_left fun hl => ?_
  rw [argumentListsFrom_append (haside.clear function hf _), haside.even, Bool.xor_false,
    argumentListsFrom_congr hleft, argumentListsFrom_append_of_nesting hword hright hoperand]
  exact List.mem_append_left _ hl

/-- Where something is written no argument list comes in. -/
theorem Written.mem_argumentLists (h : Written v a b) (hf : function ∈ dateCalls)
    (hbefore : breaksBefore before = true) (hl : l ∈ argumentListsFrom function.toList before false (b ++ v)) :
    l ∈ argumentListsFrom function.toList before false (a ++ v) := by
  have hword := isWord_dateCalls hf
  have hsep := separated_dateCalls function hf
  have hopen : breaksBefore (some '(') = breaksBefore none := by decide
  have hends (z : List Char) : EndsHead (')' :: z) := .cons (by decide) (by decide) (by decide) z
  cases h with
  | @call head inner text hhead htext =>
    replace hl := htext.mem_argumentLists hf hbefore hl
    obtain ⟨hinner, -⟩ := htext.closed
    rw [List.append_assoc, List.append_assoc]
    cases hcall : callHead? function.toList before (head ++ (inner ++ ([')'] ++ v))) with
    | some n =>
      obtain rfl := hhead.length_eq hword hcall
      have hsplit : splitClosing (inner ++ ([')'] ++ v)) = some (inner, v) := splitPartner_closed hinner v
      rw [argumentListsFrom_unquoted hcall, List.drop_left, hsplit]
      exact List.mem_cons_of_mem _ (List.mem_append.2 hl)
    | none =>
      obtain ⟨start, hstart, -⟩ := hhead.eq_concat
      have hlast : lastOr before head = some '(' := by rw [hstart, Text.lastOr_append]; rfl
      have hquotes := quoted_of_nesting hhead.nesting
      rw [Bool.false_xor] at hquotes
      rw [argumentListsFrom_append (hhead.clear hsep hcall), hlast, ← hquotes, Bool.xor_false,
        argumentListsFrom_congr hopen, argumentListsFrom_append_of_nesting (y := [')'] ++ v) hword (hends v) hinner,
        List.singleton_append, argumentListsFrom_sign hsep (by decide) (by decide)]
      exact List.mem_append.2 hl
  | @name _ _ hhead hother hopening =>
    have hnone : callHead? function.toList before (a ++ v) = none := by
      have hcongr : breaksBefore before = breaksBefore none := hbefore
      rw [callHead?, hcongr]
      exact hother function hf v
    obtain ⟨start, hstart, -⟩ := hhead.eq_concat
    obtain ⟨start', hstart', -⟩ := (isHead_openings hopening).eq_concat
    have hquotes := quoted_of_nesting hhead.nesting
    rw [Bool.false_xor] at hquotes
    rw [argumentListsFrom_append (hhead.clear hsep hnone), ← hquotes, hstart, Text.lastOr_append]
    rw [argumentListsFrom_append (clear_openings hf hopening hbefore v),
      oddQuotes_of_quoteless (quote_notMem_openings hopening), hstart', Text.lastOr_append] at hl
    exact hl
  | @today _ hne hname hafter =>
    have hplain : ∀ c ∈ a, c ∉ ['\'', '(', ')'] := fun c hc => still_of_isWord (hname c hc)
    have hopening : "today(".toList ∈ openings := by decide
    have htoday : "today()".toList ++ v = "today(".toList ++ (')' :: v) := rfl
    rw [htoday, argumentListsFrom_append (clear_openings hf hopening hbefore _)] at hl
    rw [argumentListsFrom_append (clear_of_parenless hword (fun hmem => hplain _ hmem (by simp)) hafter),
      oddQuotes_of_quoteless fun hmem => hplain _ hmem (by simp)]
    have hl' : l ∈ argumentListsFrom function.toList (some '(') false (')' :: v) := hl
    rw [argumentListsFrom_sign hsep (by decide) (by decide)] at hl'
    -- the text behind the word starts with no part of a word
    cases v with
    | nil => rwa [argumentListsFrom_nil] at hl' ⊢
    | cons c v =>
      have hc : isWord c = false := by simpa [Text.breaksAfter] using hafter.1
      have hnone (p : Option Char) : callHead? function.toList p (c :: v) = none :=
        callRule_eq_none.1 (hsep.sign c hc ..)
      rwa [argumentListsFrom_cons_none (hnone _)] at hl' ⊢

/-! ### Edits -/

/-- A text with one place changed, where no word goes on. The quotes before the place leave it outside of them,
or none follow. -/
inductive Edit (before : Option Char) (quoted : Bool) : List Char → List Char → Prop
  | place {u a b v : List Char} (hwritten : Written v a b) (hbreaks : breaksBefore (lastOr before u) = true)
      (hquotes : oddQuotes u = quoted ∨ '\'' ∉ a ++ v) : Edit before quoted (u ++ (a ++ v)) (u ++ (b ++ v))

theorem endsHead_append (hz : EndsHead z) : EndsHead (x ++ z) ↔ EndsHead x := by
  have hbreaks : Text.breaksAfter (x ++ z) = Text.breaksAfter x := by
    cases x with
    | nil => exact hz.1
    | cons => rfl
  have hblank : ((x ++ z).dropWhile isBlank).head? = some '(' ↔ (x.dropWhile isBlank).head? = some '(' := by
    have hsame := head?_afterBlanks_append (x := x) hz
    rw [Text.drop_blankLength, Text.drop_blankLength] at hsame
    rw [← beq_iff_eq, hsame, beq_iff_eq]
  rw [EndsHead, EndsHead, hbreaks, ne_eq, ne_eq, hblank]

theorem Written.congr (h : Written v a b) (hv : EndsHead v → EndsHead z) : Written z a b := by
  cases h with
  | call hhead htext => exact .call hhead htext
  | name hhead hother hopening => exact .name hhead hother hopening
  | today hne hname hafter => exact .today hne hname (hv hafter)

theorem endsHead_close (z : List Char) : EndsHead (')' :: z) := .cons (by decide) (by decide) (by decide) z

/-- Where a parenthesis closes that is open before an edit: in front of the edit, or behind it. -/
theorem splitClosing_edit (hwritten : Written v a b) (hquotes : oddQuotes u = false ∨ '\'' ∉ a ++ v)
    (hsplit : splitClosing (u ++ (b ++ v)) = some (inner, after)) :
    (∃ w, u = inner ++ ')' :: w ∧ after = w ++ (b ++ v) ∧ Closed nothing inner) ∨
      ∃ w, v = w ++ ')' :: after ∧ inner = u ++ (b ++ w) ∧ Closed nothing (u ++ (a ++ w)) ∧ oddQuotes u = false := by
  have heq := splitPartner_eq hsplit
  have hclosed := closed_of_splitClosing hsplit
  obtain ⟨-, e, b', hb, he⟩ := hwritten.starts
  obtain ⟨k, hnesting, hnesting'⟩ := hwritten.nesting
  rcases List.append_eq_append_iff.1 heq with ⟨t, rfl, ht⟩ | ⟨t, rfl, ht⟩
  case inr =>
    cases t with
    | nil =>
      rw [hb] at ht
      obtain ⟨rfl, -⟩ := List.cons.inj ht
      exact absurd he (by decide)
    | cons d t =>
      obtain ⟨rfl, rfl⟩ := List.cons.inj ht
      exact .inl ⟨t, rfl, rfl, hclosed⟩
  obtain ⟨⟨depth, open'⟩, hu, hlist⟩ := exists_nesting_of_append hclosed
  have hopen := quoted_of_nesting hu
  rw [Bool.false_xor] at hopen
  dsimp only at hopen hlist
  -- the list goes on behind the edit
  have hbehind (w : List Char) (hv : v = w ++ ')' :: after) (hw : t = b ++ w) : ∃ w, v = w ++ ')' :: after ∧
      u ++ t = u ++ (b ++ w) ∧ Closed nothing (u ++ (a ++ w)) ∧ oddQuotes u = false := by
    subst hw
    have heven : oddQuotes u = false := by
      rcases hquotes with heven | hquote
      · exact heven
      rw [hv] at hquote
      simp only [List.mem_append, not_or] at hquote
      have hodd := quoted_of_nesting hlist
      rw [oddQuotes_append, oddQuotes_of_quoteless (hwritten.quote_notMem hquote.1),
        oddQuotes_of_quoteless hquote.2.1, Bool.xor_false, Bool.xor_false] at hodd
      rw [← hopen]
      exact hodd.symm
    refine ⟨w, hv, rfl, ?_, heven⟩
    rw [heven] at hopen
    subst hopen
    have hshift := nesting_shift depth hnesting
    have hshift' := nesting_shift depth hnesting'
    rw [Nat.zero_add] at hshift hshift'
    rw [nesting_append, hshift', Option.bind_some] at hlist
    rw [Closed, nesting_append, hu, Option.bind_some, nesting_append, hshift]
    exact hlist
  rcases List.append_eq_append_iff.1 ht with ⟨w, hw, hv⟩ | ⟨w, hw, hv⟩
  · exact .inr (hbehind w hv hw)
  cases w with
  | nil => exact .inr (hbehind [] hv.symm (by rw [hw, List.append_nil, List.append_nil]))
  | cons d w =>
    -- a parenthesis that is open before what is written does not close in it
    obtain ⟨rfl, rfl⟩ := List.cons.inj hv
    cases ho : oddQuotes u with
    | true =>
      have hquote : '\'' ∉ b := hwritten.quote_notMem fun hmem =>
        (hquotes.resolve_left (by simp [ho])) (List.mem_append_left _ hmem)
      have hodd := quoted_of_nesting hlist
      rw [hopen, ho, oddQuotes_of_quoteless fun hmem => hquote (by rw [hw]; exact List.mem_append_left _ hmem)] at hodd
      cases hodd
    | false =>
      rw [hopen, ho] at hlist
      rw [hw] at hnesting'
      obtain ⟨⟨depth', quoted'⟩, hstart, hclose⟩ := exists_nesting_of_append hnesting'
      have hshift := nesting_shift depth hstart
      rw [Nat.zero_add, hlist] at hshift
      obtain ⟨hdepth, rfl⟩ := Prod.mk.inj (Option.some.inj hshift)
      obtain rfl : depth' = 0 := by dsimp only at hdepth; omega
      cases hclose

/-- So it closes without the edit too, in front of it or behind it. -/
theorem splitClosing_of_edit (hwritten : Written v a b) (hquotes : oddQuotes u = false ∨ '\'' ∉ a ++ v)
    (hsplit : splitClosing (u ++ (b ++ v)) = some (inner, after)) :
    (∃ w, u = inner ++ ')' :: w ∧ after = w ++ (b ++ v) ∧ oddQuotes inner = false ∧
      splitClosing (u ++ (a ++ v)) = some (inner, w ++ (a ++ v))) ∨
      ∃ w, v = w ++ ')' :: after ∧ inner = u ++ (b ++ w) ∧ oddQuotes u = false ∧
        splitClosing (u ++ (a ++ v)) = some (u ++ (a ++ w), after) := by
  rcases splitClosing_edit hwritten hquotes hsplit with
    ⟨w, rfl, rfl, hclosed⟩ | ⟨w, rfl, rfl, hclosed, heven⟩
  · refine .inl ⟨w, rfl, rfl, hclosed.even, ?_⟩
    rw [List.append_assoc]
    exact splitPartner_closed hclosed _
  · refine .inr ⟨w, rfl, rfl, heven, ?_⟩
    have hlist : splitClosing (u ++ (a ++ w) ++ ')' :: after) = _ := splitPartner_closed hclosed after
    rw [List.append_assoc, List.append_assoc] at hlist
    exact hlist

theorem ne_nil_of_mem_dateCalls (hf : function ∈ dateCalls) : function.toList ≠ [] := by
  have hall : ∀ f ∈ dateCalls, f.toList ≠ [] := by decide
  exact hall function hf

/-- **A call in front of a word does not reach into it.** -/
theorem callHead?_blind {word : List Char} (hword : ∀ l ∈ word, isWord l = true) (hne : word ≠ []) (hu : u ≠ [])
    (hbreaks : breaksBefore (lastOr before u) = true) {d e : Char} (hd : isWord d = true) (he : isWord e = true) :
    callHead? word before (u ++ d :: y) = callHead? word before (u ++ e :: z) := by
  cases hfirst : callHead? word before (u ++ d :: y) with
  | some n =>
    obtain ⟨head, rest, rfl, rfl, -, hany⟩ := exists_head_before hword hne hu hbreaks hd hfirst
    rw [List.append_assoc, hany]
  | none =>
    cases hsecond : callHead? word before (u ++ e :: z) with
    | none => rfl
    | some n =>
      obtain ⟨head, rest, rfl, -, -, hany⟩ := exists_head_before hword hne hu hbreaks he hsecond
      rw [List.append_assoc, hany] at hfirst
      cases hfirst

/-- In front of an edit a call has its head before and after. -/
theorem callHead?_edit (hf : function ∈ dateCalls) (hwritten : Written v a b) (hu : u ≠ [])
    (hbreaks : breaksBefore (lastOr before u) = true) :
    (callHead? function.toList before (u ++ (b ++ v)) = none ∧
      callHead? function.toList before (u ++ (a ++ v)) = none) ∨
    ∃ head rest, u = head ++ rest ∧ IsHead head ∧
      ∀ t, callHead? function.toList before (head ++ t) = some head.length := by
  obtain ⟨⟨d, a, rfl, hd⟩, e, b, rfl, he⟩ := hwritten.starts
  have hword := isWord_dateCalls hf
  have hne := ne_nil_of_mem_dateCalls hf
  cases hafter : callHead? function.toList before (u ++ (e :: b ++ v)) with
  | some n =>
    obtain ⟨head, rest, heq, rfl, hhead, hany⟩ := exists_head_before hword hne hu hbreaks he hafter
    exact .inr ⟨head, rest, heq, hhead, hany⟩
  | none => exact .inl ⟨rfl, (callHead?_blind hword hne hu hbreaks hd he).trans hafter⟩

/-- **An edit brings no argument list:** each one of the edited text was there before, or was there without the
edit that is in it. -/
theorem mem_argumentLists_of_edit (hf : function ∈ dateCalls) (h : Edit before quoted x y)
    (hl : l ∈ argumentListsFrom function.toList before quoted y) :
    l ∈ argumentListsFrom function.toList before quoted x ∨
      ∃ l' ∈ argumentListsFrom function.toList before quoted x, Edit none false l' l := by
  obtain ⟨hwritten, hbreaks, hquotes⟩ := h
  rename_i u a b v
  induction hn : u.length using Nat.strong_induction_on generalizing u v before quoted with
  | _ k ih =>
    by_cases hu : u = []
    · subst hu
      rw [List.nil_append] at hl ⊢
      cases quoted with
      | false => exact .inl (hwritten.mem_argumentLists hf hbreaks hl)
      | true =>
        have hquote : '\'' ∉ a ∧ '\'' ∉ v := by simpa using hquotes.resolve_left (by decide)
        have hquote' : '\'' ∉ b ++ v := by simp [hwritten.quote_notMem hquote.1, hquote.2]
        rw [argumentListsFrom_of_quoteless hquote'] at hl
        cases hl
    rcases callHead?_edit hf hwritten hu hbreaks with ⟨hcall, hcall'⟩ | ⟨head, u, rfl, hhead, hany⟩
    · -- no call starts here
      obtain ⟨c, u, rfl⟩ := List.exists_cons_of_ne_nil hu
      rw [List.cons_append] at hcall hcall' hl ⊢
      rw [argumentListsFrom_cons_none hcall] at hl
      rw [argumentListsFrom_cons_none hcall']
      refine ih u.length (by simp at hn; omega) hwritten hbreaks (hquotes.imp_left fun hodd => ?_) hl rfl
      rw [oddQuotes_cons] at hodd
      rw [← hodd]
      cases hc : c == '\'' <;> simp
    obtain ⟨start, hstart, -⟩ := hhead.eq_concat
    have hquote := quoted_of_nesting hhead.nesting
    have hless : u.length < k := by
      rw [hstart] at hn
      simp only [List.length_append, List.length_singleton] at hn
      omega
    rw [Bool.false_xor] at hquote
    rw [hstart, Text.lastOr_append, Text.lastOr_append] at hbreaks
    rw [oddQuotes_append, ← hquote, Bool.false_xor] at hquotes
    rw [List.append_assoc] at hl ⊢
    cases quoted with
    | true =>
      rw [argumentListsFrom_quoted (hany _), List.drop_left] at hl ⊢
      exact ih u.length hless hwritten hbreaks hquotes hl rfl
    | false =>
      rw [argumentListsFrom_unquoted (hany _), List.drop_left] at hl ⊢
      cases hsplit : splitClosing (u ++ (b ++ v)) with
      | none =>
        rw [hsplit] at hl
        cases hl
      | some p =>
        obtain ⟨inner, after⟩ := p
        rw [hsplit] at hl
        dsimp only at hl
        rw [List.cons_append, List.mem_cons, List.mem_append] at hl
        rcases splitClosing_of_edit hwritten hquotes hsplit with
          ⟨w, rfl, rfl, heven, hsplit'⟩ | ⟨w, rfl, rfl, heven, hsplit'⟩
        · -- the call closes in front of the edit
          rw [hsplit']
          dsimp only
          rw [List.cons_append, List.mem_cons, List.mem_append]
          rcases hl with rfl | hl | hl
          · exact .inl (.inl rfl)
          · exact .inl (.inr (.inl hl))
          · have hbreaks' : breaksBefore (lastOr (some ')') w) = true := by
              rw [Text.lastOr_append] at hbreaks
              exact hbreaks
            rw [oddQuotes_append, heven, Bool.false_xor, oddQuotes_cons] at hquotes
            refine (ih w.length (by simp at hless; omega) hwritten hbreaks' (by simpa using hquotes) hl rfl).imp
              (fun h => .inr (.inr h)) ?_
            rintro ⟨l', hl', hedit⟩
            exact ⟨l', by simp [hl'], hedit⟩
        · -- the edit lies in the list
          have hwritten' : Written w a b := hwritten.congr (endsHead_append (endsHead_close after)).1
          have hbreaks' := breaksBefore_lastOr hbreaks
          rw [hsplit']
          dsimp only
          rw [List.cons_append, List.mem_cons, List.mem_append]
          rcases hl with rfl | hl | hl
          · exact .inr ⟨_, List.mem_cons_self .., .place hwritten' hbreaks' (.inl heven)⟩
          · refine (ih u.length hless hwritten' hbreaks' (.inl heven) hl rfl).imp (fun h => .inr (.inl h)) ?_
            rintro ⟨l', hl', hedit⟩
            exact ⟨l', by simp [hl'], hedit⟩
          · exact .inl (.inr (.inr hl))

end Sql
end CardTransfer
