import CardTransfer.Proofs.Sql.Call
import CardTransfer.Proofs.Sql.Operand

/-!
# Texts whose parentheses match

Depth and quotes are counted through a text as the search for a partner counts them (`nesting`); a text is
`Closed` if every parenthesis has its partner in it and its quotes are even in number. In such a text the
partner of every parenthesis is found (`exists_splitClosing`, `exists_splitOpening`), whatever stands around
the text.

So calls are replaced in a closed text apart from what follows it (`replaceCallsFrom_closed`), and it stays
closed if the handler keeps that (`nesting_replaceCallsFrom`).
-/

namespace CardTransfer
namespace Sql

open Text (breaksBefore lastOr)

variable {bad : Bool → Char → Bool} {depth : Nat} {quoted : Bool} {s : Nat × Bool}
  {x y inner after : List Char}

/-! ### Counting -/

/-- The number of parentheses open after a text, and whether quotes are. A closing parenthesis needs an open
one; `bad` tells which characters may not stand inside of quotes, and which outside of them. -/
def nesting (bad : Bool → Char → Bool) : (depth : Nat) → (quoted : Bool) → List Char → Option (Nat × Bool)
  | depth, quoted, [] => some (depth, quoted)
  | depth, quoted, c :: cs =>
    if bad quoted c then none
    else if c == '\'' then nesting bad depth (!quoted) cs
    else if quoted then nesting bad depth quoted cs
    else if c == '(' then nesting bad (depth + 1) quoted cs
    else if c == ')' then if depth = 0 then none else nesting bad (depth - 1) quoted cs
    else nesting bad depth quoted cs

/-- Every parenthesis has its partner in the text, the quotes are even in number, and nothing bad stands
there. -/
def Closed (bad : Bool → Char → Bool) (x : List Char) : Prop := nesting bad 0 false x = some (0, false)

instance : Decidable (Closed bad x) := inferInstanceAs (Decidable (_ = _))

theorem nesting_append (x y : List Char) : nesting bad depth quoted (x ++ y) =
    (nesting bad depth quoted x).bind fun s => nesting bad s.1 s.2 y := by
  fun_induction nesting bad depth quoted x <;> simp_all [nesting]

/-- The parentheses open before a text stay open. -/
theorem nesting_shift (k : Nat) (h : nesting bad depth quoted x = some s) :
    nesting bad (depth + k) quoted x = some (s.1 + k, s.2) := by
  fun_induction nesting bad depth quoted x with
  | case1 =>
    cases h
    rfl
  | case2 => cases h
  | case3 _ _ _ _ hbad hquote ih =>
    rw [nesting, if_neg hbad, if_pos hquote]
    exact ih h
  | case4 _ _ _ hbad hquote ih =>
    rw [nesting, if_neg hbad, if_neg hquote, if_pos rfl]
    exact ih h
  | case5 _ _ _ _ hbad hquote hquoted hopen ih =>
    rw [nesting, if_neg hbad, if_neg hquote, if_neg hquoted, if_pos hopen, Nat.add_right_comm]
    exact ih h
  | case6 => cases h
  | case7 _ _ _ _ hbad hquote hquoted hopen hclose hdepth ih =>
    rw [nesting, if_neg hbad, if_neg hquote, if_neg hquoted, if_neg hopen, if_pos hclose,
      if_neg (by omega), Nat.sub_add_comm (by omega)]
    exact ih h
  | case8 _ _ _ _ hbad hquote hquoted hopen hclose ih =>
    rw [nesting, if_neg hbad, if_neg hquote, if_neg hquoted, if_neg hopen, if_neg hclose]
    exact ih h

/-- Quotes are open after an odd number of them. -/
theorem quoted_of_nesting (h : nesting bad depth quoted x = some s) : s.2 = (quoted ^^ oddQuotes x) := by
  fun_induction nesting bad depth quoted x with
  | case1 =>
    cases h
    exact (Bool.xor_false _).symm
  | case2 => cases h
  | case3 _ quoted _ cs _ hquote ih =>
    rw [ih h, oddQuotes_cons, hquote]
    cases quoted <;> cases oddQuotes cs <;> rfl
  | case4 _ _ _ hquote _ ih => rw [ih h, oddQuotes_cons, Bool.eq_false_iff.2 hquote, Bool.xor_false]
  | case5 _ _ _ _ _ hquote _ _ ih => rw [ih h, oddQuotes_cons, Bool.eq_false_iff.2 hquote, Bool.xor_false]
  | case6 => cases h
  | case7 _ _ _ _ _ hquote _ _ _ _ ih =>
    rw [ih h, oddQuotes_cons, Bool.eq_false_iff.2 hquote, Bool.xor_false]
  | case8 _ _ _ _ _ hquote _ _ _ ih =>
    rw [ih h, oddQuotes_cons, Bool.eq_false_iff.2 hquote, Bool.xor_false]

theorem Closed.even (h : Closed bad x) : oddQuotes x = false := by
  simpa using (quoted_of_nesting h).symm

/-- Within other parentheses nothing changes. -/
theorem Closed.nesting_eq (h : Closed bad x) (depth : Nat) :
    nesting bad depth false x = some (depth, false) := by
  simpa using nesting_shift depth h

theorem Closed.append (hx : Closed bad x) (hy : Closed bad y) : Closed bad (x ++ y) := by
  rw [Closed, nesting_append, hx]
  exact hy

/-- What stands between closed texts in a closed text is closed. -/
theorem Closed.of_append {z : List Char} (h : Closed bad (x ++ y ++ z)) (hx : Closed bad x) (hz : Closed bad z) :
    Closed bad y := by
  rw [Closed, nesting_append, nesting_append, hx, Option.bind_some] at h
  obtain ⟨⟨open', quoted⟩, hy, hend⟩ := Option.bind_eq_some_iff.1 h
  have hquotes := quoted_of_nesting hend
  rw [hz.even, Bool.xor_false] at hquotes
  cases hquotes
  rw [hz.nesting_eq] at hend
  cases hend
  exact hy

/-- A character that neither opens nor closes anything does not count. -/
theorem nesting_of_still (h : ∀ c ∈ x, bad quoted c = false ∧ c ∉ ['\'', '(', ')']) :
    nesting bad depth quoted x = some (depth, quoted) := by
  induction x with
  | nil => rfl
  | cons c x ih =>
    obtain ⟨hbad, hmarks⟩ := h c (List.mem_cons_self ..)
    simp only [List.mem_cons, List.not_mem_nil, or_false, not_or] at hmarks
    have hlater := ih fun d hd => h d (List.mem_cons_of_mem _ hd)
    simp [nesting, hbad, hmarks, hlater]

theorem eq_of_nesting_of_still (hx : ∀ c ∈ x, c ∉ ['\'', '(', ')'])
    (h : nesting bad depth quoted x = some s) : s = (depth, quoted) := by
  induction x with
  | nil =>
    cases h
    rfl
  | cons c x ih =>
    have hmarks := hx c (List.mem_cons_self ..)
    simp only [List.mem_cons, List.not_mem_nil, or_false, not_or] at hmarks
    simp only [nesting, beq_iff_eq, hmarks, if_false, ite_self] at h
    split at h
    · cases h
    · exact ih (fun d hd => hx d (List.mem_cons_of_mem _ hd)) h

/-- What stands before a place in a text has a count. -/
theorem exists_nesting_of_append (h : nesting bad depth quoted (x ++ y) = some s) : ∃ t : Nat × Bool,
    nesting bad depth quoted x = some t ∧ nesting bad t.1 t.2 y = some s := by
  rw [nesting_append] at h
  exact Option.bind_eq_some_iff.1 h

/-! ### Partners -/

/-- What a search for the closing parenthesis finds is closed, and behind it one less is open. -/
theorem nesting_of_splitPartner (hsplit : splitPartner '(' ')' depth quoted x = some (inner, after))
    {outer : Nat} (h : nesting bad (outer + depth + 1) quoted x = some s) :
    nesting bad depth quoted inner = some (0, false) ∧ nesting bad outer false after = some s := by
  induction x generalizing depth quoted inner with
  | nil => cases hsplit
  | cons c cs ih =>
    unfold splitPartner at hsplit
    unfold nesting at h
    have hlater {depth : Nat} {quoted : Bool}
        (hsplit : (splitPartner '(' ')' depth quoted cs).map (fun p => (c :: p.1, p.2)) = some (inner, after))
        (h : nesting bad (outer + depth + 1) quoted cs = some s) : ∃ inner', inner = c :: inner' ∧
          nesting bad depth quoted inner' = some (0, false) ∧ nesting bad outer false after = some s := by
      obtain ⟨p, hp, he⟩ := Option.map_eq_some_iff.1 hsplit
      cases he
      exact ⟨p.1, rfl, ih hp h⟩
    split_ifs at h with hbad hquote hquoted hopen hclose
    · rw [if_pos hquote] at hsplit
      obtain ⟨inner', rfl, hinner, hafter⟩ := hlater hsplit h
      rw [nesting, if_neg hbad, if_pos hquote]
      exact ⟨hinner, hafter⟩
    · subst hquoted
      rw [if_neg hquote, if_pos rfl] at hsplit
      obtain ⟨inner', rfl, hinner, hafter⟩ := hlater hsplit h
      rw [nesting, if_neg hbad, if_neg hquote, if_pos rfl]
      exact ⟨hinner, hafter⟩
    · rw [if_neg hquote, if_neg hquoted, if_pos hopen] at hsplit
      obtain ⟨inner', rfl, hinner, hafter⟩ := hlater hsplit h
      rw [nesting, if_neg hbad, if_neg hquote, if_neg hquoted, if_pos hopen]
      exact ⟨hinner, hafter⟩
    · rw [if_neg hquote, if_neg hquoted, if_neg hopen, if_pos hclose] at hsplit
      rw [Bool.not_eq_true] at hquoted
      subst hquoted
      cases depth with
      | zero =>
        cases hsplit
        exact ⟨rfl, h⟩
      | succ depth =>
        obtain ⟨inner', rfl, hinner, hafter⟩ := hlater hsplit h
        rw [nesting, if_neg hbad, if_neg hquote, if_neg Bool.false_ne_true, if_neg hopen, if_pos hclose]
        exact ⟨hinner, hafter⟩
    · rw [if_neg hquote, if_neg hquoted, if_neg hopen, if_neg hclose] at hsplit
      obtain ⟨inner', rfl, hinner, hafter⟩ := hlater hsplit h
      rw [nesting, if_neg hbad, if_neg hquote, if_neg hquoted, if_neg hopen, if_neg hclose]
      exact ⟨hinner, hafter⟩

/-- A parenthesis whose partner is not found stays open. -/
theorem lt_of_splitPartner_eq_none (hsplit : splitPartner '(' ')' depth quoted x = none)
    {outer : Nat} (h : nesting bad (outer + depth + 1) quoted x = some s) : outer < s.1 := by
  induction x generalizing depth quoted with
  | nil =>
    cases h
    dsimp only
    omega
  | cons c cs ih =>
    unfold splitPartner at hsplit
    unfold nesting at h
    split_ifs at h hsplit with hbad hquote hquoted hopen hclose
    · exact ih (Option.map_eq_none_iff.1 hsplit) h
    · exact ih (Option.map_eq_none_iff.1 hsplit) h
    · exact ih (Option.map_eq_none_iff.1 hsplit) h
    · cases depth with
      | zero => cases hsplit
      | succ depth => exact ih (Option.map_eq_none_iff.1 hsplit) h
    · exact ih (Option.map_eq_none_iff.1 hsplit) h

/-- **An opening parenthesis has its partner in a text after which no more are open than before it.** -/
theorem exists_splitClosing (h : nesting bad (depth + 1) false x = some s) (hle : s.1 ≤ depth) :
    ∃ inner after, splitClosing x = some (inner, after) ∧ Closed bad inner ∧
      nesting bad depth false after = some s := by
  cases hsplit : splitClosing x with
  | none => exact absurd (lt_of_splitPartner_eq_none hsplit h) (by omega)
  | some p => exact ⟨p.1, p.2, rfl, nesting_of_splitPartner hsplit h⟩

/-- Read backwards, an open parenthesis is found at the depth at which it was opened. -/
theorem exists_splitPartner_reverse {k : Nat} (h : nesting bad 0 false x = some (depth, quoted))
    (hk : k < depth) : ∃ inner outer, x = outer ++ '(' :: inner ∧
      splitPartner ')' '(' k quoted x.reverse = some (inner.reverse, outer.reverse) ∧
      nesting bad 0 false outer = some (depth - k - 1, false) := by
  induction x using List.reverseRecOn generalizing k depth quoted with
  | nil =>
    cases h
    cases hk
  | append_singleton x c ih =>
    obtain ⟨⟨before, open'⟩, hx, hc⟩ := exists_nesting_of_append h
    have hlater {k : Nat} (hk : k < before) : ∃ inner outer, x ++ [c] = outer ++ '(' :: inner ∧
        (splitPartner ')' '(' k open' x.reverse).map (fun p => (c :: p.1, p.2)) =
          some (inner.reverse, outer.reverse) ∧ nesting bad 0 false outer = some (before - k - 1, false) := by
      obtain ⟨inner, outer, rfl, hsplit, houter⟩ := ih hx hk
      exact ⟨inner ++ [c], outer, by simp, by rw [hsplit]; simp, houter⟩
    rw [List.reverse_concat]
    unfold nesting at hc
    unfold splitPartner
    split_ifs at hc with hbad hquote hquoted hopen hclose hdepth
    · cases hc
      rw [if_pos hquote, Bool.not_not]
      exact hlater hk
    · cases hc
      subst hquoted
      rw [if_neg hquote, if_pos rfl]
      exact hlater hk
    · cases hc
      have hne : ¬(c == ')') = true := by
        rw [beq_iff_eq.1 hopen]
        decide
      rw [if_neg hquote, if_neg hquoted, if_neg hne, if_pos hopen]
      cases k with
      | zero =>
        rw [Bool.not_eq_true] at hquoted
        subst hquoted
        cases beq_iff_eq.1 hopen
        exact ⟨[], x, rfl, rfl, hx⟩
      | succ k =>
        obtain ⟨inner, outer, heq, hsplit, houter⟩ := hlater (k := k) (by omega)
        exact ⟨inner, outer, heq, hsplit, by rw [houter]; congr 2; omega⟩
    · cases hc
      rw [if_neg hquote, if_neg hquoted, if_pos hclose]
      obtain ⟨inner, outer, heq, hsplit, houter⟩ := hlater (k := k + 1) (by omega)
      exact ⟨inner, outer, heq, hsplit, by rw [houter]; congr 2; omega⟩
    · cases hc
      have hlast := hlater hk
      rw [if_neg hquote, if_neg hquoted, if_neg hclose, if_neg hopen]
      exact hlast

/-- **A closing parenthesis has its partner before it in a text where one is open.** -/
theorem exists_splitOpening (h : nesting bad 0 false x = some (depth + 1, false)) : ∃ inner outer,
    x = outer ++ '(' :: inner ∧ splitOpening x.reverse = some (inner.reverse, outer.reverse) ∧
      nesting bad 0 false outer = some (depth, false) :=
  exists_splitPartner_reverse h (Nat.succ_pos _)

/-! ### Heads of calls -/

/-- Whether no head of a call goes on into a text: it does not start with a part of a word, nor with blanks
and a parenthesis. -/
def EndsHead (x : List Char) : Prop :=
  Text.breaksAfter x = true ∧ (x.dropWhile Text.isBlank).head? ≠ some '('

instance : Decidable (EndsHead x) := inferInstanceAs (Decidable (_ ∧ _))

theorem isWord_of_foldsTo {l c : Char} (hl : Text.isWord l = true) (h : Text.foldsTo l c = true) :
    Text.isWord c = true := by
  unfold Text.foldsTo at h
  simp only [Bool.or_eq_true, Bool.and_eq_true, beq_iff_eq] at h
  rcases h with ((((rfl | h) | ⟨-, rfl | rfl⟩) | ⟨-, rfl⟩) | ⟨-, rfl⟩)
  · exact hl
  · unfold Char.toLower at h
    split at h
    · rename_i hupper
      have hle : c.toNat ≤ 90 := hupper.2
      have hcase : c.isUpper = true := decide_eq_true hupper
      rw [Text.isWord, Text.isAlphanumeric_of_ascii c (by omega), Char.isAlphanum]
      change ((c.isUpper || c.isLower) || c.isDigit || _) = true
      rw [hcase]
      rfl
    · rwa [h]
  all_goals decide +kernel

theorem still_of_isWord {c : Char} (h : Text.isWord c = true) : c ∉ ['\'', '(', ')'] := by
  intro hmem
  revert h
  simp only [List.mem_cons, List.not_mem_nil, or_false] at hmem
  rcases hmem with rfl | rfl | rfl <;> decide

theorem still_of_isBlank {c : Char} (h : Text.isBlank c = true) : c ∉ ['\'', '(', ')'] := by
  intro hmem
  revert h
  simp only [List.mem_cons, List.not_mem_nil, or_false] at hmem
  rcases hmem with rfl | rfl | rfl <;> decide

theorem foldsTo_of_endsHead {word : List Char} (hword : ∀ l ∈ word, Text.isWord l = true) {d : Char}
    (hy : EndsHead (d :: y)) : ∀ l ∈ word, Text.foldsTo l d = false := by
  intro l hl
  by_contra hfold
  have hd := isWord_of_foldsTo (hword l hl) (by simpa using hfold)
  have hbreaks := hy.1
  simp [Text.breaksAfter, hd] at hbreaks

theorem startsWith_append {word : List Char} (hword : ∀ l ∈ word, Text.isWord l = true) (hy : EndsHead y) :
    Text.startsWith word (x ++ y) = Text.startsWith word x := by
  cases y with
  | nil => rw [List.append_nil]
  | cons d y => exact Text.startsWith_append_cons (foldsTo_of_endsHead hword hy)

/-- Blanks do not lead over to a parenthesis. -/
theorem head?_afterBlanks_append (hy : EndsHead y) :
    (((x ++ y).drop (Text.blankLength (x ++ y))).head? == some '(') =
      ((x.drop (Text.blankLength x)).head? == some '(') := by
  rw [Text.drop_blankLength, Text.drop_blankLength, List.dropWhile_append]
  split
  · rename_i hblank
    rw [List.isEmpty_iff.1 hblank, beq_eq_false_iff_ne.2 hy.2]
    rfl
  · rename_i hrest
    cases hx : x.dropWhile Text.isBlank with
    | nil => simp [hx] at hrest
    | cons c rest => rfl

theorem blankLength_append (h : (x.drop (Text.blankLength x)).head? = some '(') :
    Text.blankLength (x ++ y) = Text.blankLength x := by
  rw [Text.drop_blankLength] at h
  unfold Text.blankLength
  rw [List.takeWhile_append]
  split
  · rename_i hall
    -- the text would be blank
    have hsplit := congrArg List.length (List.takeWhile_append_dropWhile (p := Text.isBlank) (l := x))
    rw [List.length_append, hall] at hsplit
    have hnil : x.dropWhile Text.isBlank = [] := List.eq_nil_of_length_eq_zero (by omega)
    rw [hnil] at h
    cases h
  · rfl

/-- No head of a call goes on into such a text. -/
theorem callHead?_append {word : List Char} {before : Option Char} (hword : ∀ l ∈ word, Text.isWord l = true)
    (hy : EndsHead y) : callHead? word before (x ++ y) = callHead? word before x := by
  unfold callHead? Text.wordThen? Text.word?
  rw [startsWith_append hword hy]
  cases hx : Text.startsWith word x with
  | false => rfl
  | true =>
    have hle := Text.length_le_of_startsWith hx
    simp only [↓reduceIte, Option.bind_eq_bind, Option.bind_some]
    rw [← List.drop_drop, ← List.drop_drop, List.drop_append_of_le_length hle, head?_afterBlanks_append hy]
    by_cases hopen : (((x.drop word.length).drop (Text.blankLength (x.drop word.length))).head? == some '(') = true
    · rw [if_pos hopen, if_pos hopen, blankLength_append (beq_iff_eq.1 hopen)]
    · rw [if_neg hopen, if_neg hopen]

/-- A head is a name, blanks and the parenthesis. -/
theorem exists_head {word : List Char} {before : Option Char} {n : Nat} (hword : ∀ l ∈ word, Text.isWord l = true)
    (h : callHead? word before x = some n) : ∃ head rest, x = head ++ '(' :: rest ∧ n = head.length + 1 ∧
      ∀ c ∈ head, Text.isWord c = true ∨ Text.isBlank c = true := by
  unfold callHead? at h
  split at h
  case isFalse => cases h
  obtain ⟨spelt, gap, rest, rfl, rfl, hspelt, hgap⟩ := Text.wordThen?_eq_some h
  refine ⟨spelt ++ gap, rest, rfl, List.length_append, fun c hc => ?_⟩
  rcases List.mem_append.1 hc with hc | hc
  · obtain ⟨l, hl, hfold⟩ := hspelt c hc
    exact .inl (isWord_of_foldsTo (hword l hl) hfold)
  · exact .inr (hgap c hc)

/-! ### Calls -/

section

variable {word : List Char} {handler : List Char → Option (List Char)} {before : Option Char} {n : Nat}

theorem exists_cons_of_callHead? (h : callHead? word before x = some n) : ∃ c rest, x = c :: rest := by
  cases x with
  | nil => simp [callHead?, Text.wordThen?] at h
  | cons c rest => exact ⟨c, rest, rfl⟩

theorem replaceCallsFrom_quoted (h : callHead? word before x = some n) :
    replaceCallsFrom word handler before true x =
      x.take n ++ replaceCallsFrom word handler (some '(') true (x.drop n) := by
  obtain ⟨c, rest, rfl⟩ := exists_cons_of_callHead? h
  rw [replaceCallsFrom]
  split
  · rename_i hn
    rw [h] at hn
    cases hn
  · rename_i hn
    rw [h] at hn
    cases hn
    rfl

theorem replaceCallsFrom_call (h : callHead? word before x = some n)
    (hsplit : splitClosing (x.drop n) = some (inner, after)) :
    replaceCallsFrom word handler before false x =
      (handler (replaceCallsFrom word handler none false inner)).getD
        (x.take n ++ replaceCallsFrom word handler none false inner ++ [')']) ++
          replaceCallsFrom word handler (some ')') false after := by
  obtain ⟨c, rest, rfl⟩ := exists_cons_of_callHead? h
  rw [replaceCallsFrom]
  split
  · rename_i hn
    rw [h] at hn
    cases hn
  · rename_i hn
    rw [h] at hn
    cases hn
    simp only [Bool.false_eq_true, ↓reduceIte]
    split
    · rename_i hs
      rw [hsplit] at hs
      cases hs
    · rename_i hs
      rw [hsplit] at hs
      cases hs
      rfl

theorem exists_nesting_tail {c : Char} (h : nesting bad depth quoted (c :: x) = some s) : ∃ depth',
    ∀ z, nesting bad depth quoted (c :: z) = nesting bad depth' (if c == '\'' then !quoted else quoted) z := by
  unfold nesting at h
  split_ifs at h with hbad hquote hquoted hopen hclose hdepth
  · exact ⟨depth, fun z => by rw [nesting, if_neg hbad, if_pos hquote, if_pos hquote]⟩
  · exact ⟨depth, fun z => by rw [nesting, if_neg hbad, if_neg hquote, if_pos hquoted, if_neg hquote]⟩
  · exact ⟨depth + 1, fun z => by
      rw [nesting, if_neg hbad, if_neg hquote, if_neg hquoted, if_pos hopen, if_neg hquote]⟩
  · exact ⟨depth - 1, fun z => by
      rw [nesting, if_neg hbad, if_neg hquote, if_neg hquoted, if_neg hopen, if_pos hclose, if_neg hdepth,
        if_neg hquote]⟩
  · exact ⟨depth, fun z => by
      rw [nesting, if_neg hbad, if_neg hquote, if_neg hquoted, if_neg hopen, if_neg hclose, if_neg hquote]⟩

/-- A head opens its parenthesis. -/
theorem nesting_afterHead (hword : ∀ l ∈ word, Text.isWord l = true) (hhead : callHead? word before x = some n)
    (h : nesting bad depth quoted x = some s) :
    nesting bad depth quoted (x.take n) = some (if quoted then depth else depth + 1, quoted) ∧
      nesting bad (if quoted then depth else depth + 1) quoted (x.drop n) = some s := by
  obtain ⟨head, rest, rfl, rfl, hchars⟩ := exists_head hword hhead
  have hstill : ∀ c ∈ head, c ∉ ['\'', '(', ')'] := fun c hc =>
    (hchars c hc).elim still_of_isWord still_of_isBlank
  rw [List.append_cons, List.take_left' (by simp), List.drop_left' (by simp)]
  rw [List.append_cons] at h
  obtain ⟨t, ht, hrest⟩ := exists_nesting_of_append h
  obtain ⟨u, hu, hopen⟩ := exists_nesting_of_append ht
  cases eq_of_nesting_of_still hstill hu
  have hstate : t = (if quoted then depth else depth + 1, quoted) := by
    simp only [nesting, Char.reduceBEq, Bool.false_eq_true, ↓reduceIte] at hopen
    split_ifs at hopen ⊢ <;> cases hopen <;> rfl
  subst hstate
  exact ⟨ht, hrest⟩

theorem lastOr_head (hword : ∀ l ∈ word, Text.isWord l = true) (hhead : callHead? word before x = some n) :
    lastOr before x = lastOr (some '(') (x.drop n) ∧ n ≤ x.length := by
  obtain ⟨head, rest, rfl, rfl, -⟩ := exists_head hword hhead
  rw [List.append_cons, List.drop_left' (by simp), Text.lastOr_append, Text.lastOr_append]
  exact ⟨rfl, by simp⟩

/-- **Calls are replaced in a closed text apart from what follows it.** -/
theorem replaceCallsFrom_append_of_nesting (hword : ∀ l ∈ word, Text.isWord l = true) (hy : EndsHead y)
    (h : nesting bad depth quoted x = some (0, false)) :
    replaceCallsFrom word handler before quoted (x ++ y) =
      replaceCallsFrom word handler before quoted x ++
        replaceCallsFrom word handler (lastOr before x) false y := by
  fun_induction replaceCallsFrom word handler before quoted x generalizing depth with
  | case1 before quoted =>
    cases h
    rfl
  | case2 before quoted c rest hn ih =>
    obtain ⟨depth', htail⟩ := exists_nesting_tail h
    rw [htail] at h
    have hnone : callHead? word before (c :: (rest ++ y)) = none := by
      rw [← List.cons_append, callHead?_append hword hy]
      exact hn
    simp only [dite_eq_ite] at ih
    rw [List.cons_append, replaceCallsFrom_cons_none hnone, ih h]
    rfl
  | case3 =>
    rename_i before c rest n hn head ih
    have hrest := (nesting_afterHead hword hn h).2
    obtain ⟨hlast, hle⟩ := lastOr_head hword hn
    have hcall : callHead? word before (c :: rest ++ y) = some n := by rwa [callHead?_append hword hy]
    rw [replaceCallsFrom_quoted hcall, List.take_append_of_le_length hle,
      List.drop_append_of_le_length hle, ih hrest, hlast, List.append_assoc]
  | case4 before quoted c rest n hn hq hs =>
    obtain rfl : quoted = false := Bool.eq_false_iff.2 hq
    obtain ⟨inner, after, hfound, -⟩ := exists_splitClosing (nesting_afterHead hword hn h).2 (Nat.zero_le _)
    rw [hfound] at hs
    cases hs
  | case5 =>
    rename_i before quoted c rest n hn head hq inner after hs arguments ih₁ ih₂
    obtain rfl : quoted = false := Bool.eq_false_iff.2 hq
    obtain ⟨hlast, hle⟩ := lastOr_head hword hn
    have hafter := (nesting_of_splitPartner hs (nesting_afterHead hword hn h).2).2
    have hcall : callHead? word before (c :: rest ++ y) = some n := by rwa [callHead?_append hword hy]
    have hsplit : splitClosing ((c :: rest ++ y).drop n) = some (inner, after ++ y) := by
      rw [List.drop_append_of_le_length hle]
      exact splitPartner_line hs
    have hend : lastOr before (c :: rest) = lastOr (some ')') after := by
      rw [hlast, splitPartner_eq hs, Text.lastOr_append]
      rfl
    rw [replaceCallsFrom_call hcall hsplit, ih₂ hafter, hend, List.take_append_of_le_length hle,
      ← List.append_assoc]

/-- **The replacement of calls keeps what is open,** if the handler keeps closed texts closed. -/
theorem nesting_replaceCallsFrom (hword : ∀ l ∈ word, Text.isWord l = true)
    (hkeeps : ∀ inner text, handler inner = some text → Closed bad inner → Closed bad text)
    (h : nesting bad depth quoted x = some s) :
    nesting bad depth quoted (replaceCallsFrom word handler before quoted x) = some s := by
  fun_induction replaceCallsFrom word handler before quoted x generalizing depth s with
  | case1 before quoted => exact h
  | case2 before quoted c rest hn ih =>
    obtain ⟨depth', htail⟩ := exists_nesting_tail h
    rw [htail] at h ⊢
    simp only [dite_eq_ite] at ih
    exact ih h
  | case3 =>
    rename_i before c rest n hn head ih
    obtain ⟨hhead, hrest⟩ := nesting_afterHead hword hn h
    rw [nesting_append, hhead]
    exact ih hrest
  | case4 before quoted c rest n hn hq hs => exact h
  | case5 =>
    rename_i before quoted c rest n hn head hq inner after hs arguments ih₁ ih₂
    obtain rfl : quoted = false := Bool.eq_false_iff.2 hq
    obtain ⟨hhead, hrest⟩ := nesting_afterHead hword hn h
    obtain ⟨hinner, hafter⟩ := nesting_of_splitPartner hs hrest
    have harguments : Closed bad arguments := ih₁ hinner
    have hreplaced : nesting bad depth false ((handler arguments).getD (head ++ arguments ++ [')'])) =
        some (depth, false) := by
      cases hr : handler arguments with
      | none =>
        -- the call stays, and its parenthesis closes
        rw [splitPartner_eq hs] at hrest
        obtain ⟨t, ht, hclose⟩ := exists_nesting_of_append hrest
        have hinner' : nesting bad (depth + 1) false inner = _ := Closed.nesting_eq hinner (depth + 1)
        cases ht.symm.trans hinner'
        have hbad : bad false ')' = false := by
          by_contra hbad
          rw [nesting, if_pos (by simpa using hbad)] at hclose
          cases hclose
        have hargs : nesting bad (depth + 1) false arguments = _ := harguments.nesting_eq (depth + 1)
        simp [nesting_append, head, hhead, hargs, nesting, hbad]
      | some text => exact (hkeeps _ _ hr harguments).nesting_eq depth
    rw [nesting_append, hreplaced]
    exact ih₂ hafter

end

end Sql
end CardTransfer
