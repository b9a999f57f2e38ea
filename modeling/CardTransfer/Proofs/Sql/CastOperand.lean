import CardTransfer.Proofs.Sql.Nested
import CardTransfer.Proofs.Sql.Separation

/-!
# Operands of casts

The operand of a cast is a name with dots, a literal, or something in parentheses, perhaps with the name of a
function directly before it (`IsOperand`). In all of them parentheses match (`IsOperand.closed`), no `AS` stands
outside of parentheses and quotes (`splitAs_operand`), and behind them the whole of them is read as the operand
(`splitOperand_operand`).
-/

namespace CardTransfer
namespace Sql

open Text (isBlank isWord)

variable {before name args e p v w x y z type : List Char} {parts : List (List Char)}

/-! ### Shapes -/

/-- Words with dots between them. -/
inductive Dotted : List Char → Prop
  | word {w : List Char} (hne : w ≠ []) (hw : ∀ c ∈ w, isWord c = true) : Dotted w
  | dot {x w : List Char} (h : Dotted x) (hne : w ≠ []) (hw : ∀ c ∈ w, isWord c = true) : Dotted (x ++ '.' :: w)

/-- Stretches of text in quotes, one directly after the other. So a literal is written: where two of them meet,
a doubled quote stands for one in it. -/
def stretches (parts : List (List Char)) : List Char := parts.flatMap fun p => '\'' :: p ++ ['\'']

/-- The operands of casts: names with dots, literals, and calls of functions with the parenthesis directly behind
the name and regular arguments; a call without a name is something in parentheses. -/
inductive IsOperand : List Char → Prop
  | name {x : List Char} (h : Dotted x) : IsOperand x
  | literal {parts : List (List Char)} (hne : parts ≠ []) (h : ∀ p ∈ parts, '\'' ∉ p) : IsOperand (stretches parts)
  | call {name args : List Char} (hname : ∀ c ∈ name, isWord c = true) (hargs : Regular args) :
    IsOperand (callOf name args)

theorem Dotted.isWord_or_dot (h : Dotted x) : ∀ c ∈ x, isWord c = true ∨ c = '.' := by
  induction h with
  | word _ hw => exact fun c hc => .inl (hw c hc)
  | dot _ _ hw ih =>
    intro c hc
    simp only [List.mem_append, List.mem_cons] at hc
    rcases hc with hc | rfl | hc
    · exact ih c hc
    · exact .inr rfl
    · exact .inl (hw c hc)

theorem Dotted.still (h : Dotted x) : ∀ c ∈ x, c ∉ ['\'', '(', ')'] := by
  intro c hc
  rcases h.isWord_or_dot c hc with hword | rfl
  · exact still_of_isWord hword
  · decide

theorem Dotted.isBlank_eq_false (h : Dotted x) : ∀ c ∈ x, isBlank c = false := by
  intro c hc
  rcases h.isWord_or_dot c hc with hword | rfl
  · exact isBlank_of_isWord hword
  · decide

theorem closed_stretches (h : ∀ p ∈ parts, '\'' ∉ p) : Closed nothing (stretches parts) := by
  induction parts with
  | nil => rfl
  | cons p parts ih =>
    rw [List.forall_mem_cons] at h
    exact (closed_quoted h.1).append (ih h.2)

/-- The parentheses of an operand match. -/
theorem IsOperand.closed (h : IsOperand e) : Closed nothing e := by
  cases h with
  | name h => exact nesting_of_still fun c hc => ⟨rfl, h.still c hc⟩
  | literal _ h => exact closed_stretches h
  | call hname hargs =>
    exact closed_callOf (fun c hc => ⟨rfl, still_of_isWord (hname c hc)⟩) fair_nothing hargs.closed

/-- No blanks stand around an operand. -/
theorem IsOperand.trim_eq (h : IsOperand e) : Text.trim e = e := by
  cases h with
  | name h =>
    exact Text.trim_eq_self (fun c hc => h.isBlank_eq_false c (List.mem_of_head? hc))
      fun c hc => h.isBlank_eq_false c (List.mem_of_getLast? hc)
  | literal hne h =>
    refine Text.trim_eq_self (fun c hc => ?_) fun c hc => ?_
    · obtain ⟨p, parts, rfl⟩ := List.exists_cons_of_ne_nil hne
      cases hc
      decide
    · obtain ⟨parts, p, rfl⟩ := (List.eq_nil_or_concat' _).resolve_left hne
      rw [stretches, List.flatMap_append, List.flatMap_singleton, ← List.append_assoc,
        List.getLast?_concat] at hc
      cases hc
      decide
  | @call name args hname =>
    refine Text.trim_eq_self (fun c hc => ?_) fun c hc => ?_
    · cases name with
      | nil =>
        cases hc
        decide
      | cons d name =>
        cases hc
        exact isBlank_of_isWord (hname c (List.mem_cons_self ..))
    · rw [callOf, List.getLast?_concat] at hc
      cases hc
      decide

/-! ### The operand behind colons -/

theorem splitWord_of_isWord (h : ∀ c ∈ w, isWord c = true) (hx : ∀ c, x.head? = some c → isWord c = false) :
    splitWord (w ++ x) = (w, x) := by
  unfold splitWord
  rw [List.takeWhile_append_of_pos h, List.dropWhile_append_of_pos h]
  cases x with
  | nil => simp
  | cons c x => simp [hx c rfl]

theorem takePrimary_word (hne : w ≠ []) (hw : ∀ c ∈ w, isWord c = true)
    (hx : ∀ c, x.head? = some c → isWord c = false) : takePrimary (w.reverse ++ x) = some (w.reverse, x) := by
  obtain ⟨w, c, rfl⟩ := (List.eq_nil_or_concat' w).resolve_left hne
  have hc := hw c (by simp)
  have hmarks : c ∉ ['\'', ')', '"', '\x7d'] := fun hmem => by
    have hall : ∀ d ∈ ['\'', ')', '"', '\x7d'], isWord d = false := by decide
    rw [hall c hmem] at hc
    cases hc
  simp only [List.mem_cons, List.not_mem_nil, or_false, not_or] at hmarks
  have hword := splitWord_of_isWord (w := w.reverse) (x := x)
    (fun d hd => hw d (List.mem_append_left _ (List.mem_reverse.1 hd))) hx
  rw [List.reverse_concat, List.cons_append]
  simp [takePrimary, hmarks, hc, hword]

/-- The whole of a name with dots is read. -/
theorem splitOperand_dotted (h : Dotted x) : splitOperand x.reverse = some (x.reverse, []) := by
  induction h with
  | word hne hw =>
    have hprimary := takePrimary_word hne hw (x := []) nofun
    rw [List.append_nil] at hprimary
    exact splitOperand_of_primary hprimary fun more => (List.cons_ne_nil '.' more).symm
  | @dot x w h hne hw ih =>
    have hdot : isWord '.' = false := by decide
    have hprimary := takePrimary_word (x := '.' :: x.reverse) hne hw (by rintro c ⟨⟩; exact hdot)
    have hsplit : (x ++ '.' :: w).reverse = w.reverse ++ '.' :: x.reverse := by simp
    rw [hsplit, splitOperand_of_dot hprimary, ih]
    rfl

theorem reverse_stretches (parts : List (List Char)) :
    (stretches parts).reverse = stretches (parts.map List.reverse).reverse := by
  induction parts with
  | nil => rfl
  | cons p parts ih =>
    have hcons (p : List Char) (parts : List (List Char)) :
        stretches (p :: parts) = ('\'' :: p ++ ['\'']) ++ stretches parts := rfl
    have happend (parts : List (List Char)) (p : List Char) :
        stretches (parts ++ [p]) = stretches parts ++ ('\'' :: p ++ ['\'']) := by
      simp [stretches]
    rw [hcons, List.reverse_append, ih, List.map_cons, List.reverse_cons, happend]
    simp

theorem splitLiteralStart_append (h : '\'' ∉ p) (x : List Char) :
    splitLiteralStart (p ++ x) = (splitLiteralStart x).map fun q => (p ++ q.1, q.2) := by
  induction p with
  | nil => simp
  | cons c p ih =>
    rw [List.mem_cons, not_or] at h
    rw [List.cons_append, splitLiteralStart, if_neg (by simpa using Ne.symm h.1), ih h.2, Option.map_map]
    · rfl
    · exact fun cs hc => absurd hc.symm h.1

/-- A literal is read backwards up to the quote that opens it, if no quote stands before that. -/
theorem splitLiteralStart_stretches (h : ∀ q ∈ p :: parts, '\'' ∉ q) (hz : z.head? ≠ some '\'') :
    splitLiteralStart (p ++ '\'' :: (stretches parts ++ z)) = some (p ++ '\'' :: stretches parts, z) := by
  induction parts generalizing p with
  | nil =>
    have hclose : splitLiteralStart ('\'' :: z) = some (['\''], z) := by
      cases z with
      | nil => rfl
      | cons c z =>
        rw [splitLiteralStart, if_pos (beq_self_eq_true _)]
        exact fun _ _ heq => hz (by rw [(List.cons.inj heq).1]; rfl)
    rw [splitLiteralStart_append (h p (List.mem_cons_self ..))]
    exact congrArg (Option.map _) hclose
  | cons q parts ih =>
    rw [List.forall_mem_cons] at h
    have hpair : splitLiteralStart ('\'' :: '\'' :: (q ++ '\'' :: (stretches parts ++ z))) =
        some ('\'' :: '\'' :: (q ++ '\'' :: stretches parts), z) := by
      rw [splitLiteralStart, ih h.2]
      rfl
    have hcons : stretches (q :: parts) = '\'' :: (q ++ '\'' :: stretches parts) := by
      simp [stretches]
    rw [hcons, List.cons_append, List.append_assoc, List.cons_append, splitLiteralStart_append h.1, hpair]
    rfl

/-- The whole of a literal is read, and no further. -/
theorem splitOperand_stretches (hne : parts ≠ []) (h : ∀ p ∈ parts, '\'' ∉ p) (hz : z.head? ≠ some '\'')
    (hdot : z.head? ≠ some '.') :
    splitOperand ((stretches parts).reverse ++ z) = some ((stretches parts).reverse, z) := by
  have hreverse : ∀ p ∈ (parts.map List.reverse).reverse, '\'' ∉ p := fun p hp => by
    obtain ⟨q, hq, rfl⟩ := List.mem_map.1 (List.mem_reverse.1 hp)
    simpa using h q hq
  obtain ⟨p, rest, heq⟩ := List.exists_cons_of_ne_nil (by simpa using hne : (parts.map List.reverse).reverse ≠ [])
  rw [heq] at hreverse
  have hcons : stretches (p :: rest) = '\'' :: (p ++ '\'' :: stretches rest) := by
    simp [stretches]
  have hprimary : takePrimary (stretches (p :: rest) ++ z) = some (stretches (p :: rest), z) := by
    rw [hcons, List.cons_append, List.append_assoc, List.cons_append]
    simp only [takePrimary, beq_self_eq_true, if_true]
    rw [splitLiteralStart_stretches hreverse hz]
    rfl
  rw [reverse_stretches, heq]
  exact splitOperand_of_primary hprimary fun more hmore => hdot (by rw [hmore]; rfl)

/-- Backwards, the parenthesis that opens a closed text is found. -/
theorem splitPartner_reverse {bad : Bool → Char → Bool} {depth : Nat} {quoted : Bool}
    (h : nesting bad 0 false x = some (depth, quoted)) (z : List Char) :
    splitPartner ')' '(' depth quoted (x.reverse ++ '(' :: z) = some (x.reverse, z) := by
  induction x using List.reverseRecOn generalizing depth quoted with
  | nil =>
    cases h
    rfl
  | append_singleton x c ih =>
    obtain ⟨⟨depth', quoted'⟩, hx, hc⟩ := exists_nesting_of_append h
    have hlater := ih hx
    rw [List.reverse_concat, List.cons_append]
    unfold nesting at hc
    unfold splitPartner
    split_ifs at hc with hbad hquote hquoted hopen hclose hdepth
    · cases hc
      rw [if_pos hquote, Bool.not_not, hlater]
      rfl
    · cases hc
      subst hquoted
      rw [if_neg hquote, if_pos rfl, hlater]
      rfl
    · cases hc
      have hne : ¬(c == ')') = true := by
        rw [beq_iff_eq.1 hopen]
        decide
      rw [if_neg hquote, if_neg hquoted, if_neg hne, if_pos hopen]
      dsimp only
      rw [hlater]
      rfl
    · cases hc
      rw [if_neg hquote, if_neg hquoted, if_pos hclose, Nat.sub_add_cancel (by omega), hlater]
      rfl
    · cases hc
      rw [if_neg hquote, if_neg hquoted, if_neg hclose, if_neg hopen, hlater]
      rfl

/-- A call is read with the name that stands directly before its parenthesis, and no further. -/
theorem splitOperand_callOf (hname : ∀ c ∈ name, isWord c = true) (hargs : Closed nothing args)
    (hw : ∀ c, w.head? = some c → isWord c = false ∧ c ≠ '.') :
    splitOperand ((callOf name args).reverse ++ w) = some ((callOf name args).reverse, w) := by
  have hword := splitWord_of_isWord (fun c hc => hname c (List.mem_reverse.1 hc)) fun c hc => (hw c hc).1
  have hreverse : (callOf name args).reverse ++ w = ')' :: (args.reverse ++ '(' :: (name.reverse ++ w)) := by
    simp [callOf]
  have hfound : splitOpening (args.reverse ++ '(' :: (name.reverse ++ w)) =
      some (args.reverse, name.reverse ++ w) :=
    splitPartner_reverse hargs _
  have hprimary : takePrimary ((callOf name args).reverse ++ w) = some ((callOf name args).reverse, w) := by
    rw [hreverse]
    simp [takePrimary, hfound, hword, callOf]
  refine splitOperand_of_primary hprimary fun more heq => ?_
  exact (hw '.' (by rw [heq]; rfl)).2 rfl

/-- **Behind an operand the whole of it is read.** -/
theorem splitOperand_operand (h : IsOperand e) : splitOperand e.reverse = some (e.reverse, []) := by
  cases h with
  | name h => exact splitOperand_dotted h
  | literal hne h =>
    have hread := splitOperand_stretches (z := []) hne h nofun nofun
    rwa [List.append_nil] at hread
  | call hname hargs =>
    have hcall := splitOperand_callOf (w := []) hname hargs.closed nofun
    rwa [List.append_nil] at hcall

/-! ### `AS` behind an operand -/

theorem asLength?_of_head {c : Char} (hc : isBlank c = false) (x : List Char) : asLength? (c :: x) = none := by
  have hgap : Text.blankLength (c :: x) = 0 := by simp [Text.blankLength, hc]
  simp [asLength?, hgap]

/-- `AS` lies before a character that is no part of it. -/
theorem asLength?_le {n : Nat} {c : Char} (hc : c ∈ ['\'', '(', ')']) (h : asLength? (x ++ c :: y) = some n) :
    n ≤ x.length := by
  have hstill := still_of_asLength? h
  by_contra hlong
  refine hstill c ?_ hc
  rw [List.take_append]
  obtain ⟨k, hk⟩ : ∃ k, n - x.length = k + 1 := ⟨n - x.length - 1, by omega⟩
  rw [hk, List.take_succ_cons]
  simp

/-- `AS` between parentheses does not count. -/
theorem splitAs_args {skip depth : Nat} {quoted : Bool} (h : nesting nothing depth quoted args = some (0, false))
    (hle : skip ≤ args.length) (hskip : ∀ c ∈ args.take skip, c ∉ ['\'', '(', ')']) (v : List Char) :
    splitAs skip (depth + 1) quoted before (args ++ ')' :: v) =
      splitAs 0 0 false (')' :: (args.reverse ++ before)) v := by
  induction args generalizing skip depth quoted before with
  | nil =>
    cases h
    cases Nat.le_zero.1 hle
    rw [List.nil_append, splitAs, asLength?_of_head (by decide)]
    rfl
  | cons c args ih =>
    obtain ⟨⟨depth', quoted'⟩, hc, hlater⟩ := exists_nesting_of_append (x := [c]) h
    have hreverse : (c :: args).reverse ++ before = args.reverse ++ c :: before := by simp
    rw [List.cons_append, hreverse]
    have hstill {skip : Nat} (hmarks : c ∉ ['\'', '(', ')']) (hle : skip ≤ args.length)
        (hskip : ∀ c ∈ args.take skip, c ∉ ['\'', '(', ')']) :
        splitAs skip (depth + 1) quoted (c :: before) (args ++ ')' :: v) =
          splitAs 0 0 false (')' :: (args.reverse ++ c :: before)) v := by
      cases eq_of_nesting_of_still (by simpa using hmarks) hc
      exact ih hlater hle hskip
    cases skip with
    | succ skip =>
      rw [List.take_succ_cons, List.forall_mem_cons] at hskip
      rw [splitAs]
      exact hstill hskip.1 (Nat.le_of_succ_le_succ hle) hskip.2
    | zero =>
      rw [splitAs]
      cases hn : asLength? (c :: (args ++ ')' :: v)) with
      | some n =>
        -- the word lies in the parentheses, and is skipped there
        have hshort := asLength?_le (x := c :: args) (by simp) hn
        have hmarks := still_of_asLength? hn
        obtain ⟨m, rfl⟩ : ∃ m, n = m + 1 := ⟨n - 1, by have := asLength?_pos hn; omega⟩
        rw [List.length_cons] at hshort
        rw [List.take_succ_cons, List.forall_mem_cons, List.take_append_of_le_length (by omega)] at hmarks
        have hplace : (quoted || ((depth : Int) + 1 != 0)) = true := by
          rw [Bool.or_eq_true, bne_iff_ne]
          exact .inr (by omega)
        dsimp only
        rw [if_pos hplace, Nat.add_sub_cancel]
        exact hstill hmarks.1 (by omega) hmarks.2
      | none =>
        have hread {depth' : Nat} {quoted' : Bool} (ht : nesting nothing depth' quoted' args = some (0, false)) :
            splitAs 0 (depth' + 1) quoted' (c :: before) (args ++ ')' :: v) =
              splitAs 0 0 false (')' :: (args.reverse ++ c :: before)) v :=
          ih ht (Nat.zero_le _) (List.forall_mem_nil _)
        dsimp only
        unfold nesting at hc
        simp only [nothing, Bool.false_eq_true, if_false] at hc
        split_ifs at hc ⊢ with hquote hquoted hopen hclose hdepth
        · cases hc
          exact hread hlater
        · cases hc
          exact hread hlater
        · cases hc
          exact hread hlater
        · cases hc
          have hless : (depth : Int) + 1 - 1 = (depth - 1 : Nat) + 1 := by omega
          rw [hless]
          exact hread hlater
        · cases hc
          exact hread hlater

theorem splitAs_quote {skip : Nat} (hp : '\'' ∉ p) (hle : skip ≤ p.length) (v : List Char) :
    splitAs skip 0 true before (p ++ '\'' :: v) = splitAs 0 0 false ('\'' :: (p.reverse ++ before)) v := by
  induction p generalizing skip before with
  | nil =>
    cases Nat.le_zero.1 hle
    rw [List.nil_append, splitAs, asLength?_of_head (by decide)]
    rfl
  | cons c p ih =>
    rw [List.mem_cons, not_or] at hp
    have hreverse : (c :: p).reverse ++ before = p.reverse ++ c :: before := by simp
    rw [List.cons_append, hreverse]
    cases skip with
    | succ skip =>
      rw [splitAs]
      exact ih hp.2 (Nat.le_of_succ_le_succ hle)
    | zero =>
      rw [splitAs]
      cases hn : asLength? (c :: (p ++ '\'' :: v)) with
      | some n =>
        have hshort := asLength?_le (x := c :: p) (by simp) hn
        rw [List.length_cons] at hshort
        exact ih hp.2 (by omega)
      | none =>
        dsimp only
        rw [if_neg (by simpa using Ne.symm hp.1), if_pos rfl]
        exact ih hp.2 (Nat.zero_le _)

/-- `AS` in a literal does not count. -/
theorem splitAs_stretches (h : ∀ p ∈ parts, '\'' ∉ p) (v : List Char) :
    splitAs 0 0 false before (stretches parts ++ v) =
      splitAs 0 0 false ((stretches parts).reverse ++ before) v := by
  induction parts generalizing before with
  | nil => rfl
  | cons p parts ih =>
    rw [List.forall_mem_cons] at h
    have hcons : stretches (p :: parts) = '\'' :: (p ++ '\'' :: stretches parts) := by
      simp [stretches]
    have hquote (z : List Char) : splitAs 0 0 false before ('\'' :: z) = splitAs 0 0 true ('\'' :: before) z := by
      rw [splitAs, asLength?_of_head (by decide)]
      rfl
    rw [hcons, List.cons_append, hquote, List.append_assoc, List.cons_append, splitAs_quote h.1 (Nat.zero_le _),
      ih h.2]
    simp

/-- Without blanks there is no `AS`. -/
theorem splitAs_still (h : ∀ c ∈ x, isBlank c = false ∧ c ∉ ['\'', '(', ')']) (v : List Char) :
    splitAs 0 0 false before (x ++ v) = splitAs 0 0 false (x.reverse ++ before) v := by
  induction x generalizing before with
  | nil => rfl
  | cons c x ih =>
    rw [List.forall_mem_cons] at h
    obtain ⟨⟨hblank, hmarks⟩, hlater⟩ := h
    simp only [List.mem_cons, List.not_mem_nil, or_false, not_or] at hmarks
    rw [List.cons_append, splitAs, asLength?_of_head hblank]
    simp only [beq_iff_eq, hmarks, Bool.false_eq_true, if_false]
    rw [ih hlater]
    simp

/-- **No `AS` is found in an operand.** -/
theorem splitAs_operand (h : IsOperand e) (v : List Char) :
    splitAs 0 0 false before (e ++ v) = splitAs 0 0 false (e.reverse ++ before) v := by
  cases h with
  | name h => exact splitAs_still (fun c hc => ⟨h.isBlank_eq_false c hc, h.still c hc⟩) v
  | literal _ h => exact splitAs_stretches h v
  | @call name args hname hargs =>
    have hsplit : callOf name args ++ v = name ++ '(' :: (args ++ ')' :: v) := by simp [callOf]
    have hopen (before z : List Char) :
        splitAs 0 0 false before ('(' :: z) = splitAs 0 ((0 : Nat) + 1) false ('(' :: before) z := by
      rw [splitAs, asLength?_of_head (by decide)]
      rfl
    have hinside : splitAs 0 ((0 : Nat) + 1) false ('(' :: (name.reverse ++ before)) (args ++ ')' :: v) = _ :=
      splitAs_args hargs.closed (Nat.zero_le _) (List.forall_mem_nil _) v
    rw [hsplit, splitAs_still fun c hc => ⟨isBlank_of_isWord (hname c hc), still_of_isWord (hname c hc)⟩, hopen]
    simpa [callOf] using hinside

end Sql
end CardTransfer

/-!
## Casts in an operand

The rules of casts make an operand of an operand (`IsOperand.convertCasts`, `IsOperand.convertPostfixCasts`). What
they do to it does not depend on what stands around it: a name and a literal are passed over, and in a call the
casts are converted between the parentheses (`convertCasts_callOf`, `convertPostfixFrom_callOf`), unless it is a
`CAST` itself and becomes another call (`convertCasts_cast`). Postfix casts in an operand are converted once and
for all.
-/

namespace CardTransfer
namespace Sql

open Text (isWord lastOr breaksBefore)

variable {before name args e p v w x y z : List Char} {parts : List (List Char)}

/-! ### Calls of `CAST` -/

section

variable {word : List Char} {handler : List Char → Option (List Char)} {previous : Option Char}

/-- Without a parenthesis there is no call. -/
theorem replaceCallsFrom_of_parenless (hword : ∀ l ∈ word, isWord l = true) (h : '(' ∉ x) (quoted : Bool) :
    replaceCallsFrom word handler previous quoted x = x := by
  induction x generalizing previous quoted with
  | nil => rw [replaceCallsFrom]
  | cons c x ih =>
    have hnone : callHead? word previous (c :: x) = none := by
      rw [Option.eq_none_iff_forall_ne_some]
      intro n hn
      obtain ⟨head, rest, heq, -⟩ := exists_head hword hn
      exact h (by rw [heq]; simp)
    rw [replaceCallsFrom_cons_none hnone, ih fun hc => h (List.mem_cons_of_mem _ hc)]

theorem callHead?_quote (hword : ∀ l ∈ word, isWord l = true) (hne : word ≠ []) (z : List Char) :
    callHead? word previous ('\'' :: z) = none := by
  obtain ⟨l, word, rfl⟩ := List.exists_cons_of_ne_nil hne
  have hfold := quoteless_of_isWord hword l (List.mem_cons_self ..)
  simp [callHead?, Text.wordThen?, Text.word?, Text.startsWith, hfold]

/-- Calls in quotes are left alone. -/
theorem replaceCallsFrom_quote (hword : ∀ l ∈ word, isWord l = true) (hne : word ≠ []) (h : '\'' ∉ p)
    (z : List Char) : replaceCallsFrom word handler previous true (p ++ '\'' :: z) =
      p ++ '\'' :: replaceCallsFrom word handler (some '\'') false z := by
  induction hn : p.length using Nat.strong_induction_on generalizing p previous with
  | _ n ih =>
    subst hn
    cases p with
    | nil =>
      rw [List.nil_append, replaceCallsFrom_cons_none (callHead?_quote hword hne z)]
      rfl
    | cons c p =>
      cases hhead : callHead? word previous (c :: p ++ '\'' :: z) with
      | none =>
        rw [List.mem_cons, not_or] at h
        rw [List.cons_append] at hhead ⊢
        rw [replaceCallsFrom_cons_none hhead, if_neg (by simpa using Ne.symm h.1),
          ih p.length (Nat.lt_succ_self _) h.2 rfl, List.cons_append]
      | some n =>
        -- the head lies before the quote that closes
        obtain ⟨head, rest, heq, rfl, hchars⟩ := exists_head hword hhead
        rw [List.append_cons head] at heq
        have hquote : '\'' ∉ head ++ ['('] := by
          intro hmem
          rcases List.mem_append.1 hmem with hmem | hmem
          · exact ((hchars _ hmem).elim still_of_isWord still_of_isBlank) (List.mem_cons_self ..)
          · exact absurd hmem (by decide)
        obtain ⟨q, hp⟩ : ∃ q, c :: p = head ++ ['('] ++ q := by
          rcases List.append_eq_append_iff.1 heq with ⟨a, ha, hz⟩ | ⟨a, ha, -⟩
          · cases a with
            | nil => exact ⟨[], by rw [ha, List.append_nil, List.append_nil]⟩
            | cons d a =>
              cases hz
              exact absurd (by rw [ha]; simp) hquote
          · exact ⟨a, ha⟩
        have hlength : head.length + 1 = (head ++ ['(']).length := by simp
        have hless : q.length < (c :: p).length := by
          rw [hp, List.length_append, ← hlength]
          omega
        rw [replaceCallsFrom_quoted hhead, hp, List.append_assoc, hlength, List.take_left, List.drop_left,
          ih q.length hless (fun hq => h (by rw [hp]; exact List.mem_append_right _ hq)) rfl]
        simp only [List.append_assoc]

theorem replaceCallsFrom_stretches (hword : ∀ l ∈ word, isWord l = true) (hne : word ≠ [])
    (h : ∀ p ∈ parts, '\'' ∉ p) :
    replaceCallsFrom word handler previous false (stretches parts) = stretches parts := by
  induction parts generalizing previous with
  | nil => exact replaceCallsFrom_of_parenless hword List.not_mem_nil false
  | cons p parts ih =>
    rw [List.forall_mem_cons] at h
    have hcons : stretches (p :: parts) = '\'' :: (p ++ '\'' :: stretches parts) := by
      simp [stretches]
    rw [hcons, replaceCallsFrom_cons_none (callHead?_quote hword hne _)]
    exact congrArg _ ((replaceCallsFrom_quote hword hne h.1 _).trans (by rw [ih h.2]))

/-- Behind a part of a word no call starts. -/
theorem callHead?_of_isWord {c : Char} (hc : isWord c = true) (x : List Char) : callHead? word (some c) x = none :=
  if_neg (by simp [breaksBefore, hc])

/-- The name in front of a parenthesis is the name of the call or none is. -/
theorem replaceCallsFrom_name (hname : ∀ c ∈ name, isWord c = true)
    (h : callHead? word previous (name ++ '(' :: z) = none) :
    replaceCallsFrom word handler previous false (name ++ '(' :: z) =
      name ++ '(' :: replaceCallsFrom word handler (some '(') false z := by
  induction name generalizing previous with
  | nil =>
    rw [List.nil_append] at h ⊢
    rw [replaceCallsFrom_cons_none h]
    rfl
  | cons d name ih =>
    rw [List.forall_mem_cons] at hname
    have hquote : ¬(d == '\'') = true := by
      rw [beq_iff_eq]
      rintro rfl
      exact absurd hname.1 (by decide)
    rw [List.cons_append] at h ⊢
    rw [replaceCallsFrom_cons_none h, if_neg hquote, ih hname.2 (callHead?_of_isWord hname.1 _)]
    rfl

end

/-- A closed text in parentheses is found as a whole. -/
theorem splitPartner_closed {bad : Bool → Char → Bool} {depth : Nat} {quoted : Bool}
    (h : nesting bad depth quoted x = some (0, false)) (v : List Char) :
    splitPartner '(' ')' depth quoted (x ++ ')' :: v) = some (x, v) := by
  induction x generalizing depth quoted with
  | nil =>
    cases h
    rfl
  | cons c x ih =>
    rw [List.cons_append]
    unfold nesting at h
    unfold splitPartner
    split_ifs at h with hbad hquote hquoted hopen hclose hdepth
    · rw [if_pos hquote, ih h]
      rfl
    · subst hquoted
      rw [if_neg hquote, if_pos rfl, ih h]
      rfl
    · rw [if_neg hquote, if_neg hquoted, if_pos hopen, ih h]
      rfl
    · obtain ⟨k, rfl⟩ := Nat.exists_eq_succ_of_ne_zero hdepth
      rw [if_neg hquote, if_neg hquoted, if_neg hopen, if_pos hclose]
      exact congrArg (Option.map fun q => (c :: q.1, q.2)) (ih h)
    · rw [if_neg hquote, if_neg hquoted, if_neg hopen, if_neg hclose, ih h]
      rfl

/-- The letters of `CAST`. -/
theorem isWord_cast : ∀ l ∈ "cast".toList, isWord l = true := by decide

/-- In a call of another function the calls of `CAST` are replaced between the parentheses. -/
theorem convertCasts_callOf (hname : ∀ c ∈ name, isWord c = true) (hargs : Closed nothing args)
    (hhead : callHead? "cast".toList none (callOf name args) = none) :
    convertCasts (callOf name args) = callOf name (convertCasts args) := by
  have hsplit (args : List Char) : callOf name args = name ++ '(' :: (args ++ [')']) := by simp [callOf]
  have hends : EndsHead [')'] := by decide
  have hclose : '(' ∉ [')'] := by decide
  have hopen : breaksBefore (some '(') = breaksBefore none := by decide
  have hinner : replaceCallsFrom "cast".toList castCall? (some '(') false (args ++ [')']) =
      convertCasts args ++ [')'] := by
    rw [replaceCallsFrom_append_of_nesting isWord_cast hends hargs, replaceCallsFrom_of_parenless isWord_cast
      hclose, replaceCallsFrom_congr hopen]
    rfl
  rw [hsplit] at hhead ⊢
  rw [convertCasts, replaceCalls, replaceCallsFrom_name hname hhead, hinner, hsplit]

/-- In a `CAST` the handler sees what stands between the parentheses. -/
theorem convertCasts_cast {n : Nat} (hname : ∀ c ∈ name, isWord c = true) (hargs : Closed nothing args)
    (hhead : callHead? "cast".toList none (callOf name args) = some n) :
    convertCasts (callOf name args) =
      (castCall? (convertCasts args)).getD (callOf name (convertCasts args)) := by
  have hsplit (args : List Char) : callOf name args = name ++ '(' :: (args ++ [')']) := by simp [callOf]
  rw [hsplit] at hhead
  obtain ⟨head, rest, heq, rfl, hchars⟩ := exists_head isWord_cast hhead
  have hopen : '(' ∉ name := fun hmem => still_of_isWord (hname _ hmem) (by simp)
  have hopen' : '(' ∉ head := fun hmem =>
    (hchars _ hmem).elim (fun h => still_of_isWord h (by simp)) fun h => still_of_isBlank h (by simp)
  obtain ⟨rfl, rfl⟩ := Text.eq_of_append_cons hopen hopen' heq
  have hlength : name.length + 1 = (name ++ ['(']).length := by simp
  have hdrop : (name ++ '(' :: (args ++ [')'])).drop (name.length + 1) = args ++ [')'] := by
    rw [List.append_cons, hlength, List.drop_left]
  have htake : (name ++ '(' :: (args ++ [')'])).take (name.length + 1) = name ++ ['('] := by
    rw [List.append_cons, hlength, List.take_left]
  have hclosing : splitClosing ((name ++ '(' :: (args ++ [')'])).drop (name.length + 1)) = some (args, []) := by
    rw [hdrop]
    exact splitPartner_closed hargs []
  rw [hsplit, hsplit, convertCasts, replaceCalls, replaceCallsFrom_call hhead hclosing, htake,
    replaceCallsFrom_of_parenless isWord_cast List.not_mem_nil, List.append_nil]
  simp [convertCasts, replaceCalls]

/-- What is written for a `CAST` is a call with a part of what stood in it. -/
theorem exists_of_castCall? {text : List Char} (hx : Regular x) (h : castCall? x = some text) :
    ∃ function ∈ functions, ∃ operand, Regular operand ∧ text = callOf function operand := by
  obtain ⟨⟨operand, type⟩, hsplit, function, hfunction, rfl⟩ : ∃ p : List Char × List Char,
      splitAs 0 0 false [] x = some p ∧ ∃ function, conversion? p.2 = some function ∧
        callOf function (Text.trim p.1) = text := by
    simpa [castCall?, Option.bind_eq_some_iff] using h
  obtain ⟨marks, hx⟩ := hx
  have hoperand : Closed (irregular marks) operand :=
    closed_of_splitAs (n := 0) hsplit rfl (List.forall_mem_nil _) hx
  exact ⟨function, mem_functions hfunction, Text.trim operand,
    ⟨marks, (closed_trim_iff (fair_irregular marks)).2 hoperand⟩, rfl⟩

theorem Regular.convertCasts (h : Regular x) : Regular (convertCasts x) := by
  obtain ⟨marks, h⟩ := h
  exact ⟨marks, closed_convertCasts (fair_irregular marks) h⟩

/-- `CAST` calls make a call of a call. -/
theorem exists_convertCasts_call (hname : ∀ c ∈ name, isWord c = true) (hargs : Regular args) :
    ∃ name' args', (∀ c ∈ name', isWord c = true) ∧ Regular args' ∧
      convertCasts (callOf name args) = callOf name' args' := by
  cases hhead : callHead? "cast".toList none (callOf name args) with
  | none => exact ⟨name, convertCasts args, hname, hargs.convertCasts, convertCasts_callOf hname hargs.closed hhead⟩
  | some n =>
    rw [convertCasts_cast hname hargs.closed hhead]
    cases hhandler : castCall? (convertCasts args) with
    | none => exact ⟨name, convertCasts args, hname, hargs.convertCasts, rfl⟩
    | some text =>
      obtain ⟨function, hfunction, operand, hoperand, rfl⟩ := exists_of_castCall? hargs.convertCasts hhandler
      exact ⟨function, operand, (isWord_functions hfunction).2, hoperand, rfl⟩

/-- **`CAST` calls make an operand of an operand.** -/
theorem IsOperand.convertCasts (h : IsOperand e) : IsOperand (convertCasts e) := by
  cases h with
  | name h =>
    have hopen : '(' ∉ e := fun hmem => h.still _ hmem (by simp)
    have hrun : Sql.convertCasts e = e := replaceCallsFrom_of_parenless isWord_cast hopen false
    rw [hrun]
    exact .name h
  | @literal parts hne h =>
    have hrun : Sql.convertCasts (stretches parts) = stretches parts :=
      replaceCallsFrom_stretches isWord_cast (by decide) h
    rw [hrun]
    exact .literal hne h
  | call hname hargs =>
    obtain ⟨name', args', hname', hargs', hrun⟩ := exists_convertCasts_call hname hargs
    rw [hrun]
    exact .call hname' hargs'

/-! ### Postfix casts -/

theorem convertPostfixFrom_of_colonless (h : ':' ∉ x) (v : List Char) :
    convertPostfixFrom before (x ++ v) = convertPostfixFrom (x.reverse ++ before) v := by
  induction x generalizing before with
  | nil => rfl
  | cons c x ih =>
    rw [List.mem_cons, not_or] at h
    have hnone : castAt? before (c :: (x ++ v)) = none := castAt?_of_ne fun _ heq => h.1 (List.cons.inj heq).1.symm
    rw [List.cons_append, convertPostfixFrom_stays hnone, ih h.2]
    simp

/-- Casts in quotes are left alone. -/
theorem convertPostfixFrom_stretches (h : ∀ p ∈ parts, '\'' ∉ p) (hbefore : oddQuotes before = false)
    (v : List Char) : convertPostfixFrom before (stretches parts ++ v) =
      convertPostfixFrom ((stretches parts).reverse ++ before) v := by
  have hinside {p before : List Char} (hp : '\'' ∉ p) (hodd : oddQuotes before = true) (z : List Char) :
      convertPostfixFrom before (p ++ z) = convertPostfixFrom (p.reverse ++ before) z := by
    induction p generalizing before with
    | nil => rfl
    | cons c p ih =>
      rw [List.mem_cons, not_or] at hp
      have hlater : oddQuotes (c :: before) = true := by
        rw [oddQuotes_cons, hodd, beq_eq_false_iff_ne.2 (Ne.symm hp.1)]
        rfl
      rw [List.cons_append, convertPostfixFrom_stays (castAt?_of_odd hodd _), ih hp.2 hlater]
      simp
  have hquote {before : List Char} (z : List Char) :
      convertPostfixFrom before ('\'' :: z) = convertPostfixFrom ('\'' :: before) z :=
    convertPostfixFrom_stays (castAt?_of_ne fun _ => nofun)
  induction parts generalizing before with
  | nil => rfl
  | cons p parts ih =>
    rw [List.forall_mem_cons] at h
    have hcons : stretches (p :: parts) = '\'' :: (p ++ '\'' :: stretches parts) := by
      simp [stretches]
    have hodd : oddQuotes ('\'' :: before) = true := by
      rw [oddQuotes_cons, hbefore]
      rfl
    have heven : oddQuotes ('\'' :: (p.reverse ++ '\'' :: before)) = false := by
      rw [oddQuotes_cons, oddQuotes_append, hodd, oddQuotes, List.count_reverse, List.count_eq_zero.2 h.1]
      rfl
    rw [hcons, List.cons_append, hquote, List.append_assoc, hinside h.1 hodd, List.cons_append, hquote,
      ih h.2 heven]
    simp

theorem IsFront.even (h : IsFront w) : oddQuotes w = false :=
  oddQuotes_of_quoteless (h '\'' (List.mem_cons_self ..))

theorem isFront_of_isWord (hname : ∀ c ∈ name, isWord c = true) (h : IsFront w) : IsFront (name.reverse ++ w) := by
  intro c hc hmem
  have hall : ∀ c ∈ ['\'', '"', '\x7b'], isWord c = false := by decide
  rcases List.mem_append.1 hmem with hmem | hmem
  · have hword := hname c (List.mem_reverse.1 hmem)
    rw [hall c hc] at hword
    cases hword
  · exact h c hc hmem

/-- Between the parentheses of a call casts are converted apart from what stands around it. -/
theorem convertPostfixFrom_callOf (hname : ∀ c ∈ name, isWord c = true) (hargs : Regular args)
    (hw : IsFront w) (v : List Char) : convertPostfixFrom w (callOf name args ++ v) =
      convertPostfixFrom ((callOf name (convertPostfixCasts args)).reverse ++ w) v := by
  have hcolon : ':' ∉ name ++ ['('] := by
    intro hmem
    rcases List.mem_append.1 hmem with hmem | hmem
    · exact absurd (hname _ hmem) (by decide)
    · exact absurd hmem (by decide)
  have hsplit : callOf name args ++ v = (name ++ ['(']) ++ (args ++ ')' :: v) := by simp [callOf]
  obtain ⟨marks, hargs⟩ := hargs
  have hframe := convertPostfixFrom_frame (isFront_of_isWord hname hw) [] args rfl hargs v
  rw [hsplit, convertPostfixFrom_of_colonless hcolon]
  simpa [callOf, convertPostfixCasts] using hframe

/-- Reading goes on behind an operand, with its casts converted, whatever stands around it. -/
def Converts (e e' : List Char) : Prop :=
  ∀ w v, IsFront w → convertPostfixFrom w (e ++ v) = convertPostfixFrom (e'.reverse ++ w) v

theorem Converts.convertPostfixCasts_eq (h : Converts e x) : convertPostfixCasts e = x := by
  have hrun := h [] [] fun _ _ => List.not_mem_nil
  rw [List.append_nil, List.append_nil, convertPostfixFrom_nil, List.reverse_reverse] at hrun
  exact hrun

/-- **Postfix casts make an operand of an operand**, apart from what stands around it and once and for all. -/
theorem IsOperand.convertPostfixCasts (h : IsOperand e) : IsOperand (convertPostfixCasts e) ∧
    Converts e (Sql.convertPostfixCasts e) ∧
      Converts (Sql.convertPostfixCasts e) (Sql.convertPostfixCasts e) := by
  suffices hexists : ∃ e', IsOperand e' ∧ Converts e e' ∧ Converts e' e' by
    obtain ⟨e', he', hrun, hagain⟩ := hexists
    rw [hrun.convertPostfixCasts_eq]
    exact ⟨he', hrun, hagain⟩
  cases h with
  | name h =>
    have hcolon : ':' ∉ e := fun hmem => (h.isWord_or_dot _ hmem).elim (fun hword => absurd hword (by decide))
      fun hdot => absurd hdot (by decide)
    have hrun : Converts e e := fun w v _ => convertPostfixFrom_of_colonless hcolon v
    exact ⟨e, .name h, hrun, hrun⟩
  | @literal parts hne h =>
    have hrun : Converts (stretches parts) (stretches parts) := fun w v hw =>
      convertPostfixFrom_stretches h hw.even v
    exact ⟨_, .literal hne h, hrun, hrun⟩
  | @call name args hname hargs =>
    refine ⟨callOf name (Sql.convertPostfixCasts args), .call hname hargs.convertPostfixCasts,
      fun w v hw => convertPostfixFrom_callOf hname hargs hw v, fun w v hw => ?_⟩
    rw [convertPostfixFrom_callOf hname hargs.convertPostfixCasts hw v, convertPostfixCasts_idem hargs]

end Sql
end CardTransfer
