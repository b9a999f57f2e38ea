import CardTransfer.Proofs.Sql.LiteralFate
import CardTransfer.Sql.Dialect

/-!
# Literals and parentheses under the rules

The rules take no literal apart and join none (`literals_applyRules`): in a query with an even number of quotes
and without the marks of quoted names and placeholders (`Unmarked`), the literals after all rules are those
before them, apart from the units and the types that `literalFates` marks; and parentheses that are balanced
outside of literals stay balanced.

Of a postfix cast the operand is read backwards, and without those marks it does not begin inside of a literal
(`even_splitOperand`). A name is exchanged between literals, in a stretch that is neither emptied nor given a quote
(`respects_mapOutside`), so that two literals never come together.
-/

namespace CardTransfer
namespace Sql

open Text (isBlank isWord)

variable {cs x y z before taken rest earlier later : List Char} {depth : Nat} {quoted : Bool} {s : Nat × Bool}

/-! ### What is kept -/

/-- The parentheses outside of literals have their partners. -/
def Balanced (cs : List Char) : Prop := Closed nothing (outside cs).flatten

instance : Decidable (Balanced cs) := inferInstanceAs (Decidable (Closed ..))

/-- A text without the marks of quoted names and of placeholders. -/
def Unmarked (cs : List Char) : Prop := ∀ c ∈ cs, c ∉ ['"', '\x7b', '\x7d']

instance : Decidable (Unmarked cs) := inferInstanceAs (Decidable (∀ c ∈ cs, _))

/-- A text that has the literals of another, and parentheses that have their partners where those of the other
have. -/
structure Respects (x y : List Char) : Prop where
  even : oddQuotes y = false
  literals : literals y = literals x
  closed : Closed nothing x → Closed nothing y

theorem Respects.trans (h : Respects x y) (h' : Respects y z) : Respects x z :=
  ⟨h'.even, h'.literals.trans h.literals, fun hx => h'.closed (h.closed hx)⟩

/-- Nothing is opened or closed by a literal. -/
theorem nesting_literal {w : List Char} (h : closing? w = some w.length) (depth : Nat) :
    nesting nothing depth true w = some (depth, false) := by
  fun_induction closing? w with
  | case1 => cases h
  | case2 cs m hm ih =>
    obtain rfl : m = cs.length := by simpa using h
    exact ih hm
  | case3 cs hm ih => simp at h
  | case4 c cs hc hq =>
    obtain rfl : cs = [] := by simpa using h
    obtain rfl := beq_iff_eq.1 hq
    rfl
  | case5 c cs hc hq ih =>
    obtain ⟨m, hm, hlength⟩ := Option.map_eq_some_iff.1 h
    obtain rfl : m = cs.length := by simpa using hlength
    rw [nesting, if_neg (by simp [nothing]), if_neg hq, if_pos rfl]
    exact ih hm

/-- The characters outside of literals. -/
theorem flatten_outside (cs : List Char) : (outside cs).flatten = (Text.scan literalRule cs).flatMap fun
    | .plain c => [c]
    | .found _ _ => [] := by
  have hruns (run : List Char) (pieces : List (Text.Piece Unit)) : (runs run pieces).flatten =
      run.reverse ++ pieces.flatMap fun
        | .plain c => [c]
        | .found _ _ => [] := by
    induction pieces generalizing run with
    | nil => simp [runs]
    | cons piece pieces ih => cases piece <;> simp [runs, ih]
  exact hruns [] _

/-- **Parentheses are counted outside of literals.** -/
theorem nesting_outside (heven : oddQuotes cs = false) (depth : Nat) :
    nesting nothing depth false (outside cs).flatten = nesting nothing depth false cs := by
  induction hn : cs.length using Nat.strong_induction_on generalizing cs depth with
  | _ n ih =>
    have hquoteless {u : List Char} (hu : '\'' ∉ u) : ((Text.scan literalRule u).flatMap fun
        | .plain c => [c]
        | .found _ _ => []) = u := by
      rw [scan_of_quoteless hu, List.flatMap_map]
      exact List.flatMap_singleton' u
    by_cases hmem : '\'' ∈ cs
    · obtain ⟨u, w, rest, rfl, hu, hw, hhead, hrest⟩ := exists_literal heven hmem
      have hlater : ∀ depth, nesting nothing depth false (outside rest).flatten = nesting nothing depth false rest :=
        fun depth => ih rest.length (by simp at hn; omega) hrest depth rfl
      have hscan : (outside (u ++ '\'' :: (w ++ rest))).flatten = u ++ (outside rest).flatten := by
        rw [flatten_outside, flatten_outside, scan_append (oddQuotes_of_quoteless hu)
          (.inl fun h => hu (List.mem_of_getLast? h)), ← List.cons_append, scan_append (oddQuotes_literal hw)
          (.inr hhead), scan_literal hw, List.flatMap_append, List.flatMap_append, hquoteless hu]
        rfl
      rw [hscan, nesting_append, nesting_append]
      cases hcount : nesting nothing depth false u with
      | none => rfl
      | some t =>
        obtain ⟨depth', quoted⟩ := t
        have hquoted := quoted_of_nesting hcount
        rw [oddQuotes_of_quoteless hu, Bool.xor_false] at hquoted
        subst hquoted
        have hopen : nesting nothing depth' false ('\'' :: (w ++ rest)) = nesting nothing depth' true (w ++ rest) := rfl
        rw [Option.bind_some, Option.bind_some, hlater, hopen, nesting_append, nesting_literal hw, Option.bind_some]
    · rw [flatten_outside, hquoteless hmem]

theorem closed_iff_balanced (heven : oddQuotes cs = false) : Closed nothing cs ↔ Balanced cs := by
  rw [Balanced, Closed, Closed, nesting_outside heven]

/-! ### Postfix casts -/

/-- No quote stands before the quote that opens a literal. -/
theorem head?_splitLiteralStart (h : splitLiteralStart cs = some (taken, rest)) : rest.head? ≠ some '\'' := by
  fun_induction splitLiteralStart cs generalizing taken rest with
  | case1 => cases h
  | case2 cs ih =>
    obtain ⟨p, hp, he⟩ := Option.map_eq_some_iff.1 h
    cases he
    exact ih hp
  | case3 c cs hc hq =>
    cases h
    intro hhead
    obtain ⟨v, rfl⟩ := List.head?_eq_some_iff.1 hhead
    exact hc v (beq_iff_eq.1 hq) rfl
  | case4 c cs hc hq ih =>
    obtain ⟨p, hp, he⟩ := Option.map_eq_some_iff.1 h
    cases he
    exact ih hp

/-- What stands between partners has an even number of quotes. -/
theorem oddQuotes_splitPartner {opens closes : Char} (h : splitPartner opens closes depth quoted cs = some (taken, rest)) :
    oddQuotes taken = quoted := by
  induction cs generalizing depth quoted taken with
  | nil => cases h
  | cons c cs ih =>
    have hlater {depth : Nat} {quoted : Bool}
        (h : (splitPartner opens closes depth quoted cs).map (fun p => (c :: p.1, p.2)) = some (taken, rest)) :
        oddQuotes taken = (quoted ^^ (c == '\'')) := by
      obtain ⟨p, hp, he⟩ := Option.map_eq_some_iff.1 h
      cases he
      rw [oddQuotes_cons, ih hp]
    unfold splitPartner at h
    split_ifs at h with hquote hquoted hopen hclose
    · rw [hlater h, hquote, Bool.xor_true, Bool.not_not]
    all_goals rw [Bool.not_eq_true] at hquote
    · rw [hlater h, hquote, Bool.xor_false]
    · rw [hlater h, hquote, Bool.xor_false]
    · cases depth with
      | zero =>
        cases h
        exact (Bool.eq_false_iff.2 hquoted).symm
      | succ depth => rw [hlater h, hquote, Bool.xor_false]
    · rw [hlater h, hquote, Bool.xor_false]

theorem getLast?_ne_of_isWord {c : Char} (hc : c ≠ '\'') (h : ∀ d ∈ x, isWord d = true) :
    (c :: x).getLast? ≠ some '\'' := by
  intro hlast
  rcases List.mem_cons.1 (List.mem_of_getLast? hlast) with hmem | hmem
  · exact hc hmem.symm
  · exact absurd (h _ hmem) (by decide)

/-- A primary does not begin inside of a literal, nor between two quotes. -/
theorem even_takePrimary (hmarks : Unmarked before) (h : takePrimary before = some (taken, rest)) :
    oddQuotes taken = false ∧ (taken.getLast? ≠ some '\'' ∨ rest.head? ≠ some '\'') := by
  cases before with
  | nil => cases h
  | cons c cs =>
    have hc := hmarks c (List.mem_cons_self ..)
    simp only [List.mem_cons, List.not_mem_nil, or_false, not_or] at hc
    simp only [takePrimary, beq_eq_false_iff_ne.2 hc.1, beq_eq_false_iff_ne.2 hc.2.2, Bool.false_and,
      Bool.false_eq_true, if_false] at h
    split_ifs at h with hquote hclose hword
    · obtain ⟨p, hp, he⟩ := Option.map_eq_some_iff.1 h
      cases he
      refine ⟨?_, .inr (head?_splitLiteralStart hp)⟩
      rw [oddQuotes_cons, oddQuotes_splitLiteralStart hp, hquote]
      rfl
    · obtain ⟨p, hp, he⟩ := Option.map_eq_some_iff.1 h
      cases he
      have hletters : ∀ d ∈ (splitWord p.2).1, isWord d = true := fun d hd => List.mem_takeWhile_imp hd
      refine ⟨?_, .inl ?_⟩
      · rw [oddQuotes_cons, oddQuotes_append, oddQuotes_cons, oddQuotes_splitPartner hp,
          oddQuotes_of_isWord hletters, beq_iff_eq.1 hclose]
        rfl
      · rw [← List.cons_append, List.getLast?_append_of_ne_nil _ (List.cons_ne_nil _ _)]
        exact getLast?_ne_of_isWord (by decide) hletters
    · cases h
      have hletters : ∀ d ∈ (splitWord cs).1, isWord d = true := fun d hd => List.mem_takeWhile_imp hd
      have hne : c ≠ '\'' := fun heq => hquote (by rw [heq]; rfl)
      refine ⟨?_, .inl (getLast?_ne_of_isWord hne hletters)⟩
      exact oddQuotes_of_isWord (List.forall_mem_cons.2 ⟨hword, hletters⟩)

/-- **An operand does not begin inside of a literal,** nor between two quotes. -/
theorem even_splitOperand (hmarks : Unmarked before) (h : splitOperand before = some (taken, rest)) :
    oddQuotes taken = false ∧ (taken.getLast? ≠ some '\'' ∨ rest.head? ≠ some '\'') := by
  fun_induction splitOperand before generalizing taken rest with
  | case1 => cases h
  | case2 before first more hp ih =>
    obtain ⟨p, hq, he⟩ := Option.map_eq_some_iff.1 h
    cases he
    have hmore : Unmarked more := fun c hc => hmarks c (by simp [(takePrimary_eq hp).1, hc])
    obtain ⟨heven, hends⟩ := ih hmore hq
    refine ⟨?_, ?_⟩
    · rw [oddQuotes_append, oddQuotes_cons, (even_takePrimary hmarks hp).1, heven]
      rfl
    · refine hends.imp_left fun hlast => ?_
      rw [List.getLast?_append_of_ne_nil _ (List.cons_ne_nil _ _)]
      intro h
      cases hp' : p.1 with
      | nil =>
        rw [hp'] at h
        cases h
      | cons d v =>
        rw [hp', List.getLast?_cons_cons, ← hp'] at h
        exact hlast h
  | case3 before first more hdot hp =>
    cases h
    exact even_takePrimary hmarks hp

/-- A type that is read holds no quote. -/
theorem exists_quoteless_castType? {type : List Char} (h : castType? cs = some (type, rest)) :
    ∃ read, cs = read ++ rest ∧ '\'' ∉ read := by
  obtain ⟨words, hwords, gap, size, rfl, hgap, hspelt, hsize, -, -⟩ := exists_of_castType? h
  have hblanks {gap : List Char} (hgap : ∀ c ∈ gap, isBlank c = true) : '\'' ∉ gap := quote_notMem_of_isBlank hgap
  have htype : '\'' ∉ type := fun hquote =>
    (hspelt.isWord_or_isBlank (wordy_typeNames hwords).1 _ hquote).elim (fun h => absurd h (by decide))
      fun h => absurd h (by decide)
  have hsize : '\'' ∉ size := by
    rcases hsize with rfl | ⟨gap, digits, rfl, hgap, hdigits⟩
    · exact List.not_mem_nil
    · have hdigits : '\'' ∉ digits := fun hquote => absurd (hdigits _ hquote) (by decide)
      simp [hblanks hgap, hdigits]
  exact ⟨gap ++ (type ++ size), by simp, by simp [hblanks hgap, htype, hsize]⟩

theorem unmarked_append : Unmarked (x ++ y) ↔ Unmarked x ∧ Unmarked y := List.forall_mem_append

theorem unmarked_reverse : Unmarked x.reverse ↔ Unmarked x := by simp [Unmarked]

/-- What is written for a cast holds no mark. -/
theorem Unmarked.callOf {function : List Char} (hfunction : function ∈ functions) (h : Unmarked x) :
    Unmarked (callOf function x) := by
  have hall : ∀ f ∈ functions, Unmarked (f ++ ['(']) := by decide
  have hclose : Unmarked [')'] := by decide
  rw [Sql.callOf, List.append_cons function, unmarked_append, unmarked_append]
  exact ⟨⟨hall function hfunction, h⟩, hclose⟩

/-- **A conversion keeps the literals,** and no quotes are open before the call that is written. -/
theorem literals_castAt? (h : castAt? before cs = some (earlier, later))
    (heven : oddQuotes (before.reverse ++ cs) = false) (hmarks : Unmarked (before.reverse ++ cs)) :
    oddQuotes earlier = false ∧ oddQuotes (earlier.reverse ++ later) = false ∧
      Unmarked (earlier.reverse ++ later) ∧
      literals (earlier.reverse ++ later) = literals (before.reverse ++ cs) := by
  obtain ⟨tail, function, rest, operand, rfl, hbefore, htype, hoperand, rfl⟩ := castAt?_eq_some.1 h
  obtain ⟨type, htype, hfunction⟩ := typeReading_eq_some.1 htype
  obtain ⟨read, rfl, hread⟩ := exists_quoteless_castType? htype
  have hmem := mem_functions hfunction
  have hname : '\'' ∉ function := fun hquote => still_of_mem_functions hmem _ hquote (List.mem_cons_self ..)
  have hcolons : '\'' ∉ ':' :: ':' :: read := by simpa using hread
  have hsource : before.reverse ++ ':' :: ':' :: (read ++ rest) =
      earlier.reverse ++ (operand.reverse ++ ((':' :: ':' :: read) ++ rest)) := by
    rw [splitOperand_eq hoperand, List.reverse_append, List.append_assoc]
    rfl
  have hunmarked : Unmarked before := unmarked_reverse.1 (unmarked_append.1 hmarks).1
  obtain ⟨htaken, hends⟩ := even_splitOperand hunmarked hoperand
  rw [splitOperand_eq hoperand, oddQuotes_append, htaken, Bool.false_xor] at hbefore
  have hreverse (x : List Char) : oddQuotes x.reverse = oddQuotes x := by rw [oddQuotes, List.count_reverse]; rfl
  rw [← hreverse] at htaken
  have hearlier : oddQuotes earlier.reverse = false := (hreverse _).trans hbefore
  -- what is taken and what stands before it do not come together at quotes
  have hjunction : earlier.reverse.getLast? ≠ some '\'' ∨
      (operand.reverse ++ ((':' :: ':' :: read) ++ rest)).head? ≠ some '\'' := by
    rw [List.getLast?_reverse, List.head?_append, List.head?_reverse]
    refine hends.symm.imp_right fun hlast => ?_
    cases hoperand : operand.getLast? with
    | none => simp
    | some c => rwa [Option.some_or, ← hoperand]
  obtain ⟨hfenced, heven', hliterals⟩ := literals_callOf hname htaken
  rw [hsource] at heven hmarks ⊢
  rw [oddQuotes_append, oddQuotes_append, oddQuotes_append, hearlier, htaken, oddQuotes_of_quoteless hcolons] at heven
  rw [unmarked_append, unmarked_append, unmarked_append] at hmarks
  refine ⟨hbefore, ?_, ?_, ?_⟩
  · rw [oddQuotes_append, oddQuotes_append, hearlier, heven']
    simpa using heven
  · rw [unmarked_append, unmarked_append]
    exact ⟨hmarks.1, hmarks.2.1.callOf hmem, hmarks.2.2.2⟩
  · rw [hfenced.literals_append heven' hearlier, hliterals, literals_append hearlier hjunction,
      literals_quoteless hcolons (List.cons_ne_nil _ _) htaken]

/-- **The conversion of postfix casts keeps literals and parentheses.** -/
theorem respects_convertPostfixFrom (before cs : List Char) (heven : oddQuotes (before.reverse ++ cs) = false)
    (hmarks : Unmarked (before.reverse ++ cs)) :
    Respects (before.reverse ++ cs) (convertPostfixFrom before cs) := by
  induction before, cs using castInduction with
  | nil before =>
    rw [convertPostfixFrom_nil, List.append_nil]
    rw [List.append_nil] at heven
    exact ⟨heven, rfl, id⟩
  | stays before c cs h ih =>
    have hread : before.reverse ++ c :: cs = (c :: before).reverse ++ cs := by simp
    rw [convertPostfixFrom_stays h, hread]
    rw [hread] at heven hmarks
    exact ih heven hmarks
  | converted before cs earlier later h ih =>
    obtain ⟨hearlier, heven', hmarks', hliterals⟩ := literals_castAt? h heven hmarks
    rw [convertPostfixFrom_converted h]
    refine .trans ⟨heven', hliterals, fun hclosed => ?_⟩ (ih heven' hmarks')
    obtain ⟨⟨depth, quoted⟩, hbefore, hcs⟩ := exists_nesting_of_append hclosed
    obtain ⟨depth', hread, hlater⟩ := exists_nesting_of_even fair_nothing h hearlier hbefore hcs
    rw [Closed, nesting_append, hread]
    exact hlater

/-! ### Names -/

section

variable {f : List Char → List Char}

/-- A text is changed up to its first literal, and behind it. -/
theorem mapOutside_closing? {u x : List Char} {n : Nat} (hu : '\'' ∉ u) (h : closing? x = some n) :
    mapOutside f (u ++ '\'' :: x) = f u ++ '\'' :: (x.take n ++ mapOutside f (x.drop n)) := by
  have hscan : Text.scan literalRule ('\'' :: x) =
      .found () ('\'' :: x.take n) :: Text.scan literalRule (x.drop n) := by
    rw [Text.scan, Text.scanFrom, literalRule, h, Option.map_some]
    simp only [Nat.add_sub_cancel, List.take_succ_cons]
    rw [scanFrom_literalRule_skip _ _ none, Text.scan]
  rw [mapOutside, scan_append (oddQuotes_of_quoteless hu) (.inl fun hlast => hu (List.mem_of_getLast? hlast)),
    scan_of_quoteless hu, mapRuns_plain, hscan, mapRuns, List.append_nil, List.reverse_reverse, List.append_assoc]
  rfl

theorem mapOutside_literal {u w : List Char} (hu : '\'' ∉ u) (hw : closing? w = some w.length)
    (hhead : rest.head? ≠ some '\'') :
    mapOutside f (u ++ (('\'' :: w) ++ rest)) = f u ++ (('\'' :: w) ++ mapOutside f rest) := by
  have hodd : oddQuotes w = true := by simpa using oddQuotes_take_closing? hw
  obtain ⟨n, hn, hclosing⟩ := closing?_append hodd (.inr hhead)
  cases hw.symm.trans hn
  rw [List.cons_append, mapOutside_closing? hu hclosing, List.take_left, List.drop_left, List.cons_append]

theorem mapOutside_of_quoteless {u : List Char} (hu : '\'' ∉ u) : mapOutside f u = f u := by
  rw [mapOutside, scan_of_quoteless hu, ← List.append_nil (u.map _), mapRuns_plain, mapRuns, List.append_nil,
    List.reverse_reverse]

/-- **A change of the stretches between literals keeps the literals** if it brings in no quote and empties no
stretch; and it keeps what is open if it does so in each stretch. -/
theorem respects_mapOutside (hquote : ∀ x, '\'' ∉ x → '\'' ∉ f x) (hne : ∀ x, x ≠ [] → f x ≠ [])
    (hopen : ∀ x depth s, '\'' ∉ x → nesting nothing depth false x = some s →
      nesting nothing depth false (f x) = some s) (heven : oddQuotes cs = false) :
    Respects cs (mapOutside f cs) := by
  have hall : (cs.head? ≠ some '\'' → (mapOutside f cs).head? ≠ some '\'') ∧
      oddQuotes (mapOutside f cs) = false ∧ literals (mapOutside f cs) = literals cs ∧
      ∀ depth s, nesting nothing depth false cs = some s →
        nesting nothing depth false (mapOutside f cs) = some s := by
    induction hn : cs.length using Nat.strong_induction_on generalizing cs with
    | _ n ih =>
      by_cases hmem : '\'' ∈ cs
      · obtain ⟨u, w, rest, rfl, hu, hw, hhead, hrest⟩ := exists_literal heven hmem
        obtain ⟨hlater, hlater', hliterals, hnesting⟩ :=
          ih rest.length (by simp at hn; omega) hrest rfl
        rw [← List.cons_append, mapOutside_literal hu hw hhead]
        have hfu := hquote u hu
        have hw' := oddQuotes_literal hw
        refine ⟨fun hstart => ?_, ?_, ?_, fun depth s h => ?_⟩
        · -- something stands before the literal, and still does
          have hnil : u ≠ [] := by
            rintro rfl
            exact hstart rfl
          rw [List.head?_append_of_ne_nil _ (hne u hnil)]
          exact fun h => hfu (List.mem_of_head? h)
        · rw [oddQuotes_append, oddQuotes_append, oddQuotes_of_quoteless hfu, hw', hlater']
          rfl
        · rw [literals_quoteless_append hfu, literals_quoteless_append hu, literals_append hw' (.inr (hlater hhead)),
            literals_append hw' (.inr hhead), hliterals]
        · obtain ⟨⟨depth', quoted⟩, hstart, hliteral⟩ := exists_nesting_of_append h
          have hquoted := quoted_of_nesting hstart
          rw [oddQuotes_of_quoteless hu, Bool.xor_false] at hquoted
          subst hquoted
          obtain ⟨⟨depth'', quoted⟩, htaken, hend⟩ := exists_nesting_of_append hliteral
          have hquoted := quoted_of_nesting htaken
          rw [hw', Bool.xor_false] at hquoted
          subst hquoted
          rw [nesting_append, hopen u depth _ hu hstart, Option.bind_some, nesting_append, htaken]
          exact hnesting depth'' s hend
      · rw [mapOutside_of_quoteless hmem]
        have hfcs := hquote cs hmem
        refine ⟨fun _ h => hfcs (List.mem_of_head? h), oddQuotes_of_quoteless hfcs, ?_, fun depth s h => hopen cs depth s hmem h⟩
        rw [literals_of_quoteless hfcs, literals_of_quoteless hmem]
  exact ⟨hall.2.1, hall.2.2.1, hall.2.2.2 0 _⟩

end

/-- A name and what is written for it open alike. -/
def OpensAlike (rule : Text.Rule Unit) (text : List Char) : Prop := ∀ before cs n a, rule before cs = some (n, a) →
  ∃ k, nesting nothing 0 false (cs.take (n - 1 + 1)) = some (k, false) ∧ nesting nothing 0 false text = some (k, false)

/-- The exchange of a name keeps what is open. -/
theorem nesting_replaceFrom {rule : Text.Rule Unit} {text : List Char} {skip : Nat} {previous : Option Char}
    (hrule : OpensAlike rule text) (hquote : '\'' ∉ cs) (h : nesting nothing depth false (cs.drop skip) = some s) :
    nesting nothing depth false (Text.replaceFrom rule (fun _ => some text) skip previous cs) = some s := by
  induction cs generalizing skip previous depth with
  | nil => simpa [Text.replaceFrom, Text.scanFrom] using h
  | cons c cs ih =>
    rw [List.mem_cons, not_or] at hquote
    cases skip with
    | succ skip => exact ih hquote.2 h
    | zero =>
      rw [List.drop_zero] at h
      cases hmatch : rule previous (c :: cs) with
      | none =>
        obtain ⟨depth', htail⟩ := exists_nesting_tail h
        rw [if_neg (by simpa using Ne.symm hquote.1)] at htail
        rw [Text.replaceFrom_cons_none hmatch, htail]
        rw [htail] at h
        exact ih hquote.2 h
      | some p =>
        obtain ⟨n, a⟩ := p
        obtain ⟨k, htaken, htext⟩ := hrule _ _ _ _ hmatch
        rw [← List.take_append_drop (n - 1 + 1) (c :: cs)] at h
        obtain ⟨t, ht, hlater⟩ := exists_nesting_of_append h
        have hshift := nesting_shift depth htaken
        rw [Nat.zero_add, ht] at hshift
        cases hshift
        have hwritten := nesting_shift depth htext
        rw [Nat.zero_add] at hwritten
        rw [Text.replaceFrom_cons_some hmatch, Option.getD_some, nesting_append, hwritten, Option.bind_some]
        exact ih hquote.2 hlater

/-- The head of a call opens its parenthesis. -/
theorem opensAlike_callRule {word text : List Char} (hword : ∀ l ∈ word, isWord l = true)
    (htext : nesting nothing 0 false text = some (1, false)) : OpensAlike (callRule word) text := by
  intro before cs n a h
  obtain ⟨m, hm, he⟩ := Option.map_eq_some_iff.1 h
  cases he
  obtain ⟨head, rest, rfl, rfl, hchars⟩ := exists_head hword hm
  have hstill : nesting nothing 0 false head = some (0, false) :=
    nesting_of_still fun c hc => ⟨rfl, (hchars c hc).elim still_of_isWord still_of_isBlank⟩
  refine ⟨1, ?_, htext⟩
  rw [Nat.add_sub_cancel, List.append_cons, List.take_left' (by simp), nesting_append, hstill]
  rfl

theorem opensAlike_todayRule : OpensAlike todayRule "today()".toList := by
  intro before cs n a h
  have hword : ∀ l ∈ "current_date".toList, isWord l = true := isWord_names "current_date" (by simp)
  unfold todayRule at h
  dsimp only at h
  split at h
  case isFalse => cases h
  rename_i hparts
  simp only [Bool.and_eq_true] at hparts
  cases h
  refine ⟨0, nesting_of_still fun c hc => ⟨rfl, ?_⟩, by decide⟩
  obtain ⟨l, hl, hfold⟩ := Text.exists_foldsTo_of_mem_take hparts.1.1.2 hc
  exact still_of_isWord (isWord_of_foldsTo (hword l hl) hfold)

theorem opensAlike_renames : ∀ r ∈ renames, OpensAlike r.1 r.2.toList ∧ r.2.toList ≠ [] ∧ '\'' ∉ r.2.toList := by
  simp only [renames, List.forall_mem_cons]
  refine ⟨⟨opensAlike_callRule (isWord_names _ (by simp)) (by decide), by decide⟩,
    ⟨opensAlike_callRule (isWord_names _ (by simp)) (by decide), by decide⟩,
    ⟨opensAlike_callRule (isWord_names _ (by simp)) (by decide), by decide⟩,
    ⟨opensAlike_todayRule, by decide⟩, ?_⟩
  exact List.forall_mem_nil _

/-- The exchange of a name keeps literals and parentheses. -/
theorem respects_rename {r : Text.Rule Unit × String} (hr : r ∈ renames) (heven : oddQuotes x = false) :
    Respects x (rename r.1 r.2 x) := by
  obtain ⟨halike, hne, hquote⟩ := opensAlike_renames r hr
  refine respects_mapOutside (fun x hx => ?_) (fun x hx => ?_) (fun x depth s hx h => ?_) heven
  · have hcount : (Text.replaceFrom r.1 (fun _ => some r.2.toList) 0 none x).count '\'' = x.count '\'' :=
      (separated_renames r hr).count_replaceFrom hquote 0
    rw [Text.replace_eq, ← List.count_eq_zero, hcount]
    exact List.count_eq_zero.2 hx
  · obtain ⟨c, v, rfl⟩ := List.exists_cons_of_ne_nil hx
    rw [Text.replace_eq]
    cases hmatch : r.1 none (c :: v) with
    | none =>
      rw [Text.replaceFrom_cons_none hmatch]
      exact List.cons_ne_nil _ _
    | some p =>
      rw [Text.replaceFrom_cons_some hmatch]
      exact List.append_ne_nil_of_left_ne_nil hne _
  · rw [Text.replace_eq]
    exact nesting_replaceFrom halike hx h

theorem respects_renames {rules : List (Text.Rule Unit × String)} (h : ∀ r ∈ rules, r ∈ renames)
    (heven : oddQuotes x = false) : Respects x (rules.foldl (fun text r => rename r.1 r.2 text) x) := by
  induction rules generalizing x with
  | nil => exact ⟨heven, rfl, id⟩
  | cons r rules ih =>
    rw [List.forall_mem_cons] at h
    have hfirst := respects_rename h.1 heven
    exact hfirst.trans (ih h.2 hfirst.even)

/-! ### All rules -/

/-- No mark comes in where calls are replaced. -/
theorem unmarked_replaceCallsFrom {word : List Char} {handler : List Char → Option (List Char)}
    {previous : Option Char} (hkeeps : ∀ inner text, handler inner = some text → Unmarked inner → Unmarked text)
    (h : Unmarked x) : Unmarked (replaceCallsFrom word handler previous quoted x) := by
  fun_induction replaceCallsFrom word handler previous quoted x with
  | case1 => exact h
  | case2 previous quoted c rest hn ih =>
    simp only [dite_eq_ite] at ih
    exact List.forall_mem_cons.2 ⟨(List.forall_mem_cons.1 h).1, ih (List.forall_mem_cons.1 h).2⟩
  | case3 previous c rest n hn head ih =>
    rw [← List.take_append_drop n (c :: rest), unmarked_append] at h
    exact unmarked_append.2 ⟨h.1, ih h.2⟩
  | case4 => exact h
  | case5 previous quoted c rest n hn head hquoted inner after hsplit arguments ih₁ ih₂ =>
    rw [← List.take_append_drop n (c :: rest), splitPartner_eq hsplit, List.append_cons, unmarked_append,
      unmarked_append, unmarked_append] at h
    obtain ⟨hhead, ⟨hinner, hclose⟩, hafter⟩ := h
    refine unmarked_append.2 ⟨?_, ih₂ hafter⟩
    cases hr : handler arguments with
    | none => exact unmarked_append.2 ⟨unmarked_append.2 ⟨hhead, ih₁ hinner⟩, hclose⟩
    | some text => exact hkeeps _ _ hr (ih₁ hinner)

theorem unmarked_castCall? {inner text : List Char} (h : castCall? inner = some text) (hinner : Unmarked inner) :
    Unmarked text := by
  simp only [castCall?, Option.bind_eq_bind, Option.bind_eq_some_iff] at h
  obtain ⟨⟨operand, type⟩, hsplit, function, hfunction, h⟩ := h
  cases h
  obtain ⟨mid, heq, -⟩ := exists_splitAs hsplit
  rw [List.reverse_nil, List.nil_append] at heq
  rw [heq, unmarked_append] at hinner
  obtain ⟨left, right, htrim, -⟩ := Text.exists_blanks operand
  rw [htrim, unmarked_append, unmarked_append] at hinner
  exact hinner.1.1.2.callOf (mem_functions hfunction)

/-- What becomes of the literals of a query: types of `CAST` calls are dropped, then the units of `date_trunc` calls,
then those of `date_part` calls. -/
def literalFates (cs : List Char) : Fates :=
  let converted := convertPostfixCasts (convertCasts cs)
  let casts := callFates "cast" castCall? castParts cs
  let truncs := callFates "date_trunc" truncCall? unitParts converted
  let parts := callFates "date_part" partCall? unitParts (replaceDateTrunc converted)
  (casts.andThen truncs).andThen parts

/-- **Literals and parentheses under the rules.** -/
theorem literals_applyRules (heven : oddQuotes cs = false) (hmarks : Unmarked cs) :
    (literalFates cs).told = literals cs ∧ literals (applyRules cs) = (literalFates cs).left ∧
      (Balanced cs → Balanced (applyRules cs)) := by
  obtain ⟨hcastTold, hcastLeft, hcastEven⟩ := literals_replaceCalls "cast" (by decide) spares_castCall? heven
  have hcastMarks : Unmarked (convertCasts cs) := unmarked_replaceCallsFrom (fun _ _ => unmarked_castCall?) hmarks
  have hcolons : Respects (convertCasts cs) (convertPostfixCasts (convertCasts cs)) :=
    respects_convertPostfixFrom [] (convertCasts cs) hcastEven hcastMarks
  obtain ⟨htruncTold, htruncLeft, htruncEven⟩ :=
    literals_replaceCalls "date_trunc" (by decide) spares_truncCall? hcolons.even
  obtain ⟨hpartTold, hpartLeft, hpartEven⟩ :=
    literals_replaceCalls "date_part" (by decide) spares_partCall? htruncEven
  obtain ⟨hextract, hextractEven⟩ :=
    literals_replaceCalls_whole "extract" (by decide) spares_extractCall? hpartEven
  obtain ⟨htrim, htrimEven⟩ := literals_replaceCalls_whole "btrim" (by decide) spares_trimCall? hextractEven
  have hrenames := respects_renames (fun _ (h : _ ∈ renames) => h) htrimEven
  have hconverted : literals (convertPostfixCasts (convertCasts cs)) = _ := hcolons.literals.trans hcastLeft
  have hfirst := Fates.left_andThen (htruncTold.trans hconverted)
  have hsecond := Fates.left_andThen (hpartTold.trans (htruncLeft.trans hfirst.symm))
  refine ⟨?_, ?_, fun hbalanced => ?_⟩
  · rw [literalFates, Fates.told_andThen, Fates.told_andThen]
    exact hcastTold
  · exact (hrenames.literals.trans (htrim.trans (hextract.trans hpartLeft))).trans hsecond.symm
  · have hclosed := closed_convertCasts fair_nothing ((closed_iff_balanced heven).2 hbalanced)
    have hcalls := divides_calls.keeps _ (hcolons.closed hclosed)
    exact (closed_iff_balanced hrenames.even).1 (hrenames.closed hcalls)

/-- A query with a doubled quote, a unit, a type with a literal in its size, and an unknown unit. -/
theorem literals_applyRules_unitAndType :
    let sql := "select date_trunc('month', cast(x as numeric('10'))), 'it''s (' || char_length(y::text), date_part('era', d)"
    oddQuotes sql.toList = false ∧ Unmarked sql.toList ∧ Balanced sql.toList ∧
      toClickHouse sql =
        "select toStartOfMonth(toFloat64(x)), 'it''s (' || lengthUTF8(toString(y)), date_part('era', d)" ∧
      (literalFates sql.toList).map (fun p => (String.ofList p.1, p.2)) =
        [("'month'", false), ("'10'", false), ("'it''s ('", true), ("'era'", true)] ∧
      literals (applyRules sql.toList) = (literalFates sql.toList).left ∧ Balanced (applyRules sql.toList) := by
  intro sql
  have heven : oddQuotes sql.toList = false := by decide
  have hmarks : Unmarked sql.toList := by decide +kernel
  have hbalanced : Balanced sql.toList := by decide +kernel
  obtain ⟨-, hkept, hresult⟩ := literals_applyRules heven hmarks
  refine ⟨heven, hmarks, hbalanced, by decide +kernel, by decide +kernel, hkept, hresult hbalanced⟩

end Sql
end CardTransfer
