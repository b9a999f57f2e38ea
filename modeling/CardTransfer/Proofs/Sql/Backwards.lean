import CardTransfer.Proofs.Sql.LiteralFate
import CardTransfer.Proofs.Sql.CastOperand

/-!
# Reading backwards

Calls and literals are read from their start, the operand of a cast from its end. Both ways the same is found
(`backward_eq_forward`).

For parentheses this is the symmetry of nesting: forwards as well as backwards the partner of a parenthesis is found
exactly if the text between the two is closed (`splitClosing_iff`, `splitOpening_iff`). Quotes are toggled from
either end, and an even number of them stands between partners.

A literal is a series of stretches in quotes that touch each other (`exists_stretches_of_found`), and that is the
same from both ends. Backwards it ends at the first quote with none before it. The quote that opens it is such,
because a literal takes in the quotes that follow it directly, as far as there is another to close it.
-/

namespace CardTransfer
namespace Sql

variable {cs x z inner before after lit : List Char}

/-! ### Parentheses -/

/-- What stands between a parenthesis and its partner is closed, also when the partner is found backwards. -/
theorem nesting_of_splitPartner_reverse {depth : Nat} {quoted : Bool}
    (h : splitPartner ')' '(' depth quoted (x.reverse ++ '(' :: z) = some (x.reverse, z)) :
    nesting nothing 0 false x = some (depth, quoted) := by
  induction x using List.reverseRecOn generalizing depth quoted with
  | nil =>
    rw [List.reverse_nil, List.nil_append] at h
    unfold splitPartner at h
    cases quoted with
    | true => simp at h
    | false =>
      cases depth with
      | zero => rfl
      | succ depth => simp at h
  | append_singleton x c ih =>
    rw [List.reverse_concat, List.cons_append] at h
    unfold splitPartner at h
    have hlater {depth : Nat} {quoted : Bool}
        (h : (splitPartner ')' '(' depth quoted (x.reverse ++ '(' :: z)).map (fun p => (c :: p.1, p.2)) =
          some (c :: x.reverse, z)) : nesting nothing 0 false x = some (depth, quoted) := by
      obtain ⟨⟨y, v⟩, hp, he⟩ := Option.map_eq_some_iff.1 h
      cases he
      exact ih hp
    rw [nesting_append]
    split_ifs at h with hquote hquoted hclose hopen
    · rw [hlater h]
      simp [nesting, nothing, hquote]
    · subst hquoted
      rw [hlater h]
      simp [nesting, nothing, hquote]
    · rw [hlater h]
      cases beq_iff_eq.1 hclose
      simp [nesting, nothing, hquoted]
    · cases depth with
      | zero => cases h
      | succ depth =>
        rw [hlater h]
        cases beq_iff_eq.1 hopen
        simp [nesting, nothing, hquoted]
    · rw [hlater h]
      simp [nesting, nothing, hquote, hquoted, hclose, hopen]

theorem splitClosing_iff : splitClosing (inner ++ ')' :: after) = some (inner, after) ↔ Closed nothing inner :=
  ⟨closed_of_splitClosing, fun h => splitPartner_closed h after⟩

theorem splitOpening_iff :
    splitOpening (inner.reverse ++ '(' :: before) = some (inner.reverse, before) ↔ Closed nothing inner :=
  ⟨nesting_of_splitPartner_reverse, fun h => splitPartner_reverse h before⟩

/-! ### Literals -/

/-- A literal is a series of stretches in quotes. -/
theorem exists_stretches_of_closing? {n : Nat} (h : closing? cs = some n) : ∃ p parts,
    '\'' :: cs.take n = stretches (p :: parts) ∧ ∀ q ∈ p :: parts, '\'' ∉ q := by
  have hempty : ∃ p parts, ['\'', '\''] = stretches (p :: parts) ∧ ∀ q ∈ p :: parts, '\'' ∉ q :=
    ⟨[], [], rfl, by simp⟩
  fun_induction closing? cs generalizing n with
  | case1 => cases h
  | case2 cs m hm ih =>
    cases h
    obtain ⟨p, parts, heq, hparts⟩ := ih hm
    refine ⟨[], p :: parts, ?_, List.forall_mem_cons.2 ⟨List.not_mem_nil, hparts⟩⟩
    rw [List.take_succ_cons, List.take_succ_cons, heq]
    rfl
  | case3 cs hm ih =>
    cases h
    exact hempty
  | case4 c cs hc hq =>
    cases h
    cases beq_iff_eq.1 hq
    exact hempty
  | case5 c cs hc hq ih =>
    obtain ⟨m, hm, rfl⟩ := Option.map_eq_some_iff.1 h
    obtain ⟨p, parts, heq, hparts⟩ := ih hm
    rw [List.forall_mem_cons] at hparts
    have hcp : '\'' ∉ c :: p := by
      rw [List.mem_cons, not_or]
      exact ⟨fun heq => hq (beq_iff_eq.2 heq.symm), hparts.1⟩
    refine ⟨c :: p, parts, ?_, List.forall_mem_cons.2 ⟨hcp, hparts.2⟩⟩
    have htail : cs.take m = p ++ '\'' :: stretches parts := by
      simpa [stretches] using heq
    rw [List.take_succ_cons, htail]
    simp [stretches]

/-- Directly behind a literal none starts: what follows would belong to it. -/
theorem literalRule_drop_closing? {n : Nat} (h : closing? cs = some n) (before : Option Char) :
    literalRule before (cs.drop n) = none := by
  fun_induction closing? cs generalizing n with
  | case1 => cases h
  | case2 cs m hm ih =>
    cases h
    exact ih hm
  | case3 cs hm ih =>
    cases h
    exact Option.map_eq_none_iff.2 hm
  | case4 c cs hc hq =>
    cases h
    cases cs with
    | nil => rfl
    | cons d cs =>
      have hd : d ≠ '\'' := fun hd => hc cs (beq_iff_eq.1 hq) (by rw [hd])
      simp [literalRule, hd]
  | case5 c cs hc hq ih =>
    obtain ⟨m, hm, rfl⟩ := Option.map_eq_some_iff.1 h
    exact ih hm

/-- The first piece of a text is a character where no literal starts, or a literal. -/
theorem scanFrom_eq_cons {piece : Text.Piece Unit} {pieces : List (Text.Piece Unit)} {previous : Option Char}
    (h : Text.scanFrom literalRule 0 previous cs = piece :: pieces) :
    ∃ rest, Text.scanFrom literalRule 0 none rest = pieces ∧
      ((∃ c, piece = .plain c ∧ cs = c :: rest ∧ literalRule previous cs = none) ∨
        ∃ x n, piece = .found () ('\'' :: x.take n) ∧ cs = '\'' :: x ∧ closing? x = some n ∧ rest = x.drop n) := by
  cases cs with
  | nil => cases h
  | cons c x =>
    unfold Text.scanFrom at h
    split at h
    · rename_i n a hrule
      unfold literalRule at hrule
      split at hrule
      case h_2 => cases hrule
      rename_i heq
      cases heq
      obtain ⟨m, hm, he⟩ := Option.map_eq_some_iff.1 hrule
      cases he
      cases h
      exact ⟨_, (scanFrom_literalRule_skip m _ none x).symm, .inr ⟨x, m, rfl, rfl, hm, rfl⟩⟩
    · rename_i hrule
      cases h
      exact ⟨x, scanFrom_literalRule_before none _ x, .inl ⟨c, rfl, rfl, hrule⟩⟩

/-- Where no literal starts, something stands before the first of them. -/
theorem source_ne_nil {pieces later : List (Text.Piece Unit)} {previous : Option Char}
    (h : Text.scanFrom literalRule 0 previous cs = pieces ++ .found () lit :: later)
    (hrule : literalRule previous cs = none) : pieces.flatMap Text.Piece.source ≠ [] := by
  cases pieces with
  | nil =>
    obtain ⟨rest, -, ⟨c, hplain, -⟩ | ⟨x, n, -, rfl, hn, -⟩⟩ := scanFrom_eq_cons h
    · cases hplain
    · simp [literalRule, hn] at hrule
  | cons piece pieces =>
    obtain ⟨rest, -, ⟨c, rfl, -⟩ | ⟨x, n, -, rfl, hn, -⟩⟩ := scanFrom_eq_cons h
    · exact List.cons_ne_nil c _
    · simp [literalRule, hn] at hrule

/-- **A literal that is found is a series of stretches in quotes, and no quote stands directly before it.** -/
theorem exists_stretches_of_found {pieces later : List (Text.Piece Unit)} {previous : Option Char}
    (h : Text.scanFrom literalRule 0 previous cs = pieces ++ .found () lit :: later) :
    (∃ p parts, lit = stretches (p :: parts) ∧ ∀ q ∈ p :: parts, '\'' ∉ q) ∧
      (pieces.flatMap Text.Piece.source).getLast? ≠ some '\'' := by
  induction pieces generalizing cs previous with
  | nil =>
    obtain ⟨rest, -, ⟨c, hplain, -⟩ | ⟨x, n, hfound, -, hn, -⟩⟩ := scanFrom_eq_cons h
    · cases hplain
    · cases hfound
      exact ⟨exists_stretches_of_closing? hn, nofun⟩
  | cons piece pieces ih =>
    obtain ⟨rest, hrest, hpiece⟩ := scanFrom_eq_cons h
    obtain ⟨hlit, hlast⟩ := ih hrest
    refine ⟨hlit, fun hquote => ?_⟩
    -- a piece that ends with a quote stands before something else than a literal
    have hnone (hquote : piece.source.getLast? = some '\'') : literalRule none rest = none := by
      obtain ⟨c, rfl, rfl, hrule⟩ | ⟨x, n, -, -, hn, rfl⟩ := hpiece
      · cases Option.some.inj hquote
        have hrest := quote_notMem_of_closing? (Option.map_eq_none_iff.1 hrule)
        cases rest with
        | nil => rfl
        | cons d rest =>
          have hd : d ≠ '\'' := fun hd => hrest (hd ▸ List.mem_cons_self ..)
          simp [literalRule, hd]
      · exact literalRule_drop_closing? hn none
    rw [List.flatMap_cons] at hquote
    by_cases hsource : pieces.flatMap Text.Piece.source = []
    · rw [hsource, List.append_nil] at hquote
      exact source_ne_nil hrest (hnone hquote) hsource
    · rw [List.getLast?_append_of_ne_nil _ hsource] at hquote
      exact hlast hquote

/-! ### Both ways -/

/-- **Backwards a text is read as it is forwards.** From the parenthesis that closes a call the search leads to the
one that opens it, and from that to the one that closes it. From the end of a literal it leads to the quote that
opens it, whatever quotes stand in it; from a dot before that it would go on to the name that the literal belongs
to. -/
theorem backward_eq_forward (cs : List Char) :
    (∀ before rest inner after, cs = before ++ '(' :: rest → splitClosing rest = some (inner, after) →
      splitOpening (before ++ '(' :: inner).reverse = some (inner.reverse, before.reverse)) ∧
    (∀ front after inner before : List Char, cs = front ++ ')' :: after →
      splitOpening front.reverse = some (inner.reverse, before.reverse) →
        splitClosing (inner ++ ')' :: after) = some (inner, after)) ∧
    ∀ pieces lit later, Text.scan literalRule cs = pieces ++ .found () lit :: later →
      (pieces.flatMap Text.Piece.source).getLast? ≠ some '.' →
        splitOperand (pieces.flatMap Text.Piece.source ++ lit).reverse =
          some (lit.reverse, (pieces.flatMap Text.Piece.source).reverse) := by
  have hsplit (before inner : List Char) :
      (before ++ '(' :: inner).reverse = inner.reverse ++ '(' :: before.reverse := by simp
  refine ⟨?_, ?_, ?_⟩
  · rintro before rest inner after rfl h
    rw [hsplit]
    exact splitOpening_iff.2 (closed_of_splitClosing h)
  · rintro front after inner before rfl h
    rw [splitPartner_eq h] at h
    exact splitClosing_iff.2 (splitOpening_iff.1 h)
  · rintro pieces lit later h hdot
    obtain ⟨⟨p, parts, rfl, hparts⟩, hquote⟩ := exists_stretches_of_found h
    rw [List.reverse_append]
    exact splitOperand_stretches (by simp) hparts (by rwa [List.head?_reverse]) (by rwa [List.head?_reverse])

/-- A call with a literal whose first and last characters are quotes. -/
theorem backward_eq_forward_doubledQuotes :
    splitClosing "'''x''', (a))".toList = some ("'''x''', (a)".toList, []) ∧
      splitOpening "g('''x''', (a)".toList.reverse = some ("'''x''', (a)".toList.reverse, ['g']) ∧
      Text.scan literalRule "g('''x''', (a))".toList =
        [.plain 'g', .plain '('] ++ .found () "'''x'''".toList :: ", (a))".toList.map .plain ∧
      splitOperand "g('''x'''".toList.reverse = some ("'''x'''".toList.reverse, ['(', 'g']) := by
  obtain ⟨hopening, hclosing, hliteral⟩ := backward_eq_forward "g('''x''', (a))".toList
  have hforward : splitClosing "'''x''', (a))".toList = some ("'''x''', (a)".toList, []) := by decide
  have hbackward := hopening ['g'] _ _ _ rfl hforward
  have hscan : Text.scan literalRule "g('''x''', (a))".toList =
      [.plain 'g', .plain '('] ++ .found () "'''x'''".toList :: ", (a))".toList.map .plain := rfl
  exact ⟨hclosing "g('''x''', (a)".toList [] _ ['g'] rfl hbackward, hbackward, hscan, hliteral _ _ _ hscan (by decide)⟩

end Sql
end CardTransfer
