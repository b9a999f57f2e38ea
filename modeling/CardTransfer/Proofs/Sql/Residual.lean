import CardTransfer.Proofs.Sql.Literal
import CardTransfer.Proofs.Text.Character
import CardTransfer.Proofs.Text.Scan
import CardTransfer.Sql.Dialect
import CardTransfer.Sql.Residual

/-!
# Where constructs are looked for

Whether a construct is seen at a place depends on the text up to the next quote, and on the character
before the place only as far as a word could go on from it (`Lexical`). So what is done to the inside of a
literal does not matter to what is seen before it, and behind a text that closes its literals and holds no
construct those are found that are found without it (`residual_append`).
-/

namespace CardTransfer
namespace Sql

open Text (breaksBefore Clear lastOr)

variable {sees : Sight} {before after : Option Char} {x v w cs : List Char}

/-- A sight that ends where a quote stands, and starts where no word goes on. -/
structure Lexical (sees : Sight) : Prop where
  start : ∀ before after cs, breaksBefore before = breaksBefore after → sees before cs = sees after cs
  quote : ∀ before cs, sees before ('\'' :: cs) = false
  alike : ∀ before x v w, sees before (x ++ '\'' :: v) = sees before (x ++ '\'' :: w)

/-- It does so if a quote and what follows it do not count. -/
theorem lexical_of_cut
    (start : ∀ before after cs, breaksBefore before = breaksBefore after → sees before cs = sees after cs)
    (cut : ∀ before x v, sees before (x ++ '\'' :: v) = sees before x)
    (none : ∀ before, sees before [] = false) : Lexical sees where
  start := start
  quote before cs := (cut before [] cs).trans (none before)
  alike before x v w := (cut before x v).trans (cut before x w).symm

/-! ### The kinds of constructs -/

theorem lexical_fixedText {s : String} (hs : '\'' ∉ s.toList) (hne : s.toList ≠ []) :
    Lexical (fixedText s) := by
  refine lexical_of_cut (fun _ _ _ _ => rfl) (fun _ x v => ?_) fun _ => ?_
  · unfold fixedText
    generalize s.toList = part at hs
    induction part generalizing x with
    | nil => rfl
    | cons c part ih =>
      rw [List.mem_cons, not_or] at hs
      cases x with
      | nil => simp [List.isPrefixOf, Ne.symm hs.1]
      | cons d x => simp [List.isPrefixOf, ih x hs.2]
  · unfold fixedText
    cases hpart : s.toList with
    | nil => exact absurd hpart hne
    | cons c part => rfl

/-- No letter of a word stands for a quote. -/
def Quoteless (word : List Char) : Prop := ∀ l ∈ word, Text.foldsTo l '\'' = false

instance {word : List Char} : Decidable (Quoteless word) := inferInstanceAs (Decidable (∀ l ∈ word, _))

theorem callHead?_append_quote {word : List Char} (hword : Quoteless word) :
    callHead? word before (x ++ '\'' :: v) = callHead? word before x := by
  unfold callHead?
  rw [Text.wordThen?_append_cons hword (by decide) (by decide)]

theorem lexical_called {name : String} (hname : Quoteless name.toList) (hne : name.toList ≠ []) :
    Lexical (called name) := by
  refine lexical_of_cut (fun _ _ _ h => ?_) (fun _ x v => ?_) fun _ => ?_
  · unfold called callHead?
    rw [h]
  · unfold called
    rw [callHead?_append_quote hname]
  · unfold called callHead? Text.wordThen? Text.word?
    cases hword : name.toList with
    | nil => exact absurd hword hne
    | cons l word => simp [Text.startsWith]

theorem lexical_either {a b : Sight} (ha : Lexical a) (hb : Lexical b) : Lexical (either a b) where
  start before after cs h := by rw [either, ha.start _ _ _ h, hb.start _ _ _ h]; rfl
  quote before cs := by rw [either, ha.quote, hb.quote]; rfl
  alike before x v w := by rw [either, ha.alike before x v w, hb.alike before x v w]; rfl

theorem dropWhile_append_quote {p : Char → Bool} (hp : p '\'' = false) :
    (x ++ '\'' :: v).dropWhile p = x.dropWhile p ++ '\'' :: v := by
  induction x with
  | nil => simp [hp]
  | cons c x ih =>
    rw [List.cons_append, List.dropWhile_cons, List.dropWhile_cons, ih]
    split <;> rfl

theorem lexical_jsonCall : Lexical jsonCall := by
  refine lexical_of_cut (fun _ _ _ h => ?_) (fun before x v => ?_) fun before => ?_
  · unfold jsonCall
    rw [h]
  · have htail (start : String) (hstart : Quoteless start.toList)
        (hlength : start.toList.length = start.length) :
        (Text.startsWith start.toList (x ++ '\'' :: v) &&
          let name := (x ++ '\'' :: v).drop start.length
          let after := name.dropWhile Text.isWord
          name.head?.any Text.isWord && (after.drop (Text.blankLength after)).head? == some '(') =
        (Text.startsWith start.toList x &&
          let name := x.drop start.length
          let after := name.dropWhile Text.isWord
          name.head?.any Text.isWord && (after.drop (Text.blankLength after)).head? == some '(') := by
      rw [Text.startsWith_append_cons hstart]
      cases hx : Text.startsWith start.toList x with
      | false => rfl
      | true =>
        have hle : start.length ≤ x.length := hlength ▸ Text.length_le_of_startsWith hx
        dsimp only
        rw [List.drop_append_of_le_length hle, dropWhile_append_quote (by decide),
          Text.blankLength_append_cons (by decide),
          Text.head?_drop_append_cons (Text.blankLength_le _) (by decide)]
        cases x.drop start.length with
        | nil => rfl
        | cons c name => rfl
    unfold jsonCall
    dsimp only at htail ⊢
    rw [htail "json_" (by decide) rfl, htail "jsonb_" (by decide) rfl]
  · simp [jsonCall, Text.startsWith]

theorem lexical_distinctOn : Lexical distinctOn := by
  refine lexical_of_cut (fun _ _ _ h => ?_) (fun before x v => ?_) fun before => ?_
  · unfold distinctOn
    rw [h]
  · unfold distinctOn
    rw [Text.twoWords?_append_cons (by decide) (by decide) (by decide)]
    cases hwords : Text.twoWords? "distinct".toList "on".toList x with
    | none => rfl
    | some n =>
      dsimp only
      rw [List.drop_append_of_le_length (Text.length_le_of_twoWords? hwords),
        Text.blankLength_append_cons (by decide),
        Text.head?_drop_append_cons (Text.blankLength_le _) (by decide)]
  · simp [distinctOn, Text.twoWords?, Text.word?, Text.startsWith]

theorem lexical_ilikeAny : Lexical ilikeAny := by
  refine lexical_of_cut (fun _ _ _ h => ?_) (fun before x v => ?_) fun before => ?_
  · unfold ilikeAny
    rw [h]
  · unfold ilikeAny
    rw [Text.twoWords?_append_cons (by decide) (by decide) (by decide)]
    cases hwords : Text.twoWords? "ilike".toList "any".toList x with
    | none => rfl
    | some n =>
      dsimp only
      rw [List.drop_append_of_le_length (Text.length_le_of_twoWords? hwords)]
      cases x.drop n with
      | nil => rfl
      | cons c rest => rfl
  · simp [ilikeAny, Text.twoWords?, Text.word?, Text.startsWith]

/-- The literal of an interval starts with a quote, so that the quote does count here. -/
theorem lexical_intervalLiteral : Lexical intervalLiteral where
  start before after cs h := by
    unfold intervalLiteral
    rw [h]
  quote before cs := by
    unfold intervalLiteral Text.wordThen?
    rw [Text.word?, ← List.nil_append ('\'' :: cs), Text.startsWith_append_cons (by decide)]
    simp [Text.startsWith]
  alike before x v w := by
    have hmark {n : Nat} (hn : n ≤ x.length) : ((x ++ '\'' :: v).drop n).head? =
        ((x ++ '\'' :: w).drop n).head? := by
      rw [List.drop_append_of_le_length hn, List.drop_append_of_le_length hn]
      cases x.drop n <;> rfl
    unfold intervalLiteral Text.wordThen?
    rw [Text.word?_append_cons (by decide), Text.word?_append_cons (by decide)]
    cases hword : Text.word? "interval".toList x with
    | none => rfl
    | some m =>
      have hm := Text.length_le_of_word? hword
      have hgap := Text.blankLength_le (x.drop m)
      rw [List.length_drop] at hgap
      simp only [Option.bind_eq_bind, Option.bind_some]
      rw [List.drop_append_of_le_length hm, List.drop_append_of_le_length hm,
        Text.blankLength_append_cons (by decide), Text.blankLength_append_cons (by decide),
        hmark (by omega)]

/-- **All constructs are looked for that way.** -/
theorem lexical_constructs : ∀ k ∈ constructs, Lexical k.2 := by
  have hcalled {name : String} (hname : Quoteless name.toList ∧ name.toList ≠ []) : Lexical (called name) :=
    lexical_called hname.1 hname.2
  have hfixed {s : String} (hs : '\'' ∉ s.toList ∧ s.toList ≠ []) : Lexical (fixedText s) :=
    lexical_fixedText hs.1 hs.2
  simp only [constructs, List.forall_mem_cons]
  refine ⟨hfixed (by decide), hcalled (by decide), hcalled (by decide), hcalled (by decide),
    hcalled (by decide), hcalled (by decide), hcalled (by decide), hcalled (by decide),
    hcalled (by decide), hcalled (by decide), hcalled (by decide), hcalled (by decide),
    lexical_jsonCall, lexical_distinctOn, lexical_intervalLiteral,
    lexical_either (hfixed (by decide)) (hfixed (by decide)),
    lexical_either (hfixed (by decide)) (hfixed (by decide)), lexical_ilikeAny,
    hcalled (by decide), hcalled (by decide), hcalled (by decide), hcalled (by decide), ?_⟩
  exact fun _ h => nomatch h

/-! ### Looking through a text -/

theorem Lexical.seen_congr (h : Lexical sees) (hbreaks : breaksBefore before = breaksBefore after) :
    sees.seen before cs = sees.seen after cs := by
  cases cs with
  | nil => rfl
  | cons c cs => rw [Sight.seen, Sight.seen, h.start _ _ _ hbreaks]

/-- Nothing is found in a text where nothing is seen. -/
theorem seen_append (h : Clear sees before x v) :
    sees.seen before (x ++ v) = sees.seen (lastOr before x) v := by
  induction x generalizing before with
  | nil => rfl
  | cons c x ih =>
    rw [List.cons_append, Sight.seen, ← List.cons_append, h.1, Bool.false_or, ih h.2]
    rfl

/-- The text of pieces with nothing inside of the literals. -/
def bareText (pieces : List (Text.Piece Unit)) : List Char :=
  pieces.flatMap (Text.Piece.written fun _ => some ['\'', '\''])

theorem emptyLiterals_eq (cs : List Char) : emptyLiterals cs = bareText (Text.scan literalRule cs) :=
  Text.replace_eq ..

/-- The text of pieces is the same with and without the inside of the literals up to the first quote. -/
theorem bareText_alike {pieces : List (Text.Piece Unit)}
    (hquotes : ∀ a taken, .found a taken ∈ pieces → ∃ inner, taken = '\'' :: inner ++ ['\'']) :
    pieces.flatMap Text.Piece.source ++ v = bareText pieces ++ v ∨ ∃ x w w',
      pieces.flatMap Text.Piece.source ++ v = x ++ '\'' :: w ∧ bareText pieces ++ v = x ++ '\'' :: w' := by
  cases pieces with
  | nil => exact .inl rfl
  | cons piece pieces =>
    cases piece with
    | plain c =>
      rcases bareText_alike fun a taken h => hquotes a taken (List.mem_cons_of_mem _ h) with h | h
      · exact .inl (congrArg (c :: ·) h)
      · obtain ⟨x, w, w', h, h'⟩ := h
        exact .inr ⟨c :: x, w, w', congrArg (c :: ·) h, congrArg (c :: ·) h'⟩
    | found a taken =>
      obtain ⟨inner, rfl⟩ := hquotes a taken (List.mem_cons_self ..)
      exact .inr ⟨[], _, _, rfl, rfl⟩

/-- So the same is seen there. -/
theorem Lexical.sees_bareText (h : Lexical sees) {pieces : List (Text.Piece Unit)}
    (hquotes : ∀ a taken, .found a taken ∈ pieces → ∃ inner, taken = '\'' :: inner ++ ['\'']) :
    sees before (pieces.flatMap Text.Piece.source ++ v) = sees before (bareText pieces ++ v) := by
  rcases bareText_alike (v := v) hquotes with heq | ⟨x, w, w', heq, heq'⟩
  · rw [heq]
  · rw [heq, heq', h.alike]

/-- **Where nothing is seen, nothing is seen without the inside of the literals either.** -/
theorem Lexical.clear_bareText (h : Lexical sees) {pieces : List (Text.Piece Unit)}
    (hquotes : ∀ a taken, .found a taken ∈ pieces → ∃ inner, taken = '\'' :: inner ++ ['\''])
    (hclear : Clear sees before (pieces.flatMap Text.Piece.source) v) :
    Clear sees before (bareText pieces) v := by
  induction pieces generalizing before with
  | nil => trivial
  | cons piece pieces ih =>
    have hlater := fun a taken h => hquotes a taken (List.mem_cons_of_mem _ h)
    cases piece with
    | plain c => exact ⟨(h.sees_bareText hquotes).symm.trans hclear.1, ih hlater hclear.2⟩
    | found a taken =>
      obtain ⟨inner, rfl⟩ := hquotes a taken (List.mem_cons_self ..)
      rw [List.flatMap_cons, Text.Piece.source, Text.clear_append, Text.lastOr_append] at hclear
      exact ⟨h.quote _ _, h.quote _ _, ih hlater hclear.2⟩

/-- The inside of the literals does not matter to what stands at the end. -/
theorem lastOr_bareText {pieces : List (Text.Piece Unit)}
    (hquotes : ∀ a taken, .found a taken ∈ pieces → ∃ inner, taken = '\'' :: inner ++ ['\'']) :
    lastOr before (bareText pieces) = lastOr before (pieces.flatMap Text.Piece.source) := by
  induction pieces generalizing before with
  | nil => rfl
  | cons piece pieces ih =>
    have hlater := fun a taken h => hquotes a taken (List.mem_cons_of_mem _ h)
    cases piece with
    | plain c => exact ih hlater
    | found a taken =>
      obtain ⟨inner, rfl⟩ := hquotes a taken (List.mem_cons_self ..)
      rw [List.flatMap_cons, Text.Piece.source, Text.lastOr_append, Text.lastOr_append]
      exact ih hlater

/-- **Behind a text without constructs those are found that are found without it,** if the text closes its
literals and no word runs on from it. -/
theorem residual_append (heven : oddQuotes x = false) (hlast : x.getLast? ≠ some '\'')
    (hbreaks : breaksBefore (lastOr none x) = true) (hclear : ∀ k ∈ constructs, ∀ v, Clear k.2 none x v)
    (s : List Char) : residual (x ++ s) = residual s := by
  have hsource := Text.flatMap_source_scan literalRule x
  have hquotes (a : Unit) (taken : List Char) (hfound : .found a taken ∈ Text.scan literalRule x) :
      ∃ inner, taken = '\'' :: inner ++ ['\''] :=
    quotes_of_found hfound
  have hbare : emptyLiterals (x ++ s) = bareText (Text.scan literalRule x) ++ emptyLiterals s := by
    rw [emptyLiterals_eq, emptyLiterals_eq, scan_append heven (.inl hlast)]
    exact List.flatMap_append
  have hstart : breaksBefore (lastOr none (bareText (Text.scan literalRule x))) = breaksBefore none := by
    rw [lastOr_bareText hquotes, hsource]
    exact hbreaks
  unfold residual
  dsimp only
  rw [hbare]
  refine congrArg (List.map _) (List.filter_congr fun k hk => ?_)
  have hlexical := lexical_constructs k hk
  have hnone : Clear k.2 none (bareText (Text.scan literalRule x)) (emptyLiterals s) :=
    hlexical.clear_bareText hquotes (by rw [hsource]; exact hclear k hk _)
  rw [seen_append hnone, hlexical.seen_congr hstart]

end Sql
end CardTransfer

/-!
## Names exchanged behind a text

A name is exchanged in each stretch outside of literals on its own. A text in which no name starts is passed
over (`rename_append`): its stretches are kept, and the last of them, which runs on into what follows, does
not change what is found there, if no word runs on from it.
-/

namespace CardTransfer
namespace Sql

open Text (breaksBefore Clear isMatch lastOr replaceFrom)

variable {rule : Text.Rule Unit} {write : Unit → Option (List Char)} {before after : Option Char}
  {x v run s : List Char}

/-- A rule that takes nothing from a quote on, and starts where no word goes on. -/
structure LexicalRule (rule : Text.Rule Unit) : Prop where
  start : ∀ before after cs, breaksBefore before = breaksBefore after → rule before cs = rule after cs
  cut : ∀ before x v, rule before (x ++ '\'' :: v) = rule before x

theorem lexicalRule_callRule {word : List Char} (hword : Quoteless word) : LexicalRule (callRule word) where
  start before after cs h := by
    unfold callRule callHead?
    rw [h]
  cut before x v := by
    unfold callRule
    rw [callHead?_append_quote hword]

theorem lexicalRule_todayRule : LexicalRule todayRule where
  start before after cs h := by
    unfold todayRule
    rw [h]
  cut before x v := by
    unfold todayRule
    dsimp only
    rw [Text.startsWith_append_cons (by decide)]
    cases hx : Text.startsWith "current_date".toList x with
    | false => simp
    | true =>
      rw [List.drop_append_of_le_length (Text.length_le_of_startsWith hx)]
      generalize x.drop "current_date".toList.length = rest
      have hbreaks : Text.breaksAfter (rest ++ '\'' :: v) = Text.breaksAfter rest := by
        cases rest with
        | nil => rfl
        | cons => rfl
      rw [hbreaks, Text.blankLength_append_cons (by decide), bne, bne,
        Text.head?_drop_append_cons (Text.blankLength_le _) (by decide)]

theorem lexicalRule_renames : ∀ r ∈ renames, LexicalRule r.1 := by
  simp only [renames, List.forall_mem_cons]
  exact ⟨lexicalRule_callRule (by decide), lexicalRule_callRule (by decide),
    lexicalRule_callRule (by decide), lexicalRule_todayRule, fun _ h => nomatch h⟩

namespace LexicalRule

theorem replaceFrom_congr (h : LexicalRule rule) (hbreaks : breaksBefore before = breaksBefore after) :
    replaceFrom rule write 0 before x = replaceFrom rule write 0 after x :=
  Text.replaceFrom_before (h.start _ _ _ hbreaks)

theorem clear_congr (h : LexicalRule rule) (hbreaks : breaksBefore before = breaksBefore after) :
    Clear (isMatch rule) before x v ↔ Clear (isMatch rule) after x v :=
  Text.clear_before (congrArg Option.isSome (h.start _ _ _ hbreaks))

theorem clear_cut (h : LexicalRule rule) (hclear : Clear (isMatch rule) before x ('\'' :: v)) :
    Clear (isMatch rule) before x [] := by
  induction x generalizing before with
  | nil => trivial
  | cons c x ih =>
    refine ⟨?_, ih hclear.2⟩
    have hhere := hclear.1
    rw [isMatch, h.cut] at hhere
    rwa [List.append_nil]

/-- A stretch without names is kept in front of any other. -/
theorem replace_append (h : LexicalRule rule) (hclear : Clear (isMatch rule) none x v)
    (hbreaks : breaksBefore (lastOr none x) = true) :
    Text.replace rule write (x ++ v) = x ++ Text.replace rule write v := by
  have hstart : breaksBefore (lastOr none x) = breaksBefore none := hbreaks
  rw [Text.replace_eq, Text.replaceFrom_append hclear, Text.replace_eq, h.replaceFrom_congr hstart]

end LexicalRule

/-- What is set apart at the start of a run is set apart at the start of a text. -/
theorem mapRuns_append {f : List Char → List Char} {w : List Char} (hf : ∀ v, f (x ++ v) = w ++ f v)
    (pieces : List (Text.Piece Unit)) :
    mapRuns f (run ++ x.reverse) pieces = w ++ mapRuns f run pieces := by
  induction pieces generalizing run with
  | nil => rw [mapRuns, mapRuns, List.reverse_append, List.reverse_reverse, hf]
  | cons piece pieces ih =>
    cases piece with
    | plain c => exact @ih (c :: run)
    | found a taken =>
      rw [mapRuns, mapRuns, List.reverse_append, List.reverse_reverse, hf]
      simp only [List.append_assoc]

theorem breaksBefore_lastOr (h : breaksBefore (lastOr before x) = true) :
    breaksBefore (lastOr none x) = true := by
  cases x with
  | nil => rfl
  | cons => exact h

/-- Pieces in which no name starts are kept in front of others, if no word runs on from them. -/
theorem LexicalRule.mapRuns_append (h : LexicalRule rule) {pieces : List (Text.Piece Unit)}
    (hquotes : ∀ a taken, .found a taken ∈ pieces → ∃ inner, taken = '\'' :: inner ++ ['\''])
    (hclear : ∀ v, Clear (isMatch rule) none (run.reverse ++ pieces.flatMap Text.Piece.source) v)
    (hbreaks : breaksBefore (lastOr none (run.reverse ++ pieces.flatMap Text.Piece.source)) = true)
    (later : List (Text.Piece Unit)) :
    mapRuns (Text.replace rule write) run (pieces ++ later) =
      run.reverse ++ pieces.flatMap Text.Piece.source ++ mapRuns (Text.replace rule write) [] later := by
  induction pieces generalizing run with
  | nil =>
    simp only [List.flatMap_nil, List.append_nil, List.nil_append] at hclear hbreaks ⊢
    have hrun : mapRuns (Text.replace rule write) ([] ++ run.reverse.reverse) later = _ :=
      Sql.mapRuns_append (fun v => h.replace_append (hclear v) hbreaks) later
    rwa [List.reverse_reverse] at hrun
  | cons piece pieces ih =>
    have hlater := fun a taken h => hquotes a taken (List.mem_cons_of_mem _ h)
    cases piece with
    | plain c =>
      have hmoved (rest : List Char) : run.reverse ++ (c :: rest) = (c :: run).reverse ++ rest := by simp
      rw [List.flatMap_cons, Text.Piece.source, List.singleton_append, hmoved] at hclear hbreaks ⊢
      exact ih hlater hclear hbreaks
    | found a taken =>
      obtain ⟨inner, rfl⟩ := hquotes a taken (List.mem_cons_self ..)
      rw [List.flatMap_cons, Text.Piece.source] at hclear hbreaks
      -- the run ends at the quote, and the pieces behind the literal start on their own
      have hrun : Text.replace rule write run.reverse = run.reverse := by
        have hhere := (Text.clear_append.1 (hclear [])).1
        have hcopy : replaceFrom rule write 0 none (run.reverse ++ []) = _ :=
          Text.replaceFrom_append (h.clear_cut hhere)
        rw [List.append_nil] at hcopy
        rw [Text.replace_eq, hcopy]
        exact List.append_nil _
      have hrest := by
        refine @ih [] hlater (fun v => ?_) ?_
        · have hthere := (Text.clear_append.1 (Text.clear_append.1 (hclear v)).2).2
          rw [Text.lastOr_append] at hthere
          have hquote : breaksBefore (some '\'') = breaksBefore none := by decide
          exact (h.clear_congr hquote).1 hthere
        · rw [Text.lastOr_append, Text.lastOr_append] at hbreaks
          exact breaksBefore_lastOr hbreaks
      rw [List.cons_append, mapRuns, hrun, hrest]
      simp [Text.Piece.source]

/-- **A name is exchanged behind a text as it is without it,** if none starts in the text. -/
theorem rename_append (h : LexicalRule rule) {text : String} (heven : oddQuotes x = false)
    (hlast : x.getLast? ≠ some '\'') (hbreaks : breaksBefore (lastOr none x) = true)
    (hclear : ∀ v, Clear (isMatch rule) none x v) :
    rename rule text (x ++ s) = x ++ rename rule text s := by
  have hsource := Text.flatMap_source_scan literalRule x
  have hquotes (a : Unit) (taken : List Char) (hfound : .found a taken ∈ Text.scan literalRule x) :
      ∃ inner, taken = '\'' :: inner ++ ['\''] :=
    quotes_of_found hfound
  have hmap : mapRuns (Text.replace rule fun _ => some text.toList) []
      (Text.scan literalRule x ++ Text.scan literalRule s) = _ :=
    h.mapRuns_append hquotes (by rwa [hsource]) (by rwa [hsource]) (Text.scan literalRule s)
  unfold rename mapOutside
  rw [scan_append heven (.inl hlast), hmap, hsource]
  rfl

end Sql
end CardTransfer
