import CardTransfer.Proofs.Sql.CastType
import CardTransfer.Proofs.Sql.Comment

/-!
# Rules on both sides of a mark

The colons of a cast, the `AS` of a `CAST` and the parenthesis that closes it are marks (`IsMark`): no call and
no name that is exchanged reaches over them. All rules but those of casts (`finish`) do to the two sides of a
mark what they do to each alone (`finish_mark`), and leave alone what a call starts with that has been written
for a cast (`finish_start`).
-/

namespace CardTransfer
namespace Sql

open Text (breaksBefore Clear isMatch lastOr replaceFrom isBlank isWord)

variable {x y z cs run mark start : List Char} {rule : Text.Rule Unit} {before : Option Char}

/-! ### Marks -/

/-- What a call starts with that is written for a cast, and the `AS` of a `CAST`. -/
def fronts : List (List Char) := "CAST(".toList :: "AS ".toList :: functions.map (· ++ ['('])

/-- What separates the parts of a cast: a sign, or blanks and the start of a call. -/
inductive IsMark : List Char → Prop
  | sign {c : Char} (hword : isWord c = false) (hblank : isBlank c = false) (hc : c ∉ ['\'', '(']) : IsMark [c]
  | front {gap front : List Char} (hne : gap ≠ []) (hgap : ∀ c ∈ gap, isBlank c = true) (h : front ∈ fronts) :
    IsMark (gap ++ front)

/-- What the rules leave alone in front of a text. -/
inductive IsStart : List Char → Prop
  | front {front : List Char} (h : front ∈ fronts) : IsStart front
  | sign {c : Char} (hword : isWord c = false) (hc : c ≠ '\'') : IsStart [c]

theorem quote_notMem_of_isBlank (h : ∀ c ∈ x, isBlank c = true) : '\'' ∉ x := fun hmem =>
  absurd (h _ hmem) (by decide)

theorem front_facts {front : List Char} (h : front ∈ fronts) : '\'' ∉ front ∧
    breaksBefore (lastOr none front) = true ∧ ∃ c rest, front = c :: rest ∧ isBlank c = false ∧ c ≠ '(' := by
  have hall : ∀ f ∈ fronts, '\'' ∉ f ∧ breaksBefore (lastOr none f) = true ∧
      (f.head?.any fun c => !isBlank c && c != '(') = true := by
    decide
  obtain ⟨hquote, hbreaks, hhead⟩ := hall front h
  cases front with
  | nil => cases hhead
  | cons c rest => exact ⟨hquote, hbreaks, c, rest, rfl, by simpa using hhead⟩

theorem IsMark.quote_notMem (h : IsMark mark) : '\'' ∉ mark := by
  cases h with
  | sign _ _ hc => simpa [eq_comm] using (not_or.1 (List.mem_cons.not.1 hc)).1
  | front _ hgap h =>
    rw [List.mem_append, not_or]
    exact ⟨quote_notMem_of_isBlank hgap, (front_facts h).1⟩

theorem IsMark.ne_nil (h : IsMark mark) : mark ≠ [] := by
  cases h with
  | sign => exact List.cons_ne_nil _ _
  | front hne => exact List.append_ne_nil_of_left_ne_nil hne _

theorem IsMark.endsHead (h : IsMark mark) (y : List Char) : EndsHead (mark ++ y) := by
  cases h with
  | @sign c hword hblank hc =>
    refine ⟨by simp [Text.breaksAfter, hword], ?_⟩
    rw [List.singleton_append, List.dropWhile_cons_of_neg (by simp [hblank])]
    simpa using fun hopen : _ = '(' => hc (by rw [hopen]; simp)
  | @front gap front hne hgap h =>
    obtain ⟨-, -, d, rest, rfl, hd, hopen⟩ := front_facts h
    constructor
    · obtain ⟨c, gap, rfl⟩ := List.exists_cons_of_ne_nil hne
      simp [Text.breaksAfter, isWord_of_isBlank (hgap c (List.mem_cons_self ..))]
    · rw [List.append_assoc, List.dropWhile_append_of_pos hgap, List.cons_append,
        List.dropWhile_cons_of_neg (by simp [hd])]
      simpa using hopen

theorem IsMark.breaksBefore_lastOr (h : IsMark mark) (before : Option Char) :
    breaksBefore (lastOr before mark) = breaksBefore none := by
  cases h with
  | sign hword => exact congrArg not hword
  | front _ _ h =>
    obtain ⟨-, hbreaks, c, rest, rfl, -⟩ := front_facts h
    rw [Text.lastOr_append]
    exact hbreaks

theorem IsStart.quote_notMem (h : IsStart start) : '\'' ∉ start := by
  cases h with
  | front h => exact (front_facts h).1
  | sign _ hc => simpa using Ne.symm hc

theorem IsStart.breaksBefore_lastOr (h : IsStart start) : breaksBefore (lastOr none start) = true := by
  cases h with
  | front h => exact (front_facts h).2.1
  | sign hword => exact congrArg not hword

/-! ### Rules that marks keep apart -/

/-- A rule that is kept apart by marks: no match reaches over one or starts in one. -/
structure Separated (rule : Text.Rule Unit) : Prop extends LexicalRule rule where
  ends : ∀ y, EndsHead y → ∀ before x, rule before (x ++ y) = rule before x
  le : ∀ before x n a, rule before x = some (n, a) → n - 1 + 1 ≤ x.length
  sign : ∀ c, isWord c = false → ∀ before z, rule before (c :: z) = none
  front : ∀ front ∈ fronts, ∀ y, Clear (isMatch rule) none front y

theorem Separated.clear_signs (h : Separated rule) (hx : ∀ c ∈ x, isWord c = false) :
    Clear (isMatch rule) before x y := by
  induction x generalizing before with
  | nil => trivial
  | cons c x ih =>
    rw [List.forall_mem_cons] at hx
    exact ⟨Text.isMatch_eq_false.2 (h.sign c hx.1 ..), ih hx.2⟩

theorem Separated.clear_mark (h : Separated rule) (hmark : IsMark mark) (before : Option Char) (y : List Char) :
    Clear (isMatch rule) before mark y := by
  cases hmark with
  | sign hword => exact h.clear_signs (by simpa using hword)
  | @front gap front hne hgap hfront =>
    have hbreaks : breaksBefore (lastOr before gap) = breaksBefore none := by
      obtain ⟨init, c, rfl⟩ := (List.eq_nil_or_concat' gap).resolve_left hne
      rw [Text.lastOr_append]
      exact congrArg not (isWord_of_isBlank (hgap c (by simp)))
    exact Text.clear_append.2 ⟨h.clear_signs fun c hc => isWord_of_isBlank (hgap c hc),
      (h.clear_congr hbreaks).2 (h.front front hfront y)⟩

theorem Separated.clear_start (h : Separated rule) (hstart : IsStart start) (y : List Char) :
    Clear (isMatch rule) none start y := by
  cases hstart with
  | front hfront => exact h.front _ hfront y
  | sign hword => exact h.clear_signs (by simpa using hword)

theorem quoteless_of_isWord {word : List Char} (h : ∀ l ∈ word, isWord l = true) : Quoteless word := by
  intro l hl
  by_contra hfold
  exact still_of_isWord (isWord_of_foldsTo (h l hl) (by simpa using hfold)) (List.mem_cons_self ..)

theorem separated_callRule {word : List Char} (hword : ∀ l ∈ word, isWord l = true) (hne : word ≠ [])
    (hfront : ∀ y, (fronts.all fun front => decide (Clear (isMatch (callRule word)) none front y)) = true) :
    Separated (callRule word) where
  toLexicalRule := lexicalRule_callRule (quoteless_of_isWord hword)
  ends y hy before x := by
    unfold callRule
    rw [callHead?_append hword hy]
  le before x n a h := by
    obtain ⟨m, hm, he⟩ := Option.map_eq_some_iff.1 h
    cases he
    have hpos := callHead?_pos hm
    have hle := (lastOr_head hword hm).2
    omega
  sign c hc before z := by
    obtain ⟨l, word, rfl⟩ := List.exists_cons_of_ne_nil hne
    have hfold : Text.foldsTo l c = false := by
      by_contra hfold
      rw [isWord_of_foldsTo (hword l (List.mem_cons_self ..)) (by simpa using hfold)] at hc
      cases hc
    simp [callRule, callHead?, Text.wordThen?, Text.word?, Text.startsWith, hfold]
  front front h y := of_decide_eq_true (List.all_eq_true.1 (hfront y) front h)

/-- The names that are looked for are made of parts of words. -/
theorem isWord_names : ∀ name ∈ ["character_length", "char_length", "strpos", "current_date", "date_trunc",
    "date_part", "extract", "btrim"], ∀ l ∈ name.toList, isWord l = true := by
  decide

theorem separated_todayRule : Separated todayRule where
  toLexicalRule := lexicalRule_todayRule
  ends y hy before x := by
    unfold todayRule
    dsimp only
    rw [startsWith_append (isWord_names "current_date" (by simp)) hy]
    cases hx : Text.startsWith "current_date".toList x with
    | false => simp
    | true =>
      rw [List.drop_append_of_le_length (Text.length_le_of_startsWith hx)]
      generalize x.drop "current_date".toList.length = rest
      have hbreaks : Text.breaksAfter (rest ++ y) = Text.breaksAfter rest := by
        cases rest with
        | nil => exact hy.1
        | cons => rfl
      rw [hbreaks, bne, bne, head?_afterBlanks_append hy]
  le before x n a h := by
    unfold todayRule at h
    dsimp only at h
    split at h
    case isFalse => cases h
    rename_i hparts
    simp only [Bool.and_eq_true] at hparts
    cases h
    exact Text.length_le_of_startsWith hparts.1.1.2
  sign c hc before z := by
    have hfold : Text.foldsTo 'c' c = false := by
      by_contra hfold
      rw [isWord_of_foldsTo (isWord_names "current_date" (by simp) 'c' (by decide)) (by simpa using hfold)] at hc
      cases hc
    simp [todayRule, Text.startsWith, hfold]
  front front h y := by
    have hall : (fronts.all fun front => decide (Clear (isMatch todayRule) none front y)) = true := rfl
    exact of_decide_eq_true (List.all_eq_true.1 hall front h)

theorem separated_renames : ∀ r ∈ renames, Separated r.1 := by
  simp only [renames, List.forall_mem_cons]
  refine ⟨separated_callRule (isWord_names _ (by simp)) (by decide) fun _ => rfl,
    separated_callRule (isWord_names _ (by simp)) (by decide) fun _ => rfl,
    separated_callRule (isWord_names _ (by simp)) (by decide) fun _ => rfl, separated_todayRule, ?_⟩
  exact List.forall_mem_nil _

/-- The functions whose calls are replaced after the casts. -/
def dateCalls : List String := ["date_trunc", "date_part", "extract", "btrim"]

theorem isWord_dateCalls {function : String} (h : function ∈ dateCalls) :
    ∀ l ∈ function.toList, isWord l = true :=
  isWord_names function (List.mem_append_right ["character_length", "char_length", "strpos", "current_date"] h)

theorem separated_dateCalls : ∀ f ∈ dateCalls, Separated (callRule f.toList) := by
  simp only [dateCalls, List.forall_mem_cons]
  refine ⟨separated_callRule (isWord_names _ (by simp)) (by decide) fun _ => rfl,
    separated_callRule (isWord_names _ (by simp)) (by decide) fun _ => rfl,
    separated_callRule (isWord_names _ (by simp)) (by decide) fun _ => rfl,
    separated_callRule (isWord_names _ (by simp)) (by decide) fun _ => rfl, ?_⟩
  exact List.forall_mem_nil _

/-! ### Names on both sides of a mark -/

theorem Separated.replace_mark {write : Unit → Option (List Char)} (h : Separated rule) (hmark : IsMark mark)
    (x y : List Char) : Text.replace rule write (x ++ (mark ++ y)) =
      Text.replace rule write x ++ (mark ++ Text.replace rule write y) := by
  rw [Text.replace_eq, Text.replaceFrom_append_of_local (fun before _ _ => h.ends _ (hmark.endsHead y) before _)
      (fun before x n a hrule => by have := h.le before x n a hrule; omega) (Nat.zero_le _),
    Text.replaceFrom_append (h.clear_mark hmark ..), h.replaceFrom_congr (hmark.breaksBefore_lastOr _),
    Text.replace_eq, Text.replace_eq]

theorem mapRuns_plain {f : List Char → List Char} (x : List Char) (later : List (Text.Piece Unit)) :
    mapRuns f run (x.map .plain ++ later) = mapRuns f (x.reverse ++ run) later := by
  induction x generalizing run with
  | nil => rfl
  | cons c x ih =>
    rw [List.map_cons, List.cons_append, mapRuns, ih, List.reverse_cons, List.append_assoc]
    rfl

/-- A mark divides the run that it stands in. -/
theorem mapRuns_mark {f : List Char → List Char}
    (hf : ∀ x y, f (x ++ (mark ++ y)) = f x ++ (mark ++ f y)) (pieces later : List (Text.Piece Unit)) :
    mapRuns f run (pieces ++ (mark.map .plain ++ later)) =
      mapRuns f run pieces ++ (mark ++ mapRuns f [] later) := by
  induction pieces generalizing run with
  | nil =>
    have hrun (v : List Char) : f (run.reverse ++ mark ++ v) = (f run.reverse ++ mark) ++ f v := by
      rw [List.append_assoc, hf, List.append_assoc]
    have hset : mapRuns f ([] ++ (run.reverse ++ mark).reverse) later = _ := mapRuns_append hrun later
    rw [List.reverse_append, List.reverse_reverse] at hset
    rw [List.nil_append, mapRuns_plain, mapRuns, ← List.append_assoc]
    exact hset
  | cons piece pieces ih =>
    cases piece with
    | plain c => exact ih
    | found a taken => rw [List.cons_append, mapRuns, mapRuns, ih, ← List.append_assoc]

/-- A text without quotes holds no literal. -/
theorem scan_of_quoteless (h : '\'' ∉ x) : Text.scan literalRule x = x.map .plain := by
  have hfrom (before : Option Char) : Text.scanFrom literalRule 0 before x = x.map .plain := by
    induction x generalizing before with
    | nil => rfl
    | cons c x ih =>
      rw [List.mem_cons, not_or] at h
      have hnone : literalRule before (c :: x) = none := by
        unfold literalRule
        split
        · rename_i heq
          exact absurd (List.cons.inj heq).1.symm h.1
        · rfl
      rw [Text.scanFrom, hnone, List.map_cons, ← ih h.2]
  exact hfrom none

theorem oddQuotes_of_quoteless (h : '\'' ∉ x) : oddQuotes x = false := by
  rw [oddQuotes, List.count_eq_zero.2 h]
  rfl

/-- Literals lie on one side of a text without quotes if the quotes before it are even in number. -/
theorem scan_quoteless (hmark : '\'' ∉ mark) (hne : mark ≠ []) (heven : oddQuotes x = false) (y : List Char) :
    Text.scan literalRule (x ++ (mark ++ y)) =
      Text.scan literalRule x ++ (mark.map .plain ++ Text.scan literalRule y) := by
  have hhead : (mark ++ y).head? ≠ some '\'' := by
    obtain ⟨c, mark, rfl⟩ := List.exists_cons_of_ne_nil hne
    rintro ⟨⟩
    exact hmark (List.mem_cons_self ..)
  rw [scan_append heven (.inr hhead), scan_append (oddQuotes_of_quoteless hmark)
    (.inl fun hlast => hmark (List.mem_of_getLast? hlast)), scan_of_quoteless hmark]

/-- **A name is exchanged on each side of a mark** if the quotes before the mark are even in number. -/
theorem rename_mark {text : String} (h : Separated rule) (hmark : IsMark mark) (heven : oddQuotes x = false)
    (y : List Char) : rename rule text (x ++ (mark ++ y)) = rename rule text x ++ (mark ++ rename rule text y) := by
  unfold rename mapOutside
  rw [scan_quoteless hmark.quote_notMem hmark.ne_nil heven]
  exact mapRuns_mark (h.replace_mark hmark) ..

/-- Literals inside of which nothing stands lie on one side of a text without quotes, too. -/
theorem emptyLiterals_quoteless (hmark : '\'' ∉ mark) (hne : mark ≠ []) (heven : oddQuotes x = false)
    (y : List Char) : emptyLiterals (x ++ (mark ++ y)) = emptyLiterals x ++ (mark ++ emptyLiterals y) := by
  have hplain : bareText (mark.map .plain) = mark := by
    simp [bareText, List.flatMap_map, Text.Piece.written]
  rw [emptyLiterals_eq, emptyLiterals_eq, emptyLiterals_eq, scan_quoteless hmark hne heven, bareText,
    List.flatMap_append, List.flatMap_append]
  exact congrArg (_ ++ ·) (congrArg (· ++ _) hplain)

/-! ### Quotes that are kept -/

/-- A match holds no quote. -/
theorem Separated.quote_notMem (h : Separated rule) {n : Nat} {a : Unit} (hrule : rule before cs = some (n, a)) :
    '\'' ∉ cs.take (n - 1 + 1) := by
  intro hmem
  obtain ⟨x, v, hx⟩ := List.append_of_mem hmem
  have hcs : cs = x ++ '\'' :: (v ++ cs.drop (n - 1 + 1)) := by
    have hsplit := List.take_append_drop (n - 1 + 1) cs
    rw [hx, List.append_assoc] at hsplit
    exact hsplit.symm
  have hlength := congrArg List.length hx
  rw [List.length_take, List.length_append, List.length_cons] at hlength
  rw [hcs, h.cut] at hrule
  have hle := h.le _ _ _ _ hrule
  omega

theorem Separated.count_replaceFrom (h : Separated rule) {text : List Char} (htext : '\'' ∉ text) (skip : Nat) :
    (replaceFrom rule (fun _ => some text) skip before cs).count '\'' = (cs.drop skip).count '\'' := by
  induction cs generalizing skip before with
  | nil => simp [replaceFrom, Text.scanFrom]
  | cons c cs ih =>
    cases skip with
    | succ skip => exact ih skip
    | zero =>
      cases hrule : rule before (c :: cs) with
      | none =>
        rw [Text.replaceFrom_cons_none hrule, List.count_cons, ih, List.drop_zero, List.drop_zero, List.count_cons]
      | some p =>
        obtain ⟨n, a⟩ := p
        have htaken := List.count_eq_zero.2 (h.quote_notMem hrule)
        rw [Text.replaceFrom_cons_some hrule, List.count_append, ih, Option.getD_some, List.count_eq_zero.2 htext,
          List.drop_zero, ← List.take_append_drop (n - 1 + 1) (c :: cs), List.count_append, htaken,
          List.drop_succ_cons]

theorem count_mapRuns {f : List Char → List Char} (hf : ∀ x, (f x).count '\'' = x.count '\'')
    (pieces : List (Text.Piece Unit)) : (mapRuns f run pieces).count '\'' =
      run.count '\'' + (pieces.flatMap Text.Piece.source).count '\'' := by
  induction pieces generalizing run with
  | nil => simp [mapRuns, hf]
  | cons piece pieces ih =>
    cases piece with
    | plain c =>
      rw [mapRuns, ih, List.flatMap_cons, Text.Piece.source, List.count_append, List.count_cons,
        List.count_singleton, Nat.add_assoc]
    | found a taken => simp [mapRuns, hf, ih, Text.Piece.source]

/-- The exchange of a name keeps the quotes. -/
theorem Separated.oddQuotes_rename (h : Separated rule) {text : String} (htext : '\'' ∉ text.toList)
    (x : List Char) : oddQuotes (rename rule text x) = oddQuotes x := by
  have hreplace (x : List Char) :
      (Text.replace rule (fun _ => some text.toList) x).count '\'' = x.count '\'' := by
    rw [Text.replace_eq, h.count_replaceFrom htext, List.drop_zero]
  have hcount : (mapRuns (Text.replace rule fun _ => some text.toList) [] (Text.scan literalRule x)).count '\'' =
      _ := count_mapRuns hreplace _
  rw [Text.flatMap_source_scan, List.count_nil, Nat.zero_add] at hcount
  unfold rename mapOutside oddQuotes
  rw [hcount]

/-! ### The rules after those of casts -/

/-- What the rules that follow those of casts do. -/
def finish (cs : List Char) : List Char :=
  renames.foldl (fun text r => rename r.1 r.2 text)
    (replaceCalls "btrim" trimCall? (replaceDatePart (replaceDateTrunc cs)))

theorem applyRules_eq (cs : List Char) : applyRules cs = finish (convertPostfixCasts (convertCasts cs)) := rfl

/-- A change of a text that does to both sides of a mark what it does to each alone, if what stands before the
mark has a property, which it keeps; and that leaves starts alone. -/
structure Divides (P : List Char → Prop) (f : List Char → List Char) : Prop where
  keeps : ∀ x, P x → P (f x)
  mark : ∀ mark, IsMark mark → ∀ x y, P x → f (x ++ (mark ++ y)) = f x ++ (mark ++ f y)
  start : ∀ start, IsStart start → ∀ y, f (start ++ y) = start ++ f y

theorem Divides.comp {P : List Char → Prop} {f g : List Char → List Char} (hf : Divides P f)
    (hg : Divides P g) : Divides P fun x => g (f x) where
  keeps x hx := hg.keeps _ (hf.keeps x hx)
  mark mark hmark x y hx := by rw [hf.mark mark hmark x y hx, hg.mark mark hmark _ _ (hf.keeps x hx)]
  start start hstart y := by rw [hf.start start hstart, hg.start start hstart]

/-- The replacement of calls does so in closed texts. -/
theorem divides_replaceCalls {function : String} {handler : List Char → Option (List Char)}
    (hfunction : function ∈ dateCalls)
    (hkeeps : ∀ inner text, handler inner = some text → Closed nothing inner → Closed nothing text) :
    Divides (Closed nothing) (replaceCalls function handler) where
  keeps x hx := nesting_replaceCallsFrom (isWord_dateCalls hfunction) hkeeps hx
  mark mark hmark x y hx := by
    have hsep := separated_dateCalls function hfunction
    unfold replaceCalls
    rw [replaceCallsFrom_append_of_nesting (isWord_dateCalls hfunction) (hmark.endsHead y) hx,
      replaceCallsFrom_append (hsep.clear_mark hmark ..), replaceCallsFrom_congr (hmark.breaksBefore_lastOr _),
      oddQuotes_of_quoteless hmark.quote_notMem]
    rfl
  start start hstart y := replaceCalls_append (oddQuotes_of_quoteless hstart.quote_notMem)
    hstart.breaksBefore_lastOr ((separated_dateCalls function hfunction).clear_start hstart y)

theorem divides_rename {r : Text.Rule Unit × String} (hr : r ∈ renames) :
    Divides (oddQuotes · = false) (rename r.1 r.2) where
  keeps x hx := by
    have htexts : ∀ r ∈ renames, '\'' ∉ r.2.toList := by
      simp only [renames, List.forall_mem_cons]
      exact ⟨by decide, by decide, by decide, by decide, List.forall_mem_nil _⟩
    rw [(separated_renames r hr).oddQuotes_rename (htexts r hr)]
    exact hx
  mark mark hmark x y hx := rename_mark (separated_renames r hr) hmark hx y
  start start hstart y := rename_append (lexicalRule_renames r hr) (oddQuotes_of_quoteless hstart.quote_notMem)
    (fun hlast => hstart.quote_notMem (List.mem_of_getLast? hlast)) hstart.breaksBefore_lastOr
    fun v => (separated_renames r hr).clear_start hstart v

theorem divides_foldl {rules : List (Text.Rule Unit × String)} (h : ∀ r ∈ rules, r ∈ renames) :
    Divides (oddQuotes · = false) fun x => rules.foldl (fun text r => rename r.1 r.2 text) x := by
  induction rules with
  | nil => exact ⟨fun _ hx => hx, fun _ _ _ _ _ => rfl, fun _ _ _ => rfl⟩
  | cons r rules ih =>
    exact (divides_rename (h r (List.mem_cons_self ..))).comp (ih fun q hq => h q (List.mem_cons_of_mem _ hq))

theorem divides_renames :
    Divides (oddQuotes · = false) fun x => renames.foldl (fun text r => rename r.1 r.2 text) x :=
  divides_foldl fun _ h => h

theorem divides_calls : Divides (Closed nothing) fun cs =>
    replaceCalls "btrim" trimCall? (replaceDatePart (replaceDateTrunc cs)) :=
  (((divides_replaceCalls (by simp [dateCalls]) fun _ _ => closed_truncCall?).comp
    (divides_replaceCalls (by simp [dateCalls]) fun _ _ => closed_partCall?)).comp
    (divides_replaceCalls (by simp [dateCalls]) fun _ _ => closed_extractCall?)).comp
    (divides_replaceCalls (by simp [dateCalls]) fun _ _ => closed_trimCall?)

/-- **The two sides of a mark are finished apart** if what stands before it is closed. -/
theorem finish_mark (hmark : IsMark mark) (hx : Closed nothing x) (y : List Char) :
    finish (x ++ (mark ++ y)) = finish x ++ (mark ++ finish y) := by
  have hcalls := divides_calls.mark mark hmark x y hx
  have heven := (divides_calls.keeps x hx).even
  rw [finish, hcalls]
  exact divides_renames.mark mark hmark _ _ heven

/-- What a text starts with is left alone if it is the start of a call or a sign. -/
theorem finish_start (hstart : IsStart start) (y : List Char) : finish (start ++ y) = start ++ finish y := by
  have hcalls := divides_calls.start start hstart y
  rw [finish, hcalls]
  exact divides_renames.start start hstart _

theorem oddQuotes_finish (hx : Closed nothing x) : oddQuotes (finish x) = false :=
  divides_renames.keeps _ (divides_calls.keeps x hx).even

end Sql
end CardTransfer
