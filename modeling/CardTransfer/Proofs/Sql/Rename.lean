import CardTransfer.Proofs.Sql.CallEdit
import CardTransfer.Proofs.Sql.LiteralsKept

/-!
# The exchange of names as edits

A name is exchanged in each stretch between two literals by itself. Whether a place lies in such a stretch can be
told from the quotes behind it: their number is odd or even as that of the whole text, or there are none. So the
exchange of a name is one replacement in the whole text (`rename_eq`), by a rule that looks at such places only
(`unquoted`).

Each exchange is a series of edits (`edits_rename`), and none of them brings a name to be exchanged
(`Renaming.clear`): a name in front of an edit does not reach into it (`blind_renames`).
-/

namespace CardTransfer
namespace Sql

open Text (breaksBefore Clear isMatch lastOr isBlank isWord)

variable {rule : Text.Rule Unit} {r q : Text.Rule Unit × String} {u v w x y z name rest : List Char}
  {before after : Option Char} {odd : Bool} {c d e : Char} {n : Nat}

/-! ### Places outside of literals -/

/-- A rule at the places of a text that do not lie in a literal. `odd` tells whether the quotes of the whole text are
odd in number. -/
def unquoted (odd : Bool) (rule : Text.Rule Unit) : Text.Rule Unit := fun before cs =>
  if oddQuotes cs = odd ∨ '\'' ∉ cs then rule before cs else none

theorem unquoted_eq_none (h : rule before x = none) : unquoted odd rule before x = none := by
  unfold unquoted
  rw [h, ite_self]

theorem unquoted_eq_some {p : Nat × Unit} (h : unquoted odd rule before x = some p) :
    rule before x = some p ∧ (oddQuotes x = odd ∨ '\'' ∉ x) := by
  unfold unquoted at h
  split at h
  · exact ⟨h, ‹_›⟩
  · cases h

theorem unquoted_before (h : rule before x = rule after x) :
    unquoted odd rule before x = unquoted odd rule after x := by
  unfold unquoted
  rw [h]

/-- Inside of a literal the rule sees nothing. -/
theorem clear_closing? (h : Separated rule) (hclosing : closing? x = some n) :
    Clear (isMatch (unquoted (oddQuotes (x.drop n)) rule)) before (x.take n) (x.drop n) := by
  have hquote (before : Option Char) (odd : Bool) (z : List Char) :
      isMatch (unquoted odd rule) before ('\'' :: z) = false :=
    Text.isMatch_eq_false.2 (unquoted_eq_none (h.sign '\'' (by decide) ..))
  fun_induction closing? x generalizing n before with
  | case1 => cases hclosing
  | case2 cs m hm ih =>
    cases hclosing
    exact ⟨hquote .., hquote .., ih hm⟩
  | case3 cs hm ih =>
    cases hclosing
    exact ⟨hquote .., trivial⟩
  | case4 c cs hc hq =>
    cases hclosing
    cases beq_iff_eq.1 hq
    exact ⟨hquote .., trivial⟩
  | case5 c cs hc hq ih =>
    obtain ⟨m, hm, rfl⟩ := Option.map_eq_some_iff.1 hclosing
    refine ⟨Text.isMatch_eq_false.2 (if_neg ?_), ih hm⟩
    have htaken := oddQuotes_take_closing? hm
    have hsplit := oddQuotes_append (cs.take m) (cs.drop m)
    rw [List.take_append_drop, htaken] at hsplit
    have hmem : '\'' ∈ cs := by
      by_contra hnone
      rw [oddQuotes_of_quoteless fun hmem => hnone (List.mem_of_mem_take hmem)] at htaken
      cases htaken
    rw [Bool.not_eq_true] at hq
    rw [List.drop_succ_cons, List.cons_append, List.take_append_drop, oddQuotes_cons, hsplit, hq, not_or, not_not]
    refine ⟨?_, List.mem_cons_of_mem _ hmem⟩
    cases oddQuotes (cs.drop m) <;> decide

/-- A text with a quote that nothing closes is one stretch from there on. -/
theorem mapOutside_unclosed {f : List Char → List Char} (hu : '\'' ∉ u) (hx : '\'' ∉ x) (h : closing? x = none) :
    mapOutside f (u ++ '\'' :: x) = f (u ++ '\'' :: x) := by
  have hscan : Text.scan literalRule ('\'' :: x) = ('\'' :: x).map .plain := by
    rw [Text.scan, Text.scanFrom, literalRule, h, Option.map_none]
    exact congrArg (_ :: ·) ((scanFrom_literalRule_before _ none x).trans (scan_of_quoteless hx))
  rw [mapOutside, scan_append (oddQuotes_of_quoteless hu) (.inl fun hlast => hu (List.mem_of_getLast? hlast)),
    scan_of_quoteless hu, hscan, ← List.map_append, ← List.append_nil (List.map ..), mapRuns_plain, mapRuns,
    List.append_nil, List.reverse_reverse]

/-- **The exchange of a name is a replacement in the whole text.** -/
theorem rename_eq (h : Separated rule) (text : String) (x : List Char) : rename rule text x =
    Text.replaceFrom (unquoted (oddQuotes x) rule) (fun _ => some text.toList) 0 none x := by
  have hle (before : Option Char) (x : List Char) (n : Nat) (a : Unit) (hrule : rule before x = some (n, a)) :
      n ≤ x.length := by
    have hlength := h.le before x n a hrule
    omega
  have hstretch {odd : Bool} {x : List Char} (hagree : ∀ z, z <:+ x → oddQuotes z = odd ∨ '\'' ∉ z) :
      Text.replaceFrom (unquoted odd rule) (fun _ => some text.toList) 0 none x =
        Text.replace rule (fun _ => some text.toList) x := by
    have hall : Text.replaceFrom (unquoted odd rule) (fun _ => some text.toList) 0 none (x ++ []) =
        Text.replaceFrom rule (fun _ => some text.toList) 0 none x ++ [] :=
      Text.replaceFrom_append_of_agree (fun before c z hz => by
        rw [List.append_nil]
        exact if_pos (hagree _ hz)) hle (Nat.zero_le _)
    rwa [List.append_nil, List.append_nil, ← Text.replace_eq] at hall
  induction hn : x.length using Nat.strong_induction_on generalizing x with
  | _ k ih =>
    by_cases hquote : '\'' ∈ x
    case neg =>
      rw [rename, mapOutside_of_quoteless hquote]
      exact (hstretch fun z hz => .inr fun hmem => hquote (hz.subset hmem)).symm
    obtain ⟨u, x, rfl, hu⟩ := List.eq_append_cons_of_mem hquote
    have hodd {v : List Char} (hv : '\'' ∉ v) : oddQuotes (v ++ '\'' :: x) = !oddQuotes x := by
      rw [oddQuotes_append, oddQuotes_of_quoteless hv, oddQuotes_cons, Bool.false_xor]
      exact Bool.xor_true _
    cases hclosing : closing? x with
    | none =>
      have hx := quote_notMem_of_closing? hclosing
      rw [rename, mapOutside_unclosed hu hx hclosing]
      refine (hstretch fun z hz => ?_).symm
      rw [hodd hu]
      obtain ⟨v, hv⟩ := hz
      rcases List.append_eq_append_iff.1 hv with ⟨t, rfl, rfl⟩ | ⟨t, rfl, ht⟩
      · exact .inl (hodd fun hmem => hu (List.mem_append_right _ hmem))
      · cases t with
        | nil =>
          rw [List.nil_append] at ht
          exact .inl (ht ▸ hodd List.not_mem_nil)
        | cons d t =>
          obtain ⟨-, rfl⟩ := List.cons.inj ht
          exact .inr fun hmem => hx (List.mem_append_right _ hmem)
    | some m =>
      have htaken := oddQuotes_take_closing? hclosing
      have hrest : oddQuotes (u ++ '\'' :: x) = oddQuotes (x.drop m) := by
        have hsplit := oddQuotes_append (x.take m) (x.drop m)
        rw [List.take_append_drop, htaken] at hsplit
        rw [hodd hu, hsplit, Bool.true_xor, Bool.not_not]
      have hliteral : Clear (isMatch (unquoted (oddQuotes (x.drop m)) rule)) (Text.lastOr none u) ('\'' :: x.take m)
          (x.drop m) :=
        ⟨Text.isMatch_eq_false.2 (unquoted_eq_none (h.sign '\'' (by decide) ..)), clear_closing? h hclosing⟩
      have hlast : breaksBefore (Text.lastOr (Text.lastOr none u) ('\'' :: x.take m)) = breaksBefore none := by
        obtain ⟨inner, hinner⟩ := take_closing? hclosing
        rw [hinner, ← List.cons_append, Text.lastOr_append]
        rfl
      have hwhole : '\'' :: x.take m ++ x.drop m = '\'' :: x := by rw [List.cons_append, List.take_append_drop]
      have hlater := ih (x.drop m).length (by simp at hn ⊢; omega) (x.drop m) rfl
      rw [rename, mapOutside_closing? hu hclosing, ← rename, hlater, hrest, ← List.cons_append,
        ← Text.replaceFrom_before (unquoted_before (h.start _ _ _ hlast)), ← Text.replaceFrom_append hliteral,
        Text.replace_eq, ← Text.replaceFrom_append_of_agree (fun before c z hz => ?_) hle (Nat.zero_le _), hwhole]
      have hz' : '\'' ∉ c :: z := fun hmem => hu (hz.subset hmem)
      rw [hwhole, unquoted, h.cut, if_pos]
      rw [hodd hz', ← hrest, hodd hu]
      exact .inl rfl

/-! ### What a name is, and what is written for it -/

/-- **What the word `current_date` is.** -/
theorem todayRule_eq_some_iff : todayRule before x = some (n, ()) ↔ breaksBefore before = true ∧
    ∃ name rest, x = name ++ rest ∧ n = name.length ∧ Folds "current_date".toList name ∧ EndsHead rest := by
  have hends (rest : List Char) : EndsHead rest ↔
      Text.breaksAfter rest = true ∧ ((rest.drop (Text.blankLength rest)).head? != some '(') = true := by
    rw [EndsHead, Text.drop_blankLength, bne_iff_ne]
  unfold todayRule
  dsimp only
  constructor
  · intro h
    split at h
    case isFalse => cases h
    rename_i hparts
    simp only [Bool.and_eq_true] at hparts
    obtain ⟨⟨⟨hbefore, hstart⟩, hafter⟩, hparen⟩ := hparts
    cases h
    exact ⟨hbefore, _, _, (List.take_append_drop ..).symm,
      (List.length_take_of_le (Text.length_le_of_startsWith hstart)).symm, folds_of_startsWith hstart,
      (hends _).2 ⟨hafter, hparen⟩⟩
  · rintro ⟨hbefore, name, rest, rfl, rfl, hname, hrest⟩
    obtain ⟨hafter, hparen⟩ := (hends rest).1 hrest
    have hlength : "current_date".toList.length = name.length := hname.length_eq
    rw [hlength, List.drop_left, hbefore, startsWith_of_folds hname, hafter, hparen]
    rfl

/-- **A name that is exchanged, and what is written for it.** -/
structure Exchanged (r : Text.Rule Unit × String) (before : Option Char) (name rest : List Char) : Prop where
  breaks : breaksBefore before = true
  ne_nil : name ≠ []
  quoteless : '\'' ∉ name
  written : Written rest name r.2.toList
  /-- What follows is read as the start of a text. -/
  ends : breaksBefore (lastOr before name) = true ∨ Text.breaksAfter rest = true

/-- A name of another length is none that is looked for. -/
theorem callHead?_of_length {word gap : List Char} {function : String} (hf : function ∈ dateCalls)
    (hlength : word.length ∉ dateCalls.map (·.toList.length)) (hname : Folds word name)
    (hletters : ∀ c ∈ name, isWord c = true) (hgap : ∀ c ∈ gap, isBlank c = true) (z : List Char) :
    callHead? function.toList before (name ++ (gap ++ '(' :: z)) = none := by
  have hstop {gap z : List Char} (hgap : ∀ c ∈ gap, isBlank c = true) : (gap ++ '(' :: z).takeWhile isWord = [] := by
    cases gap with
    | nil => exact List.takeWhile_cons_of_neg (by decide)
    | cons b gap => exact List.takeWhile_cons_of_neg (by simp [isWord_of_isBlank (hgap b (List.mem_cons_self ..))])
  rw [Option.eq_none_iff_forall_ne_some]
  intro n hn
  obtain ⟨-, name', gap', rest, heq, -, hname', hgap'⟩ := callHead?_eq_some_iff.1 hn
  have hsame := congrArg (List.takeWhile isWord) heq
  rw [List.takeWhile_append_of_pos hletters, List.takeWhile_append_of_pos (hname'.isWord (isWord_dateCalls hf)),
    hstop hgap, hstop hgap', List.append_nil, List.append_nil] at hsame
  subst hsame
  exact hlength (List.mem_map.2 ⟨function, hf, hname'.length_eq.trans hname.length_eq.symm⟩)

theorem exists_exchanged_call {word : List Char} {text : String} (hword : ∀ l ∈ word, isWord l = true)
    (hne : word ≠ []) (hlength : word.length ∉ dateCalls.map (·.toList.length)) (htext : text.toList ∈ openings)
    (h : callRule word before x = some (n, ())) : ∃ name rest, x = name ++ rest ∧ n = name.length ∧
      Exchanged (callRule word, text) before name rest := by
  obtain ⟨m, hm, he⟩ := Option.map_eq_some_iff.1 h
  cases he
  obtain ⟨hbefore, name, gap, rest, rfl, rfl, hname, hgap⟩ := callHead?_eq_some_iff.1 hm
  have hletters := hname.isWord hword
  have hhead : IsHead (name ++ (gap ++ ['('])) := ⟨name, gap, rfl, hname.ne_nil hne, hletters, hgap⟩
  refine ⟨name ++ (gap ++ ['(']), rest, by simp, by simp; omega, hbefore, by simp, fun hmem => ?_,
    .name hhead (fun f hf z => ?_) htext, .inl ?_⟩
  · simp only [List.mem_append, List.mem_singleton] at hmem
    rcases hmem with hmem | hmem | hmem
    · exact still_of_isWord (hletters _ hmem) (List.mem_cons_self ..)
    · exact quote_notMem_of_isBlank hgap hmem
    · exact absurd hmem (by decide)
  · simpa using callHead?_of_length hf hlength hname hletters hgap z
  · rw [← List.append_assoc, Text.lastOr_append]
    rfl

theorem exists_exchanged_today (h : todayRule before x = some (n, ())) : ∃ name rest, x = name ++ rest ∧
    n = name.length ∧ Exchanged (todayRule, "today()") before name rest := by
  obtain ⟨hbefore, name, rest, rfl, rfl, hname, hrest⟩ := todayRule_eq_some_iff.1 h
  have hletters := hname.isWord (isWord_names "current_date" (by simp))
  have hne : name ≠ [] := hname.ne_nil (by decide)
  refine ⟨name, rest, rfl, rfl, hbefore, hne, fun hmem => ?_, .today hne hletters hrest, .inr hrest.1⟩
  exact still_of_isWord (hletters _ hmem) (List.mem_cons_self ..)

/-- **Where a name is to be exchanged, what is written for it is an edit.** -/
theorem exists_exchanged (hr : r ∈ renames) (h : r.1 before x = some (n, ())) : ∃ name rest, x = name ++ rest ∧
    n = name.length ∧ Exchanged r before name rest := by
  simp only [renames, List.mem_cons, List.not_mem_nil, or_false] at hr
  rcases hr with rfl | rfl | rfl | rfl
  · exact exists_exchanged_call (isWord_names _ (by simp)) (by decide) (by decide) (by decide) h
  · exact exists_exchanged_call (isWord_names _ (by simp)) (by decide) (by decide) (by decide) h
  · exact exists_exchanged_call (isWord_names _ (by simp)) (by decide) (by decide) (by decide) h
  · exact exists_exchanged_today h

/-! ### The exchange of a name -/

/-- The exchange of a name, as a scan of a text goes on. -/
inductive Renaming (odd : Bool) (r : Text.Rule Unit × String) : Option Char → List Char → List Char → Prop
  | nil {before : Option Char} : Renaming odd r before [] []
  | stays {before : Option Char} {c : Char} {x y : List Char} (hnone : unquoted odd r.1 before (c :: x) = none)
      (later : Renaming odd r (some c) x y) : Renaming odd r before (c :: x) (c :: y)
  | exchanged {before : Option Char} {name x y : List Char} (hname : Exchanged r before name x)
      (hquotes : oddQuotes x = odd ∨ '\'' ∉ x) (later : Renaming odd r none x y) :
      Renaming odd r before (name ++ x) (r.2.toList ++ y)

/-- A name is seen alike at the start of a text and where no word goes on into it. -/
theorem rename_before (hr : r ∈ renames) (h : breaksBefore before = true ∨ Text.breaksAfter x = true) :
    r.1 before x = r.1 none x := by
  have hsep := separated_renames r hr
  rcases h with h | h
  · exact hsep.start _ _ _ h
  · cases x with
    | nil =>
      have hnone (before : Option Char) : r.1 before [] = none := by
        rw [Option.eq_none_iff_forall_ne_some]
        intro p hp
        have hle := hsep.le _ _ _ _ hp
        simp at hle
      rw [hnone, hnone]
    | cons c x =>
      have hc : isWord c = false := by simpa [Text.breaksAfter] using h
      rw [hsep.sign c hc, hsep.sign c hc]

theorem renaming_replaceFrom (hr : r ∈ renames) (odd : Bool) (before : Option Char) (x : List Char) :
    Renaming odd r before x (Text.replaceFrom (unquoted odd r.1) (fun _ => some r.2.toList) 0 before x) := by
  induction hn : x.length using Nat.strong_induction_on generalizing x before with
  | _ k ih =>
    cases x with
    | nil => exact .nil
    | cons c x =>
      cases hmatch : unquoted odd r.1 before (c :: x) with
      | none =>
        rw [Text.replaceFrom_cons_none hmatch]
        exact .stays hmatch (ih x.length (by simp at hn; omega) _ x rfl)
      | some p =>
        obtain ⟨n, a⟩ := p
        obtain ⟨hrule, hquotes⟩ := unquoted_eq_some hmatch
        obtain ⟨name, rest, heq, rfl, hname⟩ := exists_exchanged hr hrule
        rw [heq] at hmatch hquotes hn ⊢
        have hpos := List.length_pos_iff.2 hname.ne_nil
        have hquotes' : oddQuotes rest = odd ∨ '\'' ∉ rest := by
          rw [oddQuotes_append, oddQuotes_of_quoteless hname.quoteless, Bool.false_xor] at hquotes
          exact hquotes.imp_right fun hmem h => hmem (List.mem_append_right _ h)
        rw [Text.replaceFrom_append_some hmatch hname.ne_nil,
          Text.replaceFrom_before (unquoted_before (rename_before hr hname.ends))]
        exact .exchanged hname hquotes' (ih rest.length (by simp at hn; omega) _ rest rfl)

/-! ### Edits -/

/-- What is written holds no quote and no name that is exchanged, and no word goes on behind it. -/
theorem text_facts (hr : r ∈ renames) : '\'' ∉ r.2.toList ∧ (∀ before, breaksBefore (lastOr before r.2.toList) = true) ∧
    ∀ q ∈ renames, ∀ before z, breaksBefore before = true → Clear (isMatch q.1) before r.2.toList z := by
  have htext : r.2.toList ∈ ["lengthUTF8(".toList, "position(".toList, "today()".toList] := by
    have hall : ∀ r ∈ renames, r.2.toList ∈ ["lengthUTF8(".toList, "position(".toList, "today()".toList] := by
      simp only [renames, List.forall_mem_cons]
      exact ⟨by decide, by decide, by decide, by decide, List.forall_mem_nil _⟩
    exact hall r hr
  have hends : ∀ t ∈ ["lengthUTF8(".toList, "position(".toList, "today()".toList], '\'' ∉ t ∧
      ∀ before, breaksBefore (lastOr before t) = true := by
    simp only [List.forall_mem_cons]
    exact ⟨⟨by decide, fun _ => rfl⟩, ⟨by decide, fun _ => rfl⟩, ⟨by decide, fun _ => rfl⟩, List.forall_mem_nil _⟩
  refine ⟨(hends _ htext).1, (hends _ htext).2, fun q hq before z hbefore => ?_⟩
  have hall : (renames.all fun q => ["lengthUTF8(".toList, "position(".toList, "today()".toList].all fun t =>
      decide (Clear (isMatch q.1) none t z)) = true := rfl
  have hnone := of_decide_eq_true (List.all_eq_true.1 (List.all_eq_true.1 hall q hq) _ htext)
  have hbreaks : breaksBefore none = breaksBefore before := hbefore.symm
  exact ((separated_renames q hq).clear_congr hbreaks).1 hnone

/-- **The exchange of a name is a series of edits.** -/
theorem Renaming.edits (hr : r ∈ renames) (h : Renaming odd r before x y) : Edits before (odd ^^ oddQuotes x) x y := by
  obtain ⟨hquote, hends, -⟩ := text_facts hr
  induction h with
  | nil => exact .refl
  | @stays before c x y hnone later ih =>
    refine Edits.append_left (z := [c]) ?_
    have hodd : ((odd ^^ oddQuotes (c :: x)) ^^ oddQuotes [c]) = (odd ^^ oddQuotes x) := by
      rw [oddQuotes_cons, oddQuotes_cons]
      cases odd <;> cases oddQuotes x <;> cases c == '\'' <;> rfl
    rw [hodd]
    exact ih
  | @exchanged before name x y hname hquotes later ih =>
    have heven : oddQuotes (name ++ x) = oddQuotes x := by
      rw [oddQuotes_append, oddQuotes_of_quoteless hname.quoteless, Bool.false_xor]
    have hfirst : Edit before (odd ^^ oddQuotes x) ([] ++ (name ++ x)) ([] ++ (r.2.toList ++ x)) := by
      refine .place hname.written hname.breaks (hquotes.imp (fun hodd => ?_) fun hmem h => ?_)
      · rw [hodd, Bool.xor_self]
        rfl
      · exact (List.mem_append.1 h).elim hname.quoteless hmem
    rw [heven]
    refine .head hfirst (Edits.append_left (z := r.2.toList) ?_)
    rw [oddQuotes_of_quoteless hquote, Bool.xor_false]
    exact ih.of_breaks fun _ => hends _

theorem edits_rename (hr : r ∈ renames) (x : List Char) : Edits none false x (rename r.1 r.2 x) := by
  rw [rename_eq (separated_renames r hr)]
  have hedits := (renaming_replaceFrom hr (oddQuotes x) none x).edits hr
  rwa [Bool.xor_self] at hedits

/-! ### Names do not come in -/

theorem todayRule_blind (hbreaks : breaksBefore (lastOr before u) = true) (hu : u ≠ []) (he : isWord e = true)
    (h : todayRule before (u ++ d :: y) = some (n, ())) :
    todayRule before (u ++ e :: z) = some (n, ()) := by
  obtain ⟨hbefore, name, rest, heq, rfl, hname, hrest⟩ := todayRule_eq_some_iff.1 h
  have hletters := hname.isWord (isWord_names "current_date" (by simp))
  have hlong (t : List Char) (ht : name = u ++ t) : False := by
    have hbreaks' : breaksBefore (lastOr before u) = false := breaksBefore_of_isWord hu fun c hc =>
      hletters c (by rw [ht]; exact List.mem_append_left _ hc)
    rw [hbreaks] at hbreaks'
    cases hbreaks'
  rcases List.append_eq_append_iff.1 heq with ⟨t, ht, -⟩ | ⟨t, rfl, rfl⟩
  · exact (hlong t ht).elim
  cases t with
  | nil => exact (hlong [] (by simp)).elim
  | cons c t =>
    refine todayRule_eq_some_iff.2 ⟨hbefore, name, c :: t ++ e :: z, by simp, rfl, hname, hrest.1, ?_⟩
    have hnext := hrest.2
    rw [List.dropWhile_append] at hnext ⊢
    split
    · rw [List.dropWhile_cons_of_neg (by simp [isBlank_of_isWord he])]
      rintro ⟨⟩
      exact absurd he (by decide)
    · rename_i hblank
      rw [if_neg hblank] at hnext
      obtain ⟨b, s, hs⟩ := List.exists_cons_of_ne_nil (mt List.isEmpty_iff.2 hblank)
      rw [hs] at hnext ⊢
      exact hnext

/-- **A name in front of a word does not reach into it.** -/
theorem blind_renames (hr : r ∈ renames) (hu : u ≠ []) (hbreaks : breaksBefore (lastOr before u) = true)
    (hd : isWord d = true) (he : isWord e = true) : r.1 before (u ++ d :: y) = r.1 before (u ++ e :: z) := by
  have hcall {word : List Char} (hword : ∀ l ∈ word, isWord l = true) (hne : word ≠ []) :
      callRule word before (u ++ d :: y) = callRule word before (u ++ e :: z) :=
    congrArg (Option.map fun n => (n, ())) (callHead?_blind hword hne hu hbreaks hd he)
  simp only [renames, List.mem_cons, List.not_mem_nil, or_false] at hr
  rcases hr with rfl | rfl | rfl | rfl
  · exact hcall (isWord_names _ (by simp)) (by decide)
  · exact hcall (isWord_names _ (by simp)) (by decide)
  · exact hcall (isWord_names _ (by simp)) (by decide)
  · refine Option.ext fun p => ⟨?_, ?_⟩
    · exact todayRule_blind hbreaks hu he
    · exact todayRule_blind hbreaks hu hd

theorem Edit.rename_eq {quoted : Bool} (hr : r ∈ renames) (h : Edit (some c) quoted x y) :
    r.1 before (c :: x) = r.1 before (c :: y) := by
  obtain ⟨hwritten, hbreaks, -⟩ := h
  obtain ⟨⟨d, a', rfl, hd⟩, e, b', rfl, he⟩ := hwritten.starts
  rename_i u v
  exact blind_renames (u := c :: u) (y := a' ++ v) (z := b' ++ v) hr (List.cons_ne_nil _ _) hbreaks hd he

theorem Edits.rename_eq {quoted : Bool} (hr : r ∈ renames) (h : Edits (some c) quoted x y) :
    r.1 before (c :: x) = r.1 before (c :: y) := by
  induction h with
  | refl => rfl
  | tail _ hstep ih => rw [ih, hstep.rename_eq hr]

theorem Renaming.count_quote (hr : r ∈ renames) (h : Renaming odd r before x y) : y.count '\'' = x.count '\'' := by
  induction h with
  | nil => rfl
  | stays _ _ ih => rw [List.count_cons, List.count_cons, ih]
  | exchanged hname _ _ ih =>
    rw [List.count_append, List.count_append, ih, List.count_eq_zero.2 (text_facts hr).1,
      List.count_eq_zero.2 hname.quoteless]

/-- Whether at a place outside of literals one rule matches and another does not. -/
def seenBesides (odd : Bool) (rule other : Text.Rule Unit) : Option Char → List Char → Bool := fun before cs =>
  isMatch (unquoted odd rule) before cs && !isMatch (unquoted odd other) before cs

/-- **Behind the exchange of a name there is another to be exchanged** only if it was there besides. -/
theorem Renaming.clear (hr : r ∈ renames) (hq : q ∈ renames) (h : Renaming odd r before x y)
    (hclear : Clear (seenBesides odd q.1 r.1) before x []) : Clear (isMatch (unquoted odd q.1)) before y [] := by
  obtain ⟨-, hends, htext⟩ := text_facts hr
  induction h with
  | nil => trivial
  | @stays before c x y hnone later ih =>
    refine ⟨?_, ih hclear.2⟩
    have hhere := hclear.1
    have hcount := later.count_quote hr
    have hquotes : oddQuotes (c :: y) = odd ∨ '\'' ∉ c :: y ↔ oddQuotes (c :: x) = odd ∨ '\'' ∉ c :: x := by
      rw [oddQuotes, oddQuotes, ← List.count_eq_zero, ← List.count_eq_zero, List.count_cons, List.count_cons, hcount]
    have hsame : unquoted odd q.1 before (c :: y) = unquoted odd q.1 before (c :: x) := by
      unfold unquoted
      rw [(later.edits hr).rename_eq hq]
      exact if_congr hquotes rfl rfl
    unfold seenBesides isMatch at hhere
    unfold isMatch
    rw [List.append_nil] at hhere ⊢
    rw [hnone, Option.isSome_none, Bool.not_false, Bool.and_true] at hhere
    rw [hsame]
    exact hhere
  | @exchanged before name x y hname hquotes later ih =>
    rw [Text.clear_append] at hclear ⊢
    refine ⟨(htext q hq before _ hname.breaks).imp fun before cs hnone => ?_, ?_⟩
    · exact Text.isMatch_eq_false.2 (unquoted_eq_none (Text.isMatch_eq_false.1 hnone))
    · have hstart : breaksBefore (lastOr before r.2.toList) = breaksBefore none := hends before
      refine (Text.clear_before ?_).2 (ih ((Text.clear_before ?_).1 hclear.2))
      · exact congrArg Option.isSome (unquoted_before ((separated_renames q hq).start _ _ _ hstart))
      · unfold seenBesides isMatch
        rw [List.append_nil, unquoted_before (rename_before hq hname.ends),
          unquoted_before (rename_before hr hname.ends)]

/-! ### Settled names -/

/-- There is no name to be exchanged in a text. -/
def Free (rule : Text.Rule Unit) (x : List Char) : Prop := Clear (isMatch (unquoted (oddQuotes x) rule)) none x []

theorem Free.rename_eq (h : Free rule x) (hsep : Separated rule) (text : String) : rename rule text x = x := by
  have hall : Text.replaceFrom (unquoted (oddQuotes x) rule) (fun _ => some text.toList) 0 none (x ++ []) = x ++ [] :=
    Text.replaceFrom_append h
  rw [List.append_nil] at hall
  rw [Sql.rename_eq hsep, hall]

theorem oddQuotes_rename (hr : r ∈ renames) (x : List Char) : oddQuotes (rename r.1 r.2 x) = oddQuotes x :=
  (separated_renames r hr).oddQuotes_rename (text_facts hr).1 x

theorem free_rename (hr : r ∈ renames) (hq : q ∈ renames)
    (h : Clear (seenBesides (oddQuotes x) q.1 r.1) none x []) : Free q.1 (rename r.1 r.2 x) := by
  rw [Free, oddQuotes_rename hr, rename_eq (separated_renames r hr)]
  exact (renaming_replaceFrom hr _ none x).clear hr hq h

/-- **An exchanged name is gone.** -/
theorem free_rename_self (hr : r ∈ renames) (x : List Char) : Free r.1 (rename r.1 r.2 x) := by
  refine free_rename hr hr ?_
  have hnever (before : Option Char) : Clear (fun _ _ => false) before x [] := by
    induction x generalizing before with
    | nil => trivial
    | cons c x ih => exact ⟨rfl, ih _⟩
  exact (hnever none).imp fun before cs _ => Bool.and_not_self _

/-- A name that is gone does not come in with the exchange of another. -/
theorem Free.rename (hr : r ∈ renames) (hq : q ∈ renames) (h : Free q.1 x) : Free q.1 (rename r.1 r.2 x) :=
  free_rename hr hq (h.imp fun _ _ hnone => by rw [seenBesides, hnone, Bool.false_and])

end Sql
end CardTransfer
