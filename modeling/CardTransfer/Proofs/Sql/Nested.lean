import CardTransfer.Proofs.Sql.PostfixCast
import CardTransfer.Proofs.Sql.TypeKey

/-!
# Casts inside of parentheses

A cast is converted if its type can be read and an operand stands before it (`castAt?_eq_some`). Between
parentheses it is converted as if what stands between them stood alone (`castAt?_frame`): its operand does not
go on over the opening parenthesis, and its type not over the closing one.

This goes on as long as the text between is closed. A conversion keeps it closed if the operand does not begin
inside of a literal, and in a `Regular` text none does (`splitOperand_even`). Then what is in
parentheses is converted apart from what stands around it (`convertPostfixFrom_frame`), and what has been
converted once stays as it is (`convertPostfixCasts_idem`).
-/

namespace CardTransfer
namespace Sql

variable {bad : Bool → Char → Bool} {before cs earlier later taken type rest function w u v x y z : List Char}
  {words : List (List Char)} {depth : Nat} {quoted : Bool} {s : Nat × Bool}

/-! ### One cast -/

/-- What is read at the colons of a cast. -/
theorem castAt?_colons (heven : oddQuotes before = false) (tail : List Char) :
    castAt? before (':' :: ':' :: tail) = (typeReading tail).bind fun p =>
      (splitOperand before).map fun q => (q.2, callOf p.1 q.1.reverse ++ p.2) := by
  simp only [castAt?, typeReading, heven, Bool.false_eq_true, if_false]
  cases castType? tail with
  | none => rfl
  | some p => cases hfunction : conversion? p.1 <;> cases splitOperand before <;> simp [hfunction]

theorem castAt?_of_odd (hodd : oddQuotes before = true) (cs : List Char) : castAt? before cs = none := by
  unfold castAt?
  split
  · rename_i tail
    cases castType? tail <;> simp [hodd]
  · rfl

theorem castAt?_of_ne (h : ∀ tail, cs ≠ ':' :: ':' :: tail) : castAt? before cs = none := by
  unfold castAt?
  split
  · exact absurd rfl (h _)
  · rfl

/-- **When a cast is converted, and to what.** -/
theorem castAt?_eq_some : castAt? before cs = some (earlier, later) ↔ ∃ tail function rest operand,
    cs = ':' :: ':' :: tail ∧ oddQuotes before = false ∧ typeReading tail = some (function, rest) ∧
      splitOperand before = some (operand, earlier) ∧ later = callOf function operand.reverse ++ rest := by
  constructor
  · intro h
    obtain ⟨tail, rfl⟩ : ∃ tail, cs = ':' :: ':' :: tail := by
      by_contra hne
      rw [castAt?_of_ne fun tail heq => hne ⟨tail, heq⟩] at h
      cases h
    cases hodd : oddQuotes before with
    | true =>
      rw [castAt?_of_odd hodd] at h
      cases h
    | false =>
      rw [castAt?_colons hodd] at h
      obtain ⟨⟨function, rest⟩, htype, h⟩ := Option.bind_eq_some_iff.1 h
      obtain ⟨⟨operand, earlier'⟩, hoperand, h⟩ := Option.map_eq_some_iff.1 h
      cases h
      exact ⟨tail, function, rest, operand, rfl, rfl, htype, hoperand, rfl⟩
  · rintro ⟨tail, function, rest, operand, rfl, heven, htype, hoperand, rfl⟩
    rw [castAt?_colons heven, htype, Option.bind_some, hoperand]
    rfl

/-! ### Frames -/

/-- A type is read alike in front of a closing parenthesis that closes none in the text. -/
theorem typeReading_append_close (h : nesting nothing depth false x = some (0, false)) (v : List Char) :
    typeReading (x ++ ')' :: v) = (typeReading x).map fun p => (p.1, p.2 ++ ')' :: v) := by
  unfold typeReading
  rw [castType?_append_close h]
  cases castType? x with
  | none => rfl
  | some p => cases hfunction : conversion? p.1 <;> simp [hfunction]

theorem oddQuotes_of_nesting (h : nesting bad 0 false before.reverse = some (depth, quoted)) :
    oddQuotes before = quoted := by
  have hstate := quoted_of_nesting h
  rw [oddQuotes, List.count_reverse, Bool.false_xor] at hstate
  exact hstate.symm

/-- What may stand everywhere may stand in any text. -/
theorem nesting_nothing (h : nesting bad depth quoted x = some s) : nesting nothing depth quoted x = some s := by
  fun_induction nesting bad depth quoted x <;> simp_all [nesting, nothing]

/-- What stands before the opening parenthesis: no quotes and no braces. -/
def IsFront (w : List Char) : Prop := ∀ c ∈ ['\'', '"', '\x7b'], c ∉ w

/-- From inside of quotes no partner is found in a text without them. -/
theorem splitPartner_none_of_odd {opens closes : Char} (hw : '\'' ∉ w)
    (hodd : (quoted ^^ oddQuotes x) = true) (h : splitPartner opens closes depth quoted x = none) :
    splitPartner opens closes depth quoted (x ++ w) = none := by
  induction x generalizing depth quoted with
  | nil =>
    have hquoted : quoted = true := by simpa [oddQuotes] using hodd
    subst hquoted
    clear h hodd
    rw [List.nil_append]
    induction w with
    | nil => rfl
    | cons c w ih =>
      rw [List.mem_cons, not_or] at hw
      unfold splitPartner
      rw [if_neg (by simpa using Ne.symm hw.1), if_pos rfl, ih hw.2, Option.map_none]
  | cons c x ih =>
    rw [oddQuotes_cons] at hodd
    have hlater {depth : Nat} {quoted : Bool} (hodd : (quoted ^^ oddQuotes x) = true)
        (h : (splitPartner opens closes depth quoted x).map (fun p => (c :: p.1, p.2)) = none) :
        (splitPartner opens closes depth quoted (x ++ w)).map (fun p => (c :: p.1, p.2)) = none := by
      rw [ih hodd (Option.map_eq_none_iff.1 h), Option.map_none]
    rw [List.cons_append]
    unfold splitPartner at h ⊢
    split_ifs at h ⊢ with hquote
    · refine hlater ?_ h
      rw [← hodd, hquote]
      cases quoted <;> cases oddQuotes x <;> rfl
    all_goals rw [Bool.eq_false_iff.2 hquote, Bool.xor_false] at hodd
    · exact hlater hodd h
    · exact hlater hodd h
    · cases depth with
      | zero => cases h
      | succ depth => exact hlater hodd h
    · exact hlater hodd h

theorem takePrimary_frame (hw : IsFront w) (hbefore : nesting nothing 0 false before.reverse = some s)
    (h : takePrimary before = none) : takePrimary (before ++ '(' :: w) = none := by
  have hmarks {c : Char} (hc : c ∈ ['\'', '"', '\x7b']) : c ∉ '(' :: w := by
    rw [List.mem_cons, not_or]
    refine ⟨?_, hw c hc⟩
    rintro rfl
    revert hc
    decide
  cases before with
  | nil => simp [takePrimary, show Text.isWord '(' = false by decide]
  | cons c cs =>
    rw [List.cons_append]
    simp only [takePrimary] at h ⊢
    rw [head?_append_wall (by decide)]
    split_ifs at h ⊢ with hquote hclose
    · rw [splitLiteralStart_none (hmarks (by simp)) (Option.map_eq_none_iff.1 h), Option.map_none]
    · -- a parenthesis that is open has been opened inside
      rw [Option.map_eq_none_iff] at h ⊢
      rw [beq_iff_eq.1 hclose, List.reverse_cons] at hbefore
      obtain ⟨⟨open', inside⟩, hcs, hlast⟩ := exists_nesting_of_append hbefore
      cases inside with
      | true =>
        have hodd := quoted_of_nesting hcs
        rw [oddQuotes, List.count_reverse] at hodd
        exact splitPartner_none_of_odd (hmarks (by simp)) hodd.symm h
      | false =>
        have hopen : open' ≠ 0 := by
          rintro rfl
          cases hlast
        obtain ⟨k, rfl⟩ := Nat.exists_eq_succ_of_ne_zero hopen
        obtain ⟨inner, outer, -, hfound, -⟩ := exists_splitOpening hcs
        rw [List.reverse_reverse, h] at hfound
        cases hfound
    · rw [splitAfter_none (hmarks (by simp)) (Option.map_eq_none_iff.1 h), Option.map_none]
    · rw [splitAfterPair_none (hmarks (by simp)) (Option.map_eq_none_iff.1 h), Option.map_none]
    · rfl

/-- An operand does not go on over an open parenthesis. -/
theorem splitOperand_frame (hw : IsFront w) (hbefore : nesting nothing 0 false before.reverse = some s) :
    splitOperand (before ++ '(' :: w) = (splitOperand before).map fun p => (p.1, p.2 ++ '(' :: w) := by
  cases h : splitOperand before with
  | some p => exact splitOperand_wall (by decide) h
  | none =>
    fun_induction splitOperand before generalizing s with
    | case1 before hp =>
      rw [splitOperand]
      split
      · rfl
      · rename_i hline
        rw [takePrimary_frame hw hbefore hp] at hline
        cases hline
      · rename_i hline
        rw [takePrimary_frame hw hbefore hp] at hline
        cases hline
    | case2 before first more hp ih =>
      have hfirst : takePrimary (before ++ '(' :: w) = some (first, '.' :: (more ++ '(' :: w)) :=
        takePrimary_wall (by decide) hp
      have hmore : ∃ t, nesting nothing 0 false more.reverse = some t := by
        rw [(takePrimary_eq hp).1] at hbefore
        simp only [List.reverse_append, List.reverse_cons, List.append_assoc] at hbefore
        obtain ⟨t, ht, -⟩ := exists_nesting_of_append hbefore
        exact ⟨t, ht⟩
      obtain ⟨t, ht⟩ := hmore
      rw [splitOperand_of_dot hfirst, ih ht (Option.map_eq_none_iff.1 h), Option.map_none]
      rfl
    | case3 => cases h

theorem oddQuotes_front (hw : IsFront w) (x : List Char) : oddQuotes (x ++ '(' :: w) = oddQuotes x := by
  rw [oddQuotes_append, oddQuotes_cons, oddQuotes, oddQuotes,
    List.count_eq_zero.2 (hw '\'' (List.mem_cons_self ..))]
  simp

/-- **A cast between parentheses is converted as if what stands between them stood alone.** -/
theorem castAt?_frame (hw : IsFront w) (hbefore : nesting nothing 0 false before.reverse = some (depth, quoted))
    (hcs : nesting nothing depth quoted cs = some (0, false)) (v : List Char) :
    castAt? (before ++ '(' :: w) (cs ++ ')' :: v) =
      (castAt? before cs).map fun p => (p.1 ++ '(' :: w, p.2 ++ ')' :: v) := by
  have hquotes := oddQuotes_front hw before
  cases hodd : oddQuotes before with
  | true => rw [castAt?_of_odd hodd, castAt?_of_odd (hquotes.trans hodd), Option.map_none]
  | false =>
    by_cases hcast : ∃ tail, cs = ':' :: ':' :: tail
    · obtain ⟨tail, rfl⟩ := hcast
      obtain rfl : false = quoted := hodd.symm.trans (oddQuotes_of_nesting hbefore)
      have htail : nesting nothing depth false tail = some (0, false) := hcs
      rw [List.cons_append, List.cons_append, castAt?_colons (hquotes.trans hodd), castAt?_colons hodd,
        splitOperand_frame hw hbefore, typeReading_append_close htail]
      cases typeReading tail <;> cases splitOperand before <;> simp
    · rw [castAt?_of_ne fun tail heq => hcast ⟨tail, heq⟩, castAt?_of_ne, Option.map_none]
      intro tail htail
      rcases cs with _ | ⟨c, _ | ⟨d, cs⟩⟩
      · cases htail
      · cases htail
      · cases htail
        exact hcast ⟨cs, rfl⟩

/-! ### Operands of regular texts -/

/-- Which of the marks of quoted names and of names in braces stand in literals only. The others stand outside of
literals only. -/
structure Marks where
  quotes : Bool
  braces : Bool
  deriving DecidableEq, Repr

/-- What a regular text does not hold: marks on the wrong side, since an operand that ends at one outside of a
literal could begin at one inside; and outside of literals a letter that is read for one of a type name and has
another lower case. -/
def irregular (marks : Marks) (quoted : Bool) (c : Char) : Bool :=
  if quoted then !marks.quotes && c == '"' || !marks.braces && c == '\x7b'
  else marks.quotes && c == '"' || marks.braces && c == '\x7d' || c == 'ı' || c == 'İ' || c == 'ſ'

/-- A closed text with marks on one side only. -/
def Regular (x : List Char) : Prop := ∃ marks, Closed (irregular marks) x

theorem Regular.closed (h : Regular x) : Closed nothing x := nesting_nothing h.choose_spec

variable {marks : Marks}

theorem fair_irregular (marks : Marks) : Fair (irregular marks) := by
  obtain ⟨quotes, braces⟩ := marks
  have hblank : ∀ c ∈ Text.blanks, irregular ⟨quotes, braces⟩ false c = false := by
    revert quotes braces
    decide
  refine ⟨fun c hc => hblank c (Text.mem_blanks hc), ?_, ?_, ?_⟩ <;> revert quotes braces <;> decide

/-- Literals are closed before a last character that is no quote, and it is not refused outside of them. -/
theorem last_of_nesting {c : Char} {outer : Nat} (hc : c ≠ '\'')
    (h : nesting bad outer quoted [c] = some (depth, false)) : quoted = false ∧ bad false c = false := by
  cases hbad : bad quoted c with
  | true =>
    rw [nesting, if_pos hbad] at h
    cases h
  | false =>
    rw [nesting, if_neg (by simp [hbad]), if_neg (by simpa using hc)] at h
    cases quoted with
    | false => exact ⟨rfl, hbad⟩
    | true => cases h

theorem oddQuotes_of_mark {c : Char} (hmark : irregular marks true c = true)
    (h : nesting (irregular marks) 0 false (x ++ c :: y) = some s) : oddQuotes x = false := by
  obtain ⟨⟨depth, quoted⟩, hx, hc⟩ := exists_nesting_of_append h
  have hstate := quoted_of_nesting hx
  rw [Bool.false_xor] at hstate
  cases quoted with
  | false => exact hstate.symm
  | true =>
    rw [nesting, if_pos hmark] at hc
    cases hc

theorem oddQuotes_splitLiteralStart (h : splitLiteralStart cs = some (taken, rest)) : oddQuotes taken = true := by
  fun_induction splitLiteralStart cs generalizing taken rest with
  | case1 => cases h
  | case2 cs ih =>
    obtain ⟨p, hp, he⟩ := Option.map_eq_some_iff.1 h
    cases he
    rw [oddQuotes_cons, oddQuotes_cons, ih hp]
    rfl
  | case3 =>
    cases h
    rfl
  | case4 c cs hc hq ih =>
    obtain ⟨p, hp, he⟩ := Option.map_eq_some_iff.1 h
    cases he
    rw [oddQuotes_cons, ih hp, Bool.eq_false_iff.2 hq]
    rfl

theorem oddQuotes_of_isWord (h : ∀ c ∈ x, Text.isWord c = true) : oddQuotes x = false := by
  rw [oddQuotes, List.count_eq_zero.2 fun hquote => absurd (h _ hquote) (by decide)]
  rfl

/-- A primary does not begin inside of a literal. -/
theorem takePrimary_even (hbefore : nesting (irregular marks) 0 false before.reverse = some (depth, false))
    (h : takePrimary before = some (taken, rest)) : oddQuotes rest = false := by
  have heven : oddQuotes before = false := oddQuotes_of_nesting hbefore
  have hsplit := (takePrimary_eq h).1
  have hrest (htaken : oddQuotes taken = false) : oddQuotes rest = false := by
    rwa [hsplit, oddQuotes_append, htaken, Bool.false_xor] at heven
  have hmark {c : Char} {z : List Char} (hc : irregular marks true c = true) (htaken : taken = z ++ [c]) :
      oddQuotes rest = false := by
    rw [hsplit, htaken, List.reverse_append, List.reverse_append, List.reverse_singleton,
      List.singleton_append] at hbefore
    rw [← oddQuotes_of_mark hc hbefore, oddQuotes, oddQuotes, List.count_reverse]
  cases before with
  | nil => cases h
  | cons c cs =>
    simp only [takePrimary] at h
    split_ifs at h with hquote hclose hname hbraces hword
    · obtain ⟨p, hp, he⟩ := Option.map_eq_some_iff.1 h
      cases he
      refine hrest ?_
      rw [oddQuotes_cons, hquote, oddQuotes_splitLiteralStart hp]
      rfl
    · obtain ⟨p, hp, he⟩ := Option.map_eq_some_iff.1 h
      cases he
      rw [beq_iff_eq.1 hclose, List.reverse_cons] at hbefore
      obtain ⟨⟨outer, inside⟩, hcs, hlast⟩ := exists_nesting_of_append hbefore
      obtain ⟨rfl, -⟩ := last_of_nesting (by decide) hlast
      obtain ⟨k, rfl⟩ : ∃ k, outer = k + 1 := by
        cases outer with
        | zero => simp [nesting] at hlast
        | succ k => exact ⟨k, rfl⟩
      obtain ⟨inner, outer, -, hfound, houter⟩ := exists_splitOpening hcs
      rw [List.reverse_reverse] at hfound
      cases hp.symm.trans hfound
      have hquotes : oddQuotes outer.reverse = false := by
        rw [← List.reverse_reverse outer] at houter
        exact oddQuotes_of_nesting houter
      dsimp only [splitWord]
      rw [← List.takeWhile_append_dropWhile (p := Text.isWord) (l := outer.reverse), oddQuotes_append,
        oddQuotes_of_isWord fun c hc => List.mem_takeWhile_imp hc, Bool.false_xor] at hquotes
      exact hquotes
    · obtain ⟨p, hp, he⟩ := Option.map_eq_some_iff.1 h
      cases he
      obtain ⟨z, hz⟩ := splitAfter_last hp
      rw [List.reverse_cons, beq_iff_eq.1 hname] at hbefore
      obtain ⟨_, -, hlast⟩ := exists_nesting_of_append hbefore
      have hinside : irregular marks true '"' = true := by
        simpa [irregular] using (last_of_nesting (by decide) hlast).2
      exact hmark (z := c :: z) hinside (by rw [hz]; rfl)
    · obtain ⟨p, hp, he⟩ := Option.map_eq_some_iff.1 h
      cases he
      obtain ⟨z, hz⟩ := splitAfterPair_last hp
      rw [Bool.and_eq_true, beq_iff_eq] at hbraces
      rw [List.reverse_cons, hbraces.1] at hbefore
      obtain ⟨_, -, hlast⟩ := exists_nesting_of_append hbefore
      have hinside : irregular marks true '\x7b' = true := by
        simpa [irregular] using (last_of_nesting (by decide) hlast).2
      exact hmark (z := c :: z ++ ['\x7b']) hinside (by rw [hz]; simp)
    · cases h
      refine hrest (oddQuotes_of_isWord fun d hd => ?_)
      rcases List.mem_cons.1 hd with rfl | hd
      · exact hword
      · exact List.mem_takeWhile_imp hd

/-- **An operand does not begin inside of a literal.** -/
theorem splitOperand_even (hbefore : nesting (irregular marks) 0 false before.reverse = some (depth, false))
    (h : splitOperand before = some (taken, rest)) : oddQuotes rest = false := by
  fun_induction splitOperand before generalizing taken rest depth with
  | case1 => cases h
  | case2 before first more hp ih =>
    obtain ⟨p, hq, he⟩ := Option.map_eq_some_iff.1 h
    cases he
    have hdot := takePrimary_even hbefore hp
    rw [oddQuotes_cons, show ('.' == '\'') = false from rfl, Bool.xor_false] at hdot
    rw [(takePrimary_eq hp).1, List.reverse_append, List.reverse_cons, List.append_assoc] at hbefore
    obtain ⟨⟨depth', quoted⟩, hmore, -⟩ := exists_nesting_of_append hbefore
    obtain rfl : false = quoted := hdot.symm.trans (oddQuotes_of_nesting hmore)
    exact ih hmore hq
  | case3 before first more hdot hp =>
    cases h
    exact takePrimary_even hbefore hp

/-! ### Casts one after another -/

/-- A conversion keeps what is open if the operand does not begin inside of a literal. -/
theorem exists_nesting_of_even (hbad : Fair bad) (h : castAt? before cs = some (earlier, later))
    (hearlier : oddQuotes earlier = false) (hbefore : nesting bad 0 false before.reverse = some (depth, quoted))
    (hcs : nesting bad depth quoted cs = some (0, false)) : ∃ depth',
      nesting bad 0 false earlier.reverse = some (depth', false) ∧
        nesting bad depth' false later = some (0, false) := by
  obtain ⟨tail, function, rest, operand, rfl, heven, htype, hoperand, rfl⟩ := castAt?_eq_some.1 h
  obtain rfl : false = quoted := heven.symm.trans (oddQuotes_of_nesting hbefore)
  rw [splitOperand_eq hoperand, List.reverse_append] at hbefore
  obtain ⟨⟨depth', quoted⟩, hread, htaken⟩ := exists_nesting_of_append hbefore
  obtain rfl : false = quoted := hearlier.symm.trans (oddQuotes_of_nesting hread)
  obtain ⟨type, htype, hfunction⟩ := typeReading_eq_some.1 htype
  have hrest : nesting bad depth false rest = some (0, false) := by
    obtain ⟨t, ht, htail⟩ := exists_nesting_of_append (x := [':', ':']) hcs
    cases eq_of_nesting_of_still (by decide) ht
    exact nesting_castType? htype htail
  have hmem := mem_functions hfunction
  have hname : nesting bad depth' false function = some (depth', false) :=
    nesting_of_still fun c hc => ⟨hbad.function _ hmem c hc, still_of_mem_functions hmem c hc⟩
  refine ⟨depth', hread, ?_⟩
  simp [callOf, nesting_append, nesting, hname, hbad.parens, nesting_shift 1 htaken, hrest]

/-- A conversion in a regular text keeps what is open. -/
theorem exists_nesting_castAt? (h : castAt? before cs = some (earlier, later))
    (hbefore : nesting (irregular marks) 0 false before.reverse = some (depth, quoted))
    (hcs : nesting (irregular marks) depth quoted cs = some (0, false)) : ∃ depth',
      nesting (irregular marks) 0 false earlier.reverse = some (depth', false) ∧
        nesting (irregular marks) depth' false later = some (0, false) := by
  obtain ⟨tail, function, rest, operand, -, heven, -, hoperand, -⟩ := castAt?_eq_some.1 h
  obtain rfl : false = quoted := heven.symm.trans (oddQuotes_of_nesting hbefore)
  exact exists_nesting_of_even (fair_irregular marks) h (splitOperand_even hbefore hoperand) hbefore hcs

/-- A step over one character. -/
theorem exists_nesting_step {c : Char} (hbefore : nesting bad 0 false before.reverse = some (depth, quoted))
    (hcs : nesting bad depth quoted (c :: cs) = some s) : ∃ depth' quoted',
      nesting bad 0 false (c :: before).reverse = some (depth', quoted') ∧
        nesting bad depth' quoted' cs = some s := by
  obtain ⟨⟨depth', quoted'⟩, hc, hlater⟩ := exists_nesting_of_append (x := [c]) hcs
  refine ⟨depth', quoted', ?_, hlater⟩
  rw [List.reverse_cons, nesting_append, hbefore]
  exact hc

/-- Reading goes on over a character, or from a call that has been written. -/
@[elab_as_elim]
theorem castInduction {motive : List Char → List Char → Prop} (nil : ∀ before, motive before [])
    (stays : ∀ before c cs, castAt? before (c :: cs) = none → motive (c :: before) cs → motive before (c :: cs))
    (converted : ∀ before cs earlier later, castAt? before cs = some (earlier, later) → motive earlier later →
      motive before cs) (before cs : List Char) : motive before cs :=
  match cs with
  | [] => nil before
  | c :: cs =>
    match h : castAt? before (c :: cs) with
    | none => stays before c cs h (castInduction nil stays converted (c :: before) cs)
    | some (earlier, later) =>
      converted before (c :: cs) earlier later h (castInduction nil stays converted earlier later)
termination_by (before.count ':' + cs.count ':', cs.length)
decreasing_by
  · have hcount : (c :: before).count ':' + cs.count ':' = before.count ':' + (c :: cs).count ':' := by
      simp only [List.count_cons]
      omega
    rw [hcount]
    exact .right _ (Nat.lt_succ_self _)
  · have hcount := count_castAt? h
    exact .left _ _ (by omega)

theorem convertPostfixFrom_nil (before : List Char) : convertPostfixFrom before [] = before.reverse := by
  rw [convertPostfixFrom_eq]
  exact List.append_nil _

/-- A regular closed text stays one. -/
theorem closed_convertPostfixFrom (before cs : List Char) {depth : Nat} {quoted : Bool}
    (hbefore : nesting (irregular marks) 0 false before.reverse = some (depth, quoted))
    (hcs : nesting (irregular marks) depth quoted cs = some (0, false)) :
    Closed (irregular marks) (convertPostfixFrom before cs) := by
  induction before, cs using castInduction generalizing depth quoted with
  | nil before =>
    cases hcs
    rwa [convertPostfixFrom_nil]
  | stays before c cs h ih =>
    obtain ⟨depth', quoted', hbefore', hcs'⟩ := exists_nesting_step hbefore hcs
    rw [convertPostfixFrom_stays h]
    exact ih hbefore' hcs'
  | converted before cs earlier later h ih =>
    obtain ⟨depth', hearlier, hlater⟩ := exists_nesting_castAt? h hbefore hcs
    rw [convertPostfixFrom_converted h]
    exact ih hearlier hlater

/-- **What stands between parentheses is converted apart from what stands around it.** -/
theorem convertPostfixFrom_frame (hw : IsFront w) (before cs : List Char) {depth : Nat} {quoted : Bool}
    (hbefore : nesting (irregular marks) 0 false before.reverse = some (depth, quoted))
    (hcs : nesting (irregular marks) depth quoted cs = some (0, false)) (v : List Char) :
    convertPostfixFrom (before ++ '(' :: w) (cs ++ ')' :: v) =
      convertPostfixFrom (')' :: ((convertPostfixFrom before cs).reverse ++ '(' :: w)) v := by
  induction before, cs using castInduction generalizing depth quoted with
  | nil before =>
    have hclose : castAt? (before ++ '(' :: w) (')' :: v) = none := castAt?_of_ne (fun _ => nofun)
    rw [convertPostfixFrom_nil, List.reverse_reverse, List.nil_append, convertPostfixFrom_stays hclose]
  | stays before c cs h ih =>
    have hframe := castAt?_frame hw (nesting_nothing hbefore) (nesting_nothing hcs) v
    rw [h, Option.map_none, List.cons_append] at hframe
    obtain ⟨depth', quoted', hbefore', hcs'⟩ := exists_nesting_step hbefore hcs
    rw [convertPostfixFrom_stays h, List.cons_append, convertPostfixFrom_stays hframe]
    exact ih hbefore' hcs'
  | converted before cs earlier later h ih =>
    have hframe := castAt?_frame hw (nesting_nothing hbefore) (nesting_nothing hcs) v
    rw [h, Option.map_some] at hframe
    obtain ⟨depth', hearlier, hlater⟩ := exists_nesting_castAt? h hbefore hcs
    rw [convertPostfixFrom_converted h, convertPostfixFrom_converted hframe]
    exact ih hearlier hlater

/-! ### Casts that stay -/

theorem Spelt.exists_foldsTo (h : Spelt words y) : ∀ c ∈ y, Text.isBlank c = true ∨
    ∃ w ∈ words, ∃ l ∈ w, Text.foldsTo l c = true := by
  have hword {w y : List Char} (h : Folds w y) : ∀ c ∈ y, ∃ l ∈ w, Text.foldsTo l c = true := by
    intro c hc
    induction h with
    | nil => cases hc
    | cons hfold _ ih =>
      rcases List.mem_cons.1 hc with rfl | hc
      · exact ⟨_, List.mem_cons_self .., hfold⟩
      · obtain ⟨l, hl, hfold⟩ := ih hc
        exact ⟨l, List.mem_cons_of_mem _ hl, hfold⟩
  induction h with
  | last h => exact fun c hc => .inr ⟨_, List.mem_cons_self .., hword h c hc⟩
  | more h _ hgap _ ih =>
    intro c hc
    rw [List.mem_append, List.mem_append] at hc
    rcases hc with (hc | hc) | hc
    · exact .inr ⟨_, List.mem_cons_self .., hword h c hc⟩
    · exact .inl (hgap c hc)
    · rcases ih c hc with hblank | ⟨w, hw, hl⟩
      · exact .inl hblank
      · exact .inr ⟨w, List.mem_cons_of_mem _ hw, hl⟩

/-- The letters of a spelling are lower-cased to those of the name, if none is irregular. -/
theorem lowers_of_regular (h : Spelt words y) (hwords : words ∈ typeNames)
    (hy : ∀ c ∈ y, irregular marks false c = false) : Lowers y := by
  intro c hc
  rcases h.exists_foldsTo c hc with hblank | ⟨w, hw, l, hl, hfold⟩
  · exact ⟨ne_of_isBlank hblank, .inl hblank⟩
  have hletter := lettered_typeNames hwords w hw l hl
  have heq := eq_letterOf hletter hfold
  have hregular := hy c hc
  simp only [irregular, Bool.false_eq_true, if_false, Bool.or_eq_false_iff, beq_eq_false_iff_ne] at hregular
  obtain ⟨⟨⟨-, hdotless⟩, hdotted⟩, hlong⟩ := hregular
  simp only [isNameLetter, Bool.and_eq_true, decide_eq_true_eq] at hletter
  refine ⟨⟨?_, hdotted⟩, .inr ?_⟩
  · rintro rfl
    rw [heq] at hletter
    exact absurd hletter.1.2 (by decide)
  · rcases Nat.lt_or_ge c.toNat 128 with hlt | hge
    · rw [Text.lowerChar_of_lt hlt, ← letterOf_of_lt hlt, ← heq]
      exact hletter.1.2
    · -- only the Kelvin sign stands for another letter
      by_cases hk : c = '\u212a'
      · rw [hk]
        decide
      · simp only [letterOf, beq_eq_false_iff_ne.2 hdotless, beq_eq_false_iff_ne.2 hdotted,
          beq_eq_false_iff_ne.2 hlong, beq_eq_false_iff_ne.2 hk, Bool.or_self, Bool.false_eq_true, if_false,
          toLower_of_le hge] at heq
        rw [heq] at hletter
        omega

theorem irregular_of_nesting (hx : ∀ c ∈ x, c ∉ ['\'', '(', ')']) (h : nesting bad depth quoted x = some s) :
    ∀ c ∈ x, bad quoted c = false := by
  induction x with
  | nil => exact fun _ hc => nomatch hc
  | cons c x ih =>
    have hmarks := hx c (List.mem_cons_self ..)
    simp only [List.mem_cons, List.not_mem_nil, or_false, not_or] at hmarks
    simp only [nesting, beq_iff_eq, hmarks, if_false, ite_self] at h
    split at h
    · cases h
    · rename_i hbad
      exact List.forall_mem_cons.2 ⟨Bool.eq_false_iff.2 hbad, ih (fun d hd => hx d (List.mem_cons_of_mem _ hd)) h⟩

/-- In a regular text, a type name that stands behind colons has a conversion. -/
theorem isSome_typeReading (hx : nesting (irregular marks) depth false x = some s) (h : (castType? x).isSome = true) :
    (typeReading x).isSome = true := by
  obtain ⟨⟨type, rest⟩, htype⟩ := Option.isSome_iff_exists.1 h
  obtain ⟨words, hwords, gap, size, rfl, hgap, hspelt, -⟩ := exists_of_castType? htype
  have hbody := nesting_of_append_of_still (fun c hc => still_of_isBlank (hgap c hc)) hx
  obtain ⟨t, hnesting, -⟩ := exists_nesting_of_append hbody
  have hletters := irregular_of_nesting (fun c hc => (hspelt.isWord_or_isBlank (wordy_typeNames hwords).1 c hc).elim
    still_of_isWord still_of_isBlank) hnesting
  obtain ⟨function, hfunction⟩ := Option.isSome_iff_exists.1
    (isSome_conversion?_of_spelt hwords hspelt (lowers_of_regular hspelt hwords hletters))
  exact Option.isSome_iff_exists.2 ⟨_, typeReading_eq_some.2 ⟨type, htype, hfunction⟩⟩

/-- The last word of a spelling, behind a blank or at the start. -/
theorem Spelt.exists_last (h : Spelt words y) : ∃ w ∈ words, ∃ start word, y = start ++ word ∧ Folds w word ∧
    ∀ c, start.getLast? = some c → Text.isBlank c = true := by
  induction h with
  | last h => exact ⟨_, List.mem_cons_self .., [], _, rfl, h, nofun⟩
  | @more w y gap z words h hne hgap _ ih =>
    obtain ⟨w', hw', start, word, rfl, hword, hstart⟩ := ih
    refine ⟨w', List.mem_cons_of_mem _ hw', y ++ gap ++ start, word, by simp, hword, fun c hc => ?_⟩
    cases start with
    | nil =>
      rw [List.append_nil, List.getLast?_append_of_ne_nil _ hne] at hc
      exact hgap c (List.mem_of_getLast? hc)
    | cons d start =>
      rw [List.getLast?_append_of_ne_nil _ (List.cons_ne_nil d start)] at hc
      exact hstart c hc

/-- No type name ends with the name of a function. -/
theorem not_folds_function (hwords : words ∈ typeNames) (hfunction : function ∈ functions) (hw : w ∈ words)
    (x : List Char) : ¬Folds w (x ++ function) := by
  intro h
  have hend : Folds (w.drop x.length) function := by
    have hdrop := List.forall₂_drop x.length h
    rwa [List.drop_left] at hdrop
  have hstart := startsWith_of_folds hend []
  rw [List.append_nil] at hstart
  have hall : ∀ words ∈ typeNames, ∀ f ∈ functions, ∀ w ∈ words, ∀ t ∈ w.tails, t.length = f.length →
      Text.startsWith t f = false := by
    decide +kernel
  have hnot := hall words hwords function hfunction w hw _ ((List.mem_tails ..).2 (List.drop_suffix x.length w))
    hend.length_eq
  rw [hstart] at hnot
  cases hnot

theorem isWord_functions (h : function ∈ functions) : function ≠ [] ∧ ∀ c ∈ function, Text.isWord c = true := by
  have hall : ∀ f ∈ functions, f ≠ [] ∧ ∀ c ∈ f, Text.isWord c = true := by decide
  exact hall function h

/-- A type that is read in front of a call that has been written for a cast ends before the call. -/
theorem exists_of_castType?_of_call (hfunction : function ∈ functions)
    (h : castType? (u ++ (function ++ '(' :: z)) = some (type, rest)) : ∃ words ∈ typeNames, ∃ gap d later,
      u = gap ++ (type ++ d :: later) ∧ (∀ c ∈ gap, Text.isBlank c = true) ∧ Spelt words type ∧
        Text.isWord d = false := by
  obtain ⟨words, hwords, gap, size, heq, hgap, hspelt, -, hbreaks, -⟩ := exists_of_castType? h
  obtain ⟨hne, hword⟩ := isWord_functions hfunction
  generalize size ++ rest = after at heq hbreaks
  have hletter {c : Char} {x : List Char} (hc : c ∈ function) : Text.breaksAfter (c :: x) = false := by
    simp [Text.breaksAfter, hword c hc]
  rw [← List.append_assoc gap] at heq
  rcases List.append_eq_append_iff.1 heq with ⟨a, hu, hcall⟩ | ⟨later, rfl, rfl⟩
  · -- the type would end with the name of the function
    exfalso
    have hparen : '(' ∉ a := fun hmem => by
      have hin : '(' ∈ gap ++ type := hu ▸ List.mem_append_right _ hmem
      rcases List.mem_append.1 hin with hin | hin
      · exact absurd (hgap _ hin) (by decide)
      · exact (hspelt.isWord_or_isBlank (wordy_typeNames hwords).1 _ hin).elim
          (fun hw => absurd hw (by decide)) fun hb => absurd hb (by decide)
    obtain ⟨rfl, -⟩ : a = function ∧ True := by
      rcases List.append_eq_append_iff.1 hcall with ⟨b, rfl, hb⟩ | ⟨b, rfl, rfl⟩
      · cases b with
        | nil => exact ⟨List.append_nil _, trivial⟩
        | cons d b =>
          cases hb
          exact absurd (by simp) hparen
      · cases b with
        | nil => exact ⟨(List.append_nil _).symm, trivial⟩
        | cons d b =>
          rw [List.cons_append, hletter (by simp)] at hbreaks
          cases hbreaks
    obtain ⟨w, hw, start, word', rfl, hfolds, hstart⟩ := hspelt.exists_last
    rw [← List.append_assoc] at hu
    rcases List.append_eq_append_iff.1 hu with ⟨b, rfl, rfl⟩ | ⟨b, hb, rfl⟩
    · exact not_folds_function hwords hfunction hw b hfolds
    · cases b using List.reverseRecOn with
      | nil => exact not_folds_function hwords hfunction hw [] hfolds
      | append_singleton b c =>
        have hlast : (gap ++ start).getLast? = some c := by rw [hb, ← List.append_assoc, List.getLast?_concat]
        have hblank : Text.isBlank c = true := by
          cases start with
          | nil => exact hgap c (List.mem_of_getLast? (by rwa [List.append_nil] at hlast))
          | cons d start => exact hstart c (by rwa [List.getLast?_append_of_ne_nil _ (List.cons_ne_nil d start)] at hlast)
        rw [isBlank_of_isWord (hword c (by simp))] at hblank
        cases hblank
  · cases later with
    | nil =>
      obtain ⟨c, f, rfl⟩ := List.exists_cons_of_ne_nil hne
      rw [List.nil_append, List.cons_append, hletter (List.mem_cons_self ..)] at hbreaks
      cases hbreaks
    | cons d later =>
      exact ⟨words, hwords, gap, d, later, by rw [List.append_assoc], hgap, hspelt, isWord_of_breaksAfter hbreaks d rfl⟩

/-- Where a type name stands in front of a call that has been written for a cast, it stands in front of
anything. -/
theorem isSome_castType?_of_call (hfunction : function ∈ functions)
    (h : (castType? (u ++ (function ++ '(' :: z))).isSome = true) (y : List Char) :
    (castType? (u ++ y)).isSome = true := by
  obtain ⟨⟨type, rest⟩, htype⟩ := Option.isSome_iff_exists.1 h
  obtain ⟨words, hwords, gap, d, later, rfl, hgap, hspelt, hd⟩ := exists_of_castType?_of_call hfunction htype
  rw [List.append_assoc, List.append_assoc]
  exact isSome_castType? hwords hgap hspelt (by simp [Text.breaksAfter, hd])

/-- In front of a call that has been written for a cast, no cast is converted that stays in front of something
else. -/
theorem castAt?_of_call {c : Char} (hfunction : function ∈ functions)
    (hold : nesting (irregular marks) 0 false (before.reverse ++ c :: (u ++ y)) = some s)
    (h : castAt? before (c :: (u ++ y)) = none) : castAt? before (c :: (u ++ (function ++ '(' :: z))) = none := by
  rw [Option.eq_none_iff_forall_ne_some]
  rintro ⟨earlier, later⟩ hcast
  obtain ⟨tail, function', rest, operand, heq, heven, htype, hoperand, -⟩ := castAt?_eq_some.1 hcast
  obtain ⟨hne, hword⟩ := isWord_functions hfunction
  cases u with
  | nil =>
    -- the colons would go on into the name
    obtain ⟨d, f, rfl⟩ := List.exists_cons_of_ne_nil hne
    cases heq
    exact absurd (hword ':' (List.mem_cons_self ..)) (by decide)
  | cons d u =>
    simp only [List.cons_append, List.cons.injEq] at heq
    obtain ⟨rfl, rfl, rfl⟩ := heq
    have hsome : (castType? (u ++ y)).isSome = true := by
      refine isSome_castType?_of_call hfunction (z := z) ?_ y
      obtain ⟨type, htype, -⟩ := typeReading_eq_some.1 htype
      rw [htype]
      rfl
    obtain ⟨⟨depth, quoted⟩, hbefore, hlater⟩ := exists_nesting_of_append hold
    obtain rfl : false = quoted := heven.symm.trans (oddQuotes_of_nesting hbefore)
    have hrest : nesting (irregular marks) depth false (u ++ y) = some s := by
      obtain ⟨t, ht, hrest⟩ := exists_nesting_of_append (x := [':', ':']) hlater
      cases eq_of_nesting_of_still (by decide) ht
      exact hrest
    obtain ⟨⟨function', rest⟩, hread⟩ := Option.isSome_iff_exists.1 (isSome_typeReading hrest hsome)
    rw [List.cons_append, castAt?_colons heven, hread, Option.bind_some, hoperand] at h
    cases h

/-- No cast before a place is converted, given what precedes the place, last character first, and what
follows. -/
def Passed : List Char → List Char → Prop
  | [], _ => True
  | c :: before, cs => castAt? before (c :: cs) = none ∧ Passed before (c :: cs)

theorem Passed.of_append (h : Passed (x ++ before) cs) : Passed before (x.reverse ++ cs) := by
  induction x generalizing cs with
  | nil => exact h
  | cons c x ih =>
    rw [List.reverse_cons, List.append_assoc]
    exact ih h.2

theorem Passed.nextCast?_eq_none (h : Passed before cs) (hcs : nextCast? before cs = none) :
    nextCast? [] (before.reverse ++ cs) = none := by
  induction before generalizing cs with
  | nil => exact hcs
  | cons c before ih =>
    rw [List.reverse_cons, List.append_assoc]
    refine ih h.2 ?_
    rw [List.singleton_append, nextCast?, h.1]
    exact hcs

theorem Passed.of_call (hfunction : function ∈ functions)
    (hold : nesting (irregular marks) 0 false (before.reverse ++ (u ++ y)) = some s) (h : Passed before (u ++ y)) :
    Passed before (u ++ (function ++ '(' :: z)) := by
  induction before generalizing u with
  | nil => trivial
  | cons c before ih =>
    rw [List.reverse_cons, List.append_assoc, List.singleton_append] at hold
    exact ⟨castAt?_of_call hfunction hold h.1, ih (u := c :: u) hold h.2⟩

/-- No cast is left that could be converted. -/
theorem nextCast?_convertPostfixFrom (before cs : List Char) {depth : Nat} {quoted : Bool}
    (hbefore : nesting (irregular marks) 0 false before.reverse = some (depth, quoted))
    (hcs : nesting (irregular marks) depth quoted cs = some (0, false)) (h : Passed before cs) :
    nextCast? [] (convertPostfixFrom before cs) = none := by
  induction before, cs using castInduction generalizing depth quoted with
  | nil before =>
    have hnone := h.nextCast?_eq_none rfl
    rwa [List.append_nil, ← convertPostfixFrom_nil] at hnone
  | stays before c cs hcast ih =>
    obtain ⟨depth', quoted', hbefore', hcs'⟩ := exists_nesting_step hbefore hcs
    rw [convertPostfixFrom_stays hcast]
    exact ih hbefore' hcs' ⟨hcast, h⟩
  | converted before cs earlier later hcast ih =>
    obtain ⟨depth', hearlier, hlater⟩ := exists_nesting_castAt? hcast hbefore hcs
    rw [convertPostfixFrom_converted hcast]
    refine ih hearlier hlater ?_
    obtain ⟨tail, function, rest, operand, -, -, htype, hoperand, rfl⟩ := castAt?_eq_some.1 hcast
    obtain ⟨type, -, hfunction⟩ := typeReading_eq_some.1 htype
    rw [splitOperand_eq hoperand] at h hbefore
    have hold : nesting (irregular marks) 0 false (earlier.reverse ++ ([] ++ (operand.reverse ++ cs))) = some (0, false) := by
      rw [List.nil_append, ← List.append_assoc, ← List.reverse_append, nesting_append, hbefore]
      exact hcs
    have hpassed := Passed.of_call (z := operand.reverse ++ [')'] ++ rest) (mem_functions hfunction) hold h.of_append
    simpa [callOf] using hpassed

theorem Regular.convertPostfixCasts (h : Regular x) : Regular (convertPostfixCasts x) := by
  obtain ⟨marks, h⟩ := h
  exact ⟨marks, closed_convertPostfixFrom [] x rfl h⟩

/-- **What has been converted once stays as it is.** -/
theorem convertPostfixCasts_idem (h : Regular x) :
    convertPostfixCasts (convertPostfixCasts x) = convertPostfixCasts x := by
  obtain ⟨marks, h⟩ := h
  have hnone : nextCast? [] (convertPostfixCasts x) = none := nextCast?_convertPostfixFrom [] x rfl h trivial
  rw [convertPostfixCasts, convertPostfixFrom_eq, hnone]
  rfl

end Sql
end CardTransfer
