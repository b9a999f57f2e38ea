import CardTransfer.Proofs.Sql.Call

/-!
# What the conversion of postfix casts keeps

The operand of a cast ends where a name in double braces ends, or before it, and never inside
(`splitOperand_uncut`). The colons and the type hold no brace, so that a name in braces stands before the
operand, in it, or after the type, and each of them is part of what is written.
-/

namespace CardTransfer
namespace Sql

variable {name before taken rest : List Char}

/-! ### Operands -/

/-- A name in braces lies on one side of a place, in a text given last character first. -/
def Uncut (name taken rest : List Char) : Prop :=
  (braced name).reverse <:+: taken ++ rest →
    (braced name).reverse <:+: taken ∨ (braced name).reverse <:+: rest

theorem reverse_braced (name : List Char) :
    (braced name).reverse = '\x7d' :: ('\x7d' :: name.reverse ++ ['\x7b']) ++ ['\x7b'] := by
  simp [braced]

/-- A name in braces is not cut where what is taken ends with no part of it, from the closing braces on. -/
theorem uncut_of_not_suffix (h : ∀ x y, (braced name).reverse = '\x7d' :: x ++ y → y ≠ [] →
    ¬('\x7d' :: x <:+ taken)) : Uncut name taken rest := by
  intro hi
  rcases List.infix_append_iff.1 hi with hi | hi | ⟨x, y, hxy, hx, hy⟩
  · exact .inl hi
  · exact .inr hi
  · cases x with
    | nil =>
      rw [hxy]
      exact .inr hy.isInfix
    | cons c x =>
      rcases eq_or_ne y [] with rfl | hy'
      · rw [hxy, List.append_nil]
        exact .inl hx.isInfix
      · have hc : '\x7d' = c := by
          rw [reverse_braced] at hxy
          exact (List.cons.inj hxy).1
        subst hc
        exact absurd hx (h x y hxy hy')

/-- Nothing is cut before a character that the name in braces does not hold. -/
theorem uncut_of_mark {mark : Char} {z w : List Char} (hmark : mark ∉ braced name) (hw : '\x7d' ∉ w) :
    Uncut name (z ++ mark :: w) rest := by
  refine uncut_of_not_suffix fun x y hxy _ hx => ?_
  have hnot : mark ∉ '\x7d' :: x := fun hc => hmark (List.mem_reverse.1 (by
    rw [hxy]
    exact List.mem_append_left _ hc))
  rcases List.suffix_or_suffix_of_suffix hx (List.suffix_append z (mark :: w)) with hx | hx
  · rcases List.suffix_cons_iff.1 hx with hx | hx
    · exact hnot (hx ▸ List.mem_cons_self ..)
    · exact hw (hx.subset (List.mem_cons_self ..))
  · exact hnot (hx.subset (List.mem_cons_self ..))

/-- Nothing is cut before opening braces. -/
theorem uncut_of_braces {z : List Char} (hn : IsName name) :
    Uncut name (z ++ ['\x7b', '\x7b']) rest := by
  refine uncut_of_not_suffix fun x y hxy hy hx => ?_
  have hopen : ['\x7b', '\x7b'] <:+ '\x7d' :: x := by
    rcases List.suffix_or_suffix_of_suffix hx (List.suffix_append z _) with hx | hx
    · exact absurd (hx.subset (List.mem_cons_self ..)) (by decide)
    · exact hx
  -- the opening braces are among what is taken, and the last one is not
  have htwo : 2 ≤ ('\x7d' :: x).count '\x7b' := hopen.sublist.count_le '\x7b'
  have hcount := hn.count_open
  rw [← List.count_reverse, hxy, List.count_append] at hcount
  cases y using List.reverseRecOn with
  | nil => exact hy rfl
  | append_singleton y c =>
    have hlast := congrArg List.getLast? hxy
    rw [reverse_braced, List.getLast?_concat, ← List.append_assoc, List.getLast?_concat] at hlast
    cases hlast
    rw [List.count_append, List.count_singleton_self] at hcount
    omega

theorem splitLiteralStart_last {cs : List Char} (h : splitLiteralStart cs = some (taken, rest)) :
    ∃ z, taken = z ++ ['\''] := by
  fun_induction splitLiteralStart cs generalizing taken rest with
  | case1 => cases h
  | case2 cs ih =>
    obtain ⟨p, hp, he⟩ := Option.map_eq_some_iff.1 h
    cases he
    obtain ⟨z, hz⟩ := ih hp
    exact ⟨'\'' :: '\'' :: z, by rw [hz]; rfl⟩
  | case3 c cs hc hq =>
    cases h
    exact ⟨[], rfl⟩
  | case4 c cs hc hq ih =>
    obtain ⟨p, hp, he⟩ := Option.map_eq_some_iff.1 h
    cases he
    obtain ⟨z, hz⟩ := ih hp
    exact ⟨c :: z, by rw [hz]; rfl⟩

theorem splitAfter_last {mark : Char} {cs : List Char} (h : splitAfter mark cs = some (taken, rest)) :
    ∃ z, taken = z ++ [mark] := by
  fun_induction splitAfter mark cs generalizing taken rest with
  | case1 => cases h
  | case2 c cs hc =>
    cases h
    cases beq_iff_eq.1 hc
    exact ⟨[], rfl⟩
  | case3 c cs hc ih =>
    obtain ⟨p, hp, he⟩ := Option.map_eq_some_iff.1 h
    cases he
    obtain ⟨z, hz⟩ := ih hp
    exact ⟨c :: z, by rw [hz]; rfl⟩

theorem splitAfterPair_last {mark : Char} {cs : List Char}
    (h : splitAfterPair mark cs = some (taken, rest)) : ∃ z, taken = z ++ [mark, mark] := by
  fun_induction splitAfterPair mark cs generalizing taken rest with
  | case1 => cases h
  | case2 => cases h
  | case3 c d cs hc =>
    cases h
    rw [Bool.and_eq_true, beq_iff_eq, beq_iff_eq] at hc
    obtain ⟨rfl, rfl⟩ := hc
    exact ⟨[], rfl⟩
  | case4 c d cs hc ih =>
    obtain ⟨p, hp, he⟩ := Option.map_eq_some_iff.1 h
    cases he
    obtain ⟨z, hz⟩ := ih hp
    exact ⟨c :: z, by rw [hz]; rfl⟩

/-- A primary does not end inside of a name in braces. -/
theorem takePrimary_uncut (hn : IsPlain name) (h : takePrimary before = some (taken, rest)) :
    Uncut name taken rest := by
  cases before with
  | nil => cases h
  | cons c cs =>
    simp only [takePrimary] at h
    split at h
    · obtain ⟨p, hp, he⟩ := Option.map_eq_some_iff.1 h
      cases he
      obtain ⟨z, hz⟩ := splitLiteralStart_last hp
      rw [hz, ← List.cons_append]
      exact uncut_of_mark (hn.not_mem_braced (by simp)) List.not_mem_nil
    split at h
    · obtain ⟨p, hp, he⟩ := Option.map_eq_some_iff.1 h
      cases he
      rw [← List.cons_append]
      refine uncut_of_mark (hn.not_mem_braced (by simp)) fun hc => ?_
      exact absurd (List.mem_takeWhile_imp hc) (by decide)
    split at h
    · obtain ⟨p, hp, he⟩ := Option.map_eq_some_iff.1 h
      cases he
      obtain ⟨z, hz⟩ := splitAfter_last hp
      rw [hz, ← List.cons_append]
      exact uncut_of_mark (hn.not_mem_braced (by simp)) List.not_mem_nil
    split at h
    · obtain ⟨p, hp, he⟩ := Option.map_eq_some_iff.1 h
      cases he
      obtain ⟨z, hz⟩ := splitAfterPair_last hp
      rw [hz, ← List.cons_append]
      exact uncut_of_braces hn.toIsName
    split at h
    · rename_i hword
      cases h
      refine uncut_of_not_suffix fun x y _ _ hx => ?_
      have hclose := hx.subset (List.mem_cons_self ..)
      rcases List.mem_cons.1 hclose with rfl | hclose
      · exact absurd hword (by decide)
      · exact absurd (List.mem_takeWhile_imp hclose) (by decide)
    · cases h

/-- **An operand does not end inside of a name in braces.** -/
theorem splitOperand_uncut (hn : IsPlain name) (h : splitOperand before = some (taken, rest)) :
    Uncut name taken rest := by
  fun_induction splitOperand before generalizing taken rest with
  | case1 => cases h
  | case2 before first more hp ih =>
    obtain ⟨p, hq, he⟩ := Option.map_eq_some_iff.1 h
    cases he
    intro hi
    rw [List.append_assoc, List.cons_append] at hi
    rw [← splitOperand_eq hq] at hi
    rcases takePrimary_uncut hn hp hi with hi | hi
    · exact .inl (hi.trans (List.prefix_append ..).isInfix)
    · -- the dot is no part of it
      have hmore : (braced name).reverse <:+: p.1 ++ p.2 := by
        rw [splitOperand_eq hq, reverse_braced] at hi
        rw [reverse_braced]
        exact Text.infix_of_head_not_mem (a := ['.']) hi (by decide)
      refine (ih hq hmore).imp_left fun hi => hi.trans ?_
      exact (List.suffix_append (first ++ ['.']) p.1).isInfix.trans (by simp)
  | case3 before first more hdot hp =>
    cases h
    exact takePrimary_uncut hn hp

/-! ### Types -/

theorem isBrace_of_word? {word cs : List Char} {n : Nat} (hword : Braceless word)
    (h : Text.word? word cs = some n) : ∀ c ∈ cs.take n, isBrace c = false := by
  unfold Text.word? at h
  split at h
  case isFalse => cases h
  rename_i hstart
  cases h
  intro c hc
  obtain ⟨l, hl, hfold⟩ := Text.exists_foldsTo_of_mem_take hstart hc
  exact hword.isBrace_of_foldsTo hl hfold

/-- A type name holds no brace. -/
theorem isBrace_of_wordsLength? {words : List (List Char)} {cs : List Char} {n : Nat}
    (hwords : ∀ w ∈ words, Braceless w) (h : wordsLength? words cs = some n) :
    ∀ c ∈ cs.take n, isBrace c = false := by
  fun_induction wordsLength? words cs generalizing n with
  | case1 =>
    cases h
    simp
  | case2 w cs => exact isBrace_of_word? (hwords w (List.mem_cons_self ..)) h
  | case3 w ws cs hne ih =>
    simp only [Option.bind_eq_bind, Option.bind_eq_some_iff] at h
    obtain ⟨k, hk, h⟩ := h
    split at h
    case isTrue => cases h
    obtain ⟨m, hm, h⟩ := Option.bind_eq_some_iff.1 h
    cases h
    intro c hc
    rw [List.take_add, List.take_add, List.mem_append, List.mem_append] at hc
    rcases hc with (hc | hc) | hc
    · exact isBrace_of_word? (hwords w (List.mem_cons_self ..)) hk c hc
    · exact isBrace_of_isBlank (Text.isBlank_of_mem_take hc)
    · exact ih _ (fun w hw => hwords w (List.mem_cons_of_mem _ hw)) hm c hc

/-- A size holds no brace. -/
theorem isBrace_of_sizeLength? {cs : List Char} {n : Nat} (h : sizeLength? cs = some n) :
    ∀ c ∈ cs.take n, isBrace c = false := by
  unfold sizeLength? at h
  dsimp only at h
  split at h
  case h_2 => cases h
  rename_i inner hinner
  split at h
  case isFalse => cases h
  rename_i hclose
  cases h
  obtain ⟨rest, hrest⟩ := List.head?_eq_some_iff.1 (beq_iff_eq.1 hclose)
  have hdigits := List.take_append_drop (inner.takeWhile fun c =>
    Text.isDigit c || Text.isBlank c || c == ',').length inner
  rw [hrest, ← List.prefix_iff_eq_take.1 (List.takeWhile_prefix _)] at hdigits
  have hcs := List.take_append_drop (Text.blankLength cs) cs
  rw [hinner, ← hdigits, Text.take_blankLength] at hcs
  have hsize : cs.takeWhile Text.isBlank ++ '(' :: (inner.takeWhile fun c =>
      Text.isDigit c || Text.isBlank c || c == ',') ++ [')'] <+: cs := ⟨rest, by simpa using hcs⟩
  intro c hc
  have htake := List.prefix_iff_eq_take.1 hsize
  rw [List.length_append, List.length_append, List.length_cons, List.length_singleton, ← Nat.add_assoc,
    Nat.add_assoc _ 1 1] at htake
  change _ = cs.take (Text.blankLength cs + _ + 2) at htake
  rw [← htake, List.mem_append, List.mem_append, List.mem_cons, List.mem_singleton] at hc
  rcases hc with (hc | rfl | hc) | rfl
  · exact isBrace_of_isBlank (List.mem_takeWhile_imp hc)
  · rfl
  · by_contra hbrace
    rw [Bool.not_eq_false, isBrace, Bool.or_eq_true, beq_iff_eq, beq_iff_eq] at hbrace
    have hdigit := List.mem_takeWhile_imp hc
    rcases hbrace with rfl | rfl <;> exact absurd hdigit (by decide)
  · rfl

/-- A type name with its size holds no brace. -/
theorem isBrace_of_typeLength? {words : List (List Char)} {cs : List Char} {n m : Nat}
    (hwords : ∀ w ∈ words, Braceless w) (h : typeLength? words cs = some (n, m)) :
    ∀ c ∈ cs.take m, isBrace c = false := by
  simp only [typeLength?, Option.bind_eq_bind, Option.bind_eq_some_iff] at h
  obtain ⟨k, hk, h⟩ := h
  have hname := isBrace_of_wordsLength? hwords hk
  split at h
  · rename_i l hl
    split_ifs at h
    · cases h
      intro c hc
      rw [List.take_add, List.mem_append] at hc
      exact hc.elim (hname c) (isBrace_of_sizeLength? hl c)
    · cases h
      exact hname
  · split_ifs at h
    cases h
    exact hname

theorem braceless_typeNames : ∀ words ∈ typeNames, ∀ w ∈ words, Braceless w := by decide +kernel

/-- The text after the type of a cast holds a name in braces if the text after the colons does. -/
theorem braced_infix_castType? {cs type : List Char} (h : castType? cs = some (type, rest))
    (hi : braced name <:+: cs) : braced name <:+: rest := by
  unfold castType? at h
  obtain ⟨⟨n, m⟩, htype, he⟩ := Option.map_eq_some_iff.1 h
  cases he
  obtain ⟨words, hwords, hlength⟩ := List.exists_of_findSome?_eq_some htype
  refine braced_infix_drop (braced_infix_afterBlanks hi) fun hc => ?_
  cases isBrace_of_typeLength? (braceless_typeNames words hwords) hlength _ hc

/-! ### Conversion -/

/-- A cast that is converted keeps a name in braces. -/
theorem braced_infix_castAt? {cs earlier later : List Char} (hn : IsPlain name)
    (h : castAt? before cs = some (earlier, later)) (hi : braced name <:+: before.reverse ++ cs) :
    braced name <:+: earlier.reverse ++ later := by
  unfold castAt? at h
  split at h
  case h_2 => cases h
  rename_i tail
  simp only [Option.bind_eq_bind, Option.bind_eq_some_iff] at h
  obtain ⟨⟨type, rest⟩, htype, h⟩ := h
  split at h
  case isTrue => cases h
  obtain ⟨⟨operand, earlier'⟩, hoperand, h⟩ := Option.bind_eq_some_iff.1 h
  obtain ⟨function, -, h⟩ := Option.bind_eq_some_iff.1 h
  cases h
  rcases hn.infix_or_of_colons hi with hi | hi
  · rw [← List.reverse_infix, List.reverse_reverse, splitOperand_eq hoperand] at hi
    rcases splitOperand_uncut hn hoperand hi with hi | hi
    · rw [← List.reverse_infix, List.reverse_reverse] at hi
      have hcall := hi.trans (infix_callOf function operand.reverse)
      exact (hcall.trans (List.prefix_append _ rest).isInfix).trans (List.suffix_append ..).isInfix
    · rw [← List.reverse_infix, List.reverse_reverse] at hi
      exact hi.trans (List.prefix_append ..).isInfix
  · have hrest := braced_infix_castType? htype hi
    exact (hrest.trans (List.suffix_append ..).isInfix).trans (List.suffix_append ..).isInfix

theorem braced_infix_nextCast? {cs earlier later : List Char} (hn : IsPlain name)
    (h : nextCast? before cs = some (earlier, later)) (hi : braced name <:+: before.reverse ++ cs) :
    braced name <:+: earlier.reverse ++ later := by
  induction cs generalizing before with
  | nil => cases h
  | cons c cs ih =>
    unfold nextCast? at h
    split at h
    · rename_i site hs
      cases h
      exact braced_infix_castAt? hn hs hi
    · refine ih h ?_
      rwa [List.reverse_cons, List.append_assoc]

/-- **The conversion of postfix casts keeps a name in braces.** -/
theorem braced_infix_convertPostfixFrom {cs : List Char} (hn : IsPlain name)
    (hi : braced name <:+: before.reverse ++ cs) : braced name <:+: convertPostfixFrom before cs := by
  fun_induction convertPostfixFrom before cs with
  | case1 => exact hi
  | case2 before cs earlier later h ih => exact ih (braced_infix_nextCast? hn h hi)

end Sql
end CardTransfer
