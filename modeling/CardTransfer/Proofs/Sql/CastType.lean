import CardTransfer.Proofs.Sql.Closed
import CardTransfer.Proofs.Text.Character
import Mathlib.Data.List.Forall2

/-!
# Types of casts

A type is read in two ways. Behind colons it is a type name at the start of a text, with a size if one follows,
and the rest of the text is left (`castType?`). In a `CAST` it is the whole of the text, looked up in lower case
and without what stands in parentheses at its end (`conversion?`).

What is read in the first way is spelled out here (`exists_of_castType?`, `isSome_castType?`), and that a
parenthesis behind the text does not change it (`castType?_append_close`).
-/

namespace CardTransfer
namespace Sql

variable {cs w x y z type rest : List Char} {words : List (List Char)} {n : Nat}

/-! ### Words -/

/-- A word as it may be written. -/
abbrev Folds (w y : List Char) : Prop := List.Forall₂ (fun l c => Text.foldsTo l c = true) w y

theorem folds_of_startsWith (h : Text.startsWith w cs = true) : Folds w (cs.take w.length) := by
  induction w generalizing cs with
  | nil => exact .nil
  | cons l w ih =>
    cases cs with
    | nil => cases h
    | cons c cs =>
      rw [Text.startsWith, Bool.and_eq_true] at h
      exact .cons h.1 (ih h.2)

theorem startsWith_of_folds (h : Folds w y) (z : List Char) : Text.startsWith w (y ++ z) = true := by
  induction h with
  | nil => rfl
  | cons hc _ ih => rw [List.cons_append, Text.startsWith, hc, ih]; rfl

/-- Words as they may be written, with blanks between them. -/
inductive Spelt : List (List Char) → List Char → Prop
  | last {w y : List Char} (h : Folds w y) : Spelt [w] y
  | more {w y gap z : List Char} {words : List (List Char)} (h : Folds w y) (hne : gap ≠ [])
      (hgap : ∀ c ∈ gap, Text.isBlank c = true) (hlater : Spelt words z) : Spelt (w :: words) (y ++ gap ++ z)

/-- What is read for words is a spelling of them. -/
theorem spelt_of_wordsLength? (hwords : words ≠ []) (h : wordsLength? words cs = some n) :
    n ≤ cs.length ∧ Spelt words (cs.take n) := by
  fun_induction wordsLength? words cs generalizing n with
  | case1 => exact absurd rfl hwords
  | case2 w cs =>
    have hle := Text.length_le_of_word? h
    unfold Text.word? at h
    split at h
    case isFalse => cases h
    rename_i hstart
    cases h
    exact ⟨hle, .last (folds_of_startsWith hstart)⟩
  | case3 w ws cs hne ih =>
    simp only [Option.bind_eq_bind, Option.bind_eq_some_iff] at h
    obtain ⟨k, hk, h⟩ := h
    split at h
    case isTrue => cases h
    rename_i hgap
    obtain ⟨m, hm, h⟩ := Option.bind_eq_some_iff.1 h
    cases h
    have hword := Text.length_le_of_word? hk
    obtain ⟨hle, hlater⟩ := ih k hne hm
    unfold Text.word? at hk
    split at hk
    case isFalse => cases hk
    rename_i hstart
    cases hk
    have hblanks := Text.blankLength_le (cs.drop w.length)
    rw [List.length_drop] at hle hblanks
    refine ⟨by omega, ?_⟩
    rw [List.take_add, List.take_add]
    refine .more (folds_of_startsWith hstart) ?_ (fun c hc => Text.isBlank_of_mem_take hc) hlater
    rintro hnil
    rw [Text.take_blankLength] at hnil
    exact hgap (by rw [Text.blankLength, hnil]; rfl)

/-- A part of a word is no blank. -/
theorem isBlank_of_isWord {c : Char} (h : Text.isWord c = true) : Text.isBlank c = false := by
  have hall : ∀ c ∈ Text.blanks, Text.isWord c = false := by decide +kernel
  by_contra hblank
  rw [hall c (Text.mem_blanks (by simpa using hblank))] at h
  cases h

theorem isWord_of_isBlank {c : Char} (h : Text.isBlank c = true) : Text.isWord c = false := by
  by_contra hword
  rw [isBlank_of_isWord (by simpa using hword)] at h
  cases h

/-- The words are not empty, and their letters are parts of words. -/
def Wordy (words : List (List Char)) : Prop := ∀ w ∈ words, w ≠ [] ∧ ∀ l ∈ w, Text.isWord l = true

theorem Folds.isWord (h : Folds w y) (hw : ∀ l ∈ w, Text.isWord l = true) : ∀ c ∈ y, Text.isWord c = true := by
  induction h with
  | nil => exact fun _ hc => nomatch hc
  | cons hc _ ih =>
    rw [List.forall_mem_cons] at hw ⊢
    exact ⟨isWord_of_foldsTo hw.1 hc, ih hw.2⟩

theorem Folds.ne_nil (h : Folds w y) (hw : w ≠ []) : y ≠ [] := by
  cases h with
  | nil => exact hw
  | cons => exact fun hnil => nomatch hnil

/-- A spelling is made of parts of words and blanks. -/
theorem Spelt.isWord_or_isBlank (h : Spelt words y) (hwords : Wordy words) :
    ∀ c ∈ y, Text.isWord c = true ∨ Text.isBlank c = true := by
  induction h with
  | last h => exact fun c hc => .inl (h.isWord (hwords _ (List.mem_cons_self ..)).2 c hc)
  | more h _ hgap _ ih =>
    intro c hc
    rw [List.mem_append, List.mem_append] at hc
    rcases hc with (hc | hc) | hc
    · exact .inl (h.isWord (hwords _ (List.mem_cons_self ..)).2 c hc)
    · exact .inr (hgap c hc)
    · exact ih (fun w hw => hwords w (List.mem_cons_of_mem _ hw)) c hc

/-- A spelling starts with a part of a word. -/
theorem Spelt.isWord_head (h : Spelt words y) (hwords : Wordy words) :
    ∃ c rest, y = c :: rest ∧ Text.isWord c = true := by
  have hstart {w y : List Char} (h : Folds w y) (hw : w ≠ [] ∧ ∀ l ∈ w, Text.isWord l = true) (z : List Char) :
      ∃ c rest, y ++ z = c :: rest ∧ Text.isWord c = true := by
    obtain ⟨c, rest, rfl⟩ := List.exists_cons_of_ne_nil (h.ne_nil hw.1)
    exact ⟨c, rest ++ z, rfl, h.isWord hw.2 c (List.mem_cons_self ..)⟩
  cases h with
  | last h =>
    have hword := hstart h (hwords _ (List.mem_cons_self ..)) []
    rwa [List.append_nil] at hword
  | more h _ _ _ =>
    rw [List.append_assoc]
    exact hstart h (hwords _ (List.mem_cons_self ..)) _

/-- A spelling ends with a part of a word. -/
theorem Spelt.isWord_last (h : Spelt words y) (hwords : Wordy words) :
    ∃ rest c, y = rest ++ [c] ∧ Text.isWord c = true := by
  induction h with
  | last h =>
    have hw := hwords _ (List.mem_cons_self ..)
    have hne := h.ne_nil hw.1
    exact ⟨_, _, (List.dropLast_append_getLast hne).symm, h.isWord hw.2 _ (List.getLast_mem hne)⟩
  | more h _ _ _ ih =>
    obtain ⟨rest, c, rfl, hc⟩ := ih fun w hw => hwords w (List.mem_cons_of_mem _ hw)
    exact ⟨_, c, (List.append_assoc ..).symm, hc⟩

/-- **Words are read where a spelling of them stands.** -/
theorem wordsLength?_of_spelt (h : Spelt words y) (hwords : Wordy words) (z : List Char) :
    wordsLength? words (y ++ z) = some y.length := by
  induction h with
  | last h =>
    rw [wordsLength?, Text.word?, if_pos (startsWith_of_folds h z), h.length_eq]
  | more h hne hgap hlater ih =>
    rename_i w y gap z' words
    have hlater' := fun w hw => hwords w (List.mem_cons_of_mem _ hw)
    obtain ⟨v, vs, rfl⟩ : ∃ v vs, words = v :: vs := by cases hlater <;> exact ⟨_, _, rfl⟩
    obtain ⟨c, rest, rfl, hc⟩ := hlater.isWord_head hlater'
    have hread := ih hlater'
    have hlength : Text.blankLength (gap ++ (c :: rest ++ z)) = gap.length := by
      unfold Text.blankLength
      rw [List.takeWhile_append_of_pos hgap, List.cons_append, List.takeWhile_cons_of_neg
        (by rw [isBlank_of_isWord hc]; exact Bool.false_ne_true), List.append_nil]
    have hpos : ¬(gap.length == 0) = true := by simpa using hne
    have hword : Text.word? w (y ++ (gap ++ (c :: rest ++ z))) = some y.length := by
      rw [Text.word?, if_pos (startsWith_of_folds h _), h.length_eq]
    rw [List.append_assoc, List.append_assoc, wordsLength?]
    · simp only [hword, Option.bind_eq_bind, Option.bind_some, List.drop_left, hlength, if_neg hpos]
      rw [← List.drop_drop, List.drop_left, List.drop_left, hread]
      simp [Nat.add_assoc]
    · exact List.cons_ne_nil v vs

/-! ### Type names and sizes -/

theorem wordy_typeNames (h : words ∈ typeNames) : Wordy words ∧ words ≠ [] := by
  have hall : ∀ ws ∈ typeNames, (∀ w ∈ ws, w ≠ [] ∧ ∀ l ∈ w, Text.isWord l = true) ∧ ws ≠ [] := by
    decide
  exact hall words h

/-- What may stand in the parentheses of a size. -/
def inSize (c : Char) : Bool := Text.isDigit c || Text.isBlank c || c == ','

theorem sizeLength?_eq (cs : List Char) : sizeLength? cs =
    match cs.drop (Text.blankLength cs) with
    | '(' :: inner =>
      if (inner.drop (inner.takeWhile inSize).length).head? == some ')' then
        some (Text.blankLength cs + (inner.takeWhile inSize).length + 2)
      else none
    | _ => none := rfl

/-- A size: digits, blanks and commas in parentheses, with blanks before. -/
def IsSize (x : List Char) : Prop := ∃ gap digits : List Char, x = gap ++ '(' :: digits ++ [')'] ∧
  (∀ c ∈ gap, Text.isBlank c = true) ∧ ∀ c ∈ digits, inSize c = true

/-- What is read as a size is one. -/
theorem exists_size (h : sizeLength? cs = some n) : ∃ size rest, cs = size ++ rest ∧ n = size.length ∧
    IsSize size := by
  unfold sizeLength? at h
  dsimp only at h
  split at h
  case h_2 => cases h
  rename_i inner hinner
  split at h
  case isFalse => cases h
  rename_i hclose
  cases h
  obtain ⟨rest, hrest⟩ := List.head?_eq_some_iff.1 (beq_iff_eq.1 hclose)
  change inner.drop (inner.takeWhile inSize).length = _ at hrest
  refine ⟨cs.takeWhile Text.isBlank ++ '(' :: inner.takeWhile inSize ++ [')'], rest, ?_, ?_, _, _, rfl,
    fun c hc => List.mem_takeWhile_imp hc, fun c hc => List.mem_takeWhile_imp hc⟩
  · have hsplit := List.take_append_drop (inner.takeWhile inSize).length inner
    rw [hrest, ← List.prefix_iff_eq_take.1 (List.takeWhile_prefix _)] at hsplit
    have hcs := List.take_append_drop (Text.blankLength cs) cs
    rw [hinner, ← hsplit, Text.take_blankLength] at hcs
    simpa using hcs.symm
  · change Text.blankLength cs + (inner.takeWhile inSize).length + 2 = _
    simp only [List.length_append, List.length_cons, List.length_nil, Text.blankLength]
    omega

theorem still_of_inSize {c : Char} (h : inSize c = true) : c ∉ ['\'', '(', ')'] := by
  intro hmem
  revert h
  simp only [List.mem_cons, List.not_mem_nil, or_false] at hmem
  rcases hmem with rfl | rfl | rfl <;> decide

/-- A size opens and closes one parenthesis. -/
theorem IsSize.nesting_eq {bad : Bool → Char → Bool} {depth : Nat} {s : Nat × Bool} (h : IsSize x)
    (hx : nesting bad depth false x = some s) : s = (depth, false) := by
  obtain ⟨gap, digits, rfl, hgap, hdigits⟩ := h
  rw [List.append_assoc] at hx
  obtain ⟨t, ht, hx⟩ := exists_nesting_of_append hx
  cases eq_of_nesting_of_still (fun c hc => still_of_isBlank (hgap c hc)) ht
  have hopen : bad false '(' = false := by
    by_contra hbad
    rw [List.cons_append, nesting, if_pos (by simpa using hbad)] at hx
    cases hx
  simp only [List.cons_append, nesting, hopen, Char.reduceBEq, Bool.false_eq_true, ↓reduceIte] at hx
  obtain ⟨u, hu, hclose⟩ := exists_nesting_of_append hx
  cases eq_of_nesting_of_still (fun c hc => still_of_inSize (hdigits c hc)) hu
  simp only [nesting, Char.reduceBEq, Bool.false_eq_true, ↓reduceIte] at hclose
  split_ifs at hclose
  · cases hclose
    rfl

theorem IsSize.breaksAfter (h : IsSize x) (z : List Char) : Text.breaksAfter (x ++ z) = true := by
  obtain ⟨gap, digits, rfl, hgap, -⟩ := h
  cases gap with
  | nil => exact (by decide : (!Text.isWord '(') = true)
  | cons c gap =>
    have hblank := hgap c (List.mem_cons_self ..)
    have hword : Text.isWord c = false := by
      by_contra hword
      rw [isBlank_of_isWord (by simpa using hword)] at hblank
      cases hblank
    simp [Text.breaksAfter, hword]

/-- A type is a spelling of its words, with a size or without, and no part of a word follows. -/
theorem exists_of_typeLength? {m : Nat} (hwords : words ≠ []) (h : typeLength? words cs = some (n, m)) :
    ∃ type size rest, cs = type ++ (size ++ rest) ∧ n = type.length ∧ m = n + size.length ∧ Spelt words type ∧
      (size = [] ∨ IsSize size) ∧ Text.breaksAfter (size ++ rest) = true ∧ Text.breaksAfter rest = true := by
  simp only [typeLength?, Option.bind_eq_bind, Option.bind_eq_some_iff] at h
  obtain ⟨n', hn, h⟩ := h
  obtain ⟨hle, hspelt⟩ := spelt_of_wordsLength? hwords hn
  have hsplit := (List.take_append_drop n' cs).symm
  have hlength : n' = (cs.take n').length := by rw [List.length_take]; omega
  have hbare (hbreaks : Text.breaksAfter (cs.drop n') = true) (he : (n', n') = (n, m)) :
      ∃ type size rest, cs = type ++ (size ++ rest) ∧ n = type.length ∧ m = n + size.length ∧ Spelt words type ∧
        (size = [] ∨ IsSize size) ∧ Text.breaksAfter (size ++ rest) = true ∧ Text.breaksAfter rest = true := by
    cases he
    exact ⟨_, [], _, hsplit, hlength, rfl, hspelt, .inl rfl, hbreaks, hbreaks⟩
  split at h
  · rename_i k hk
    split_ifs at h with hend hbreaks
    · cases h
      obtain ⟨size, rest, heq, rfl, hsize⟩ := exists_size hk
      rw [heq] at hsplit hend
      rw [List.drop_left] at hend
      exact ⟨_, size, rest, hsplit, hlength, rfl, hspelt, .inr hsize, hsize.breaksAfter rest, hend⟩
    · exact hbare hbreaks (Option.some.inj h)
  · split_ifs at h with hbreaks
    exact hbare hbreaks (Option.some.inj h)

theorem isSome_typeLength? (hwords : wordsLength? words cs = some n)
    (hbreaks : Text.breaksAfter (cs.drop n) = true) : (typeLength? words cs).isSome = true := by
  simp only [typeLength?, hwords, Option.bind_eq_bind, Option.bind_some]
  split
  · split_ifs <;> rfl
  · rw [if_pos hbreaks]
    rfl

/-- **A type behind colons** stands after blanks. -/
theorem exists_of_castType? (h : castType? cs = some (type, rest)) : ∃ words ∈ typeNames, ∃ gap size,
    cs = gap ++ (type ++ (size ++ rest)) ∧ (∀ c ∈ gap, Text.isBlank c = true) ∧ Spelt words type ∧
      (size = [] ∨ IsSize size) ∧ Text.breaksAfter (size ++ rest) = true ∧ Text.breaksAfter rest = true := by
  unfold castType? at h
  obtain ⟨⟨n, m⟩, htype, he⟩ := Option.map_eq_some_iff.1 h
  obtain ⟨words, hwords, hlength⟩ := List.exists_of_findSome?_eq_some htype
  obtain ⟨type', size, rest', heq, rfl, rfl, hspelt, hsize, hbreaks, hend⟩ :=
    exists_of_typeLength? (wordy_typeNames hwords).2 hlength
  dsimp only at he
  rw [heq, List.take_left, ← List.drop_drop, List.drop_left, List.drop_left] at he
  cases he
  refine ⟨words, hwords, cs.take (Text.blankLength cs), size, ?_, fun c hc => Text.isBlank_of_mem_take hc,
    hspelt, hsize, hbreaks, hend⟩
  rw [← heq, List.take_append_drop]

/-- A type is found behind colons where a spelling of a type name stands, not followed by a part of a word. -/
theorem isSome_castType? {gap : List Char} (hwords : words ∈ typeNames) (hgap : ∀ c ∈ gap, Text.isBlank c = true)
    (h : Spelt words y) (hbreaks : Text.breaksAfter z = true) : (castType? (gap ++ (y ++ z))).isSome = true := by
  obtain ⟨c, rest, heq, hc⟩ := h.isWord_head (wordy_typeNames hwords).1
  have hbody : (gap ++ (y ++ z)).drop (Text.blankLength (gap ++ (y ++ z))) = y ++ z := by
    rw [Text.drop_blankLength, List.dropWhile_append_of_pos hgap, heq, List.cons_append,
      List.dropWhile_cons_of_neg (by rw [isBlank_of_isWord hc]; exact Bool.false_ne_true)]
  unfold castType?
  dsimp only
  rw [hbody, Option.isSome_map, List.isSome_findSome?]
  refine List.any_eq_true.2 ⟨words, hwords, isSome_typeLength? (wordsLength?_of_spelt h
    (wordy_typeNames hwords).1 z) ?_⟩
  rwa [List.drop_left]

/-! ### Types in parentheses -/

/-- A type opens and closes nothing. -/
theorem nesting_castType? {bad : Bool → Char → Bool} {depth : Nat} {s : Nat × Bool}
    (h : castType? cs = some (type, rest)) (hcs : nesting bad depth false cs = some s) :
    nesting bad depth false rest = some s := by
  obtain ⟨words, hwords, gap, size, rfl, hgap, hspelt, hsize, -, -⟩ := exists_of_castType? h
  obtain ⟨t, ht, hcs⟩ := exists_nesting_of_append hcs
  cases eq_of_nesting_of_still (fun c hc => still_of_isBlank (hgap c hc)) ht
  obtain ⟨t, ht, hcs⟩ := exists_nesting_of_append hcs
  have hletters := hspelt.isWord_or_isBlank (wordy_typeNames hwords).1
  cases eq_of_nesting_of_still (fun c hc => (hletters c hc).elim still_of_isWord still_of_isBlank) ht
  obtain ⟨t, ht, hcs⟩ := exists_nesting_of_append hcs
  rcases hsize with rfl | hsize
  · cases ht
    exact hcs
  · cases hsize.nesting_eq ht
    exact hcs

/-- No word goes on over a closing parenthesis. -/
theorem wordsLength?_append_close (hwords : words ∈ typeNames) (x v : List Char) :
    wordsLength? words (x ++ ')' :: v) = wordsLength? words x := by
  obtain ⟨hwordy, hne⟩ := wordy_typeNames hwords
  cases hx : wordsLength? words x with
  | some n =>
    obtain ⟨hle, hspelt⟩ := spelt_of_wordsLength? hne hx
    have hread := wordsLength?_of_spelt hspelt hwordy (x.drop n ++ ')' :: v)
    rw [← List.append_assoc, List.take_append_drop, List.length_take] at hread
    rw [hread]
    congr 1
    omega
  | none =>
    rw [Option.eq_none_iff_forall_ne_some]
    intro n hn
    obtain ⟨hle, hspelt⟩ := spelt_of_wordsLength? hne hn
    have hshort : n ≤ x.length := by
      by_contra hlong
      have hclose : ')' ∈ (x ++ ')' :: v).take n := by
        rw [List.take_append, List.take_of_length_le (by omega)]
        obtain ⟨k, hk⟩ : ∃ k, n - x.length = k + 1 := ⟨n - x.length - 1, by omega⟩
        rw [hk]
        simp
      rcases hspelt.isWord_or_isBlank hwordy _ hclose with hclose | hclose
      · exact absurd hclose (by decide)
      · exact absurd hclose (by decide)
    rw [List.take_append_of_le_length hshort] at hspelt
    have hread := wordsLength?_of_spelt hspelt hwordy (x.drop n)
    rw [List.take_append_drop, hx] at hread
    cases hread

theorem takeWhile_append_close {p : Char → Bool} (hp : p ')' = false) (x v : List Char) :
    (x ++ ')' :: v).takeWhile p = x.takeWhile p := by
  induction x with
  | nil => simp [hp]
  | cons c x ih =>
    rw [List.cons_append, List.takeWhile_cons, List.takeWhile_cons, ih]

theorem nesting_of_append_of_still {bad : Bool → Char → Bool} {depth : Nat} {s : Nat × Bool}
    (hx : ∀ c ∈ x, c ∉ ['\'', '(', ')']) (h : nesting bad depth false (x ++ y) = some s) :
    nesting bad depth false y = some s := by
  obtain ⟨t, ht, hy⟩ := exists_nesting_of_append h
  cases eq_of_nesting_of_still hx ht
  exact hy

/-- No size goes on over a closing parenthesis that closes none in the text. -/
theorem sizeLength?_append_close {depth : Nat} (h : nesting nothing depth false x = some (0, false))
    (v : List Char) : sizeLength? (x ++ ')' :: v) = sizeLength? x := by
  have hgap := Text.blankLength_le x
  rw [← List.take_append_drop (Text.blankLength x) x] at h
  have hbody := nesting_of_append_of_still (fun c hc => still_of_isBlank (Text.isBlank_of_mem_take hc)) h
  rw [sizeLength?_eq, sizeLength?_eq, Text.blankLength_append_cons (by decide), List.drop_append_of_le_length hgap]
  cases hx : x.drop (Text.blankLength x) with
  | nil => rfl
  | cons c inner =>
    rw [hx] at hbody
    by_cases hc : c = '('
    · subst hc
      have htake : (inner ++ ')' :: v).takeWhile inSize = inner.takeWhile inSize :=
        takeWhile_append_close (by decide) inner v
      have hsize : ((inner ++ ')' :: v).drop (inner.takeWhile inSize).length).head? =
          (inner.drop (inner.takeWhile inSize).length).head? := by
        have hle := (List.takeWhile_prefix (p := inSize) (l := inner)).length_le
        rw [List.drop_append_of_le_length hle]
        cases hdrop : inner.drop (inner.takeWhile inSize).length with
        | cons d rest => rfl
        | nil =>
          -- without another character, the parenthesis would not be closed
          have hall : ∀ d ∈ inner, inSize d = true := by
            have heq := (List.takeWhile_prefix (p := inSize) (l := inner)).eq_of_length
              (le_antisymm hle (List.drop_eq_nil_iff.1 hdrop))
            rw [← heq]
            exact fun d hd => List.mem_takeWhile_imp hd
          have hopen : nesting nothing (depth + 1) false inner = some (0, false) := hbody
          have hend := eq_of_nesting_of_still (fun d hd => still_of_inSize (hall d hd)) hopen
          exact absurd (congrArg Prod.fst hend) (Nat.succ_ne_zero depth).symm
      simp only [List.cons_append, htake, hsize]
    · simp [hc]

theorem breaksAfter_append_close (x v : List Char) : Text.breaksAfter (x ++ ')' :: v) = Text.breaksAfter x := by
  cases x with
  | nil => exact (by decide : (!Text.isWord ')') = true)
  | cons c x => rfl

theorem sizeLength?_le {n : Nat} (h : sizeLength? cs = some n) : n ≤ cs.length := by
  obtain ⟨size, rest, rfl, rfl, -⟩ := exists_size h
  rw [List.length_append]
  exact Nat.le_add_right ..

theorem typeLength?_append_close {depth : Nat} (hwords : words ∈ typeNames)
    (h : nesting nothing depth false x = some (0, false)) (v : List Char) :
    typeLength? words (x ++ ')' :: v) = typeLength? words x := by
  obtain ⟨hwordy, hne⟩ := wordy_typeNames hwords
  unfold typeLength?
  rw [wordsLength?_append_close hwords]
  cases hx : wordsLength? words x with
  | none => rfl
  | some n =>
    obtain ⟨hle, hspelt⟩ := spelt_of_wordsLength? hne hx
    rw [← List.take_append_drop n x] at h
    have hafter := nesting_of_append_of_still
      (fun c hc => (hspelt.isWord_or_isBlank hwordy c hc).elim still_of_isWord still_of_isBlank) h
    simp only [Option.bind_eq_bind, Option.bind_some]
    rw [List.drop_append_of_le_length hle, sizeLength?_append_close hafter, breaksAfter_append_close]
    cases hsize : sizeLength? (x.drop n) with
    | none => rfl
    | some m =>
      dsimp only
      rw [List.drop_append_of_le_length (sizeLength?_le hsize), breaksAfter_append_close]

/-- **A type is found alike in front of a closing parenthesis** that closes none in the text. -/
theorem castType?_append_close {depth : Nat} (h : nesting nothing depth false x = some (0, false))
    (v : List Char) : castType? (x ++ ')' :: v) = (castType? x).map fun p => (p.1, p.2 ++ ')' :: v) := by
  have hgap := Text.blankLength_le x
  rw [← List.take_append_drop (Text.blankLength x) x] at h
  have hbody := nesting_of_append_of_still (fun c hc => still_of_isBlank (Text.isBlank_of_mem_take hc)) h
  unfold castType?
  dsimp only
  rw [Text.blankLength_append_cons (by decide), List.drop_append_of_le_length hgap]
  generalize x.drop (Text.blankLength x) = body at hbody
  have hnames : (typeNames.findSome? fun name => typeLength? name (body ++ ')' :: v)) =
      typeNames.findSome? fun name => typeLength? name body := by
    have hall : ∀ words ∈ typeNames, typeLength? words (body ++ ')' :: v) = typeLength? words body :=
      fun words hwords => typeLength?_append_close hwords hbody v
    generalize typeNames = names at hall
    induction names with
    | nil => rfl
    | cons words names ih =>
      rw [List.forall_mem_cons] at hall
      rw [List.findSome?_cons, List.findSome?_cons, hall.1, ih hall.2]
  rw [hnames, Option.map_map]
  cases hfound : typeNames.findSome? fun name => typeLength? name body with
  | none => rfl
  | some p =>
    obtain ⟨n, m⟩ := p
    obtain ⟨words, hwords, hlength⟩ := List.exists_of_findSome?_eq_some hfound
    obtain ⟨type, size, rest, rfl, rfl, rfl, -⟩ := exists_of_typeLength? (wordy_typeNames hwords).2 hlength
    simp only [Option.map_some, Function.comp_apply]
    rw [List.take_append_of_le_length (by rw [List.length_append]; omega),
      List.drop_append_of_le_length (by simp only [List.length_append]; omega)]

end Sql
end CardTransfer
