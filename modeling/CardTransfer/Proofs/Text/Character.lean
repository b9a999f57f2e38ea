import CardTransfer.Text.Blank
import CardTransfer.Text.Digit
import CardTransfer.Text.LowerCase
import CardTransfer.Text.Unit
import CardTransfer.Text.Word
import Mathlib.Data.List.TakeWhile

/-!
# Blanks around a text

The blank characters are finitely many (`mem_blanks`). Trimming leaves a text without the blanks around it
(`exists_blanks`), whatever they are (`trim_append_blanks`).
-/

namespace CardTransfer
namespace Text

variable {cs x left right : List Char} {c : Char}

/-- The blank characters. -/
def blanks : List Char := (blankSpans.flatMap fun s => List.range' s.1 (s.2 + 1 - s.1)).map Char.ofNat

theorem mem_blanks (h : isBlank c = true) : c ∈ blanks := by
  obtain ⟨s, hs, hle⟩ := (Spans.holds_iff ..).1 h
  refine List.mem_map.2 ⟨c.toNat, List.mem_flatMap.2 ⟨s, hs, ?_⟩, Char.ofNat_toNat c⟩
  rw [List.mem_range'_1]
  omega

theorem isDigit_of_isBlank (h : isBlank c = true) : isDigit c = false := by
  have hall : ∀ c ∈ blanks, isDigit c = false := by decide +kernel
  exact hall c (mem_blanks h)

/-- A text is what trimming leaves of it, with blanks around it. -/
theorem exists_blanks (cs : List Char) : ∃ left right, cs = left ++ trim cs ++ right ∧
    (∀ c ∈ left, isBlank c = true) ∧ ∀ c ∈ right, isBlank c = true := by
  have hstart := List.takeWhile_append_dropWhile (p := isBlank) (l := cs)
  have hend := List.takeWhile_append_dropWhile (p := isBlank) (l := (trimStart cs).reverse)
  refine ⟨cs.takeWhile isBlank, ((trimStart cs).reverse.takeWhile isBlank).reverse, ?_,
    fun c hc => List.mem_takeWhile_imp hc, fun c hc => List.mem_takeWhile_imp (List.mem_reverse.1 hc)⟩
  rw [trim, trimEnd, List.append_assoc, ← List.reverse_append, hend, List.reverse_reverse]
  exact hstart.symm

/-- Blanks around a text do not count. -/
theorem trim_append_blanks (hleft : ∀ c ∈ left, isBlank c = true) (hright : ∀ c ∈ right, isBlank c = true) :
    trim (left ++ x ++ right) = trim x := by
  have hend (y : List Char) : trimEnd (y ++ right) = trimEnd y := by
    rw [trimEnd, List.reverse_append,
      List.dropWhile_append_of_pos fun c hc => hright c (List.mem_reverse.1 hc), trimEnd]
  rw [trim, trim, trimStart, List.append_assoc, List.dropWhile_append_of_pos hleft,
    List.dropWhile_append]
  split
  · rename_i hx
    rw [List.isEmpty_iff] at hx
    rw [trimStart, hx, List.dropWhile_eq_nil_iff.2 hright]
  · exact hend _

/-- Trimming twice is trimming once. -/
theorem trim_trim (cs : List Char) : trim (trim cs) = trim cs := by
  obtain ⟨left, right, heq, hleft, hright⟩ := exists_blanks cs
  have htrim : trim (left ++ trim cs ++ right) = trim (trim cs) := trim_append_blanks hleft hright
  rw [← heq] at htrim
  exact htrim.symm

/-- A text without blanks at its ends is left as it is. -/
theorem trim_eq_self (hhead : ∀ c, cs.head? = some c → isBlank c = false)
    (hlast : ∀ c, cs.getLast? = some c → isBlank c = false) : trim cs = cs := by
  have hdrop {x : List Char} (hx : ∀ c, x.head? = some c → isBlank c = false) : x.dropWhile isBlank = x := by
    cases x with
    | nil => rfl
    | cons c x => rw [List.dropWhile_cons, hx c rfl, if_neg Bool.false_ne_true]
  rw [trim, trimStart, hdrop hhead, trimEnd, hdrop fun c hc => hlast c (by rwa [List.head?_reverse] at hc),
    List.reverse_reverse]

/-- What is left does not start with a blank. -/
theorem isBlank_of_trim_eq_cons (h : trim cs = c :: x) : isBlank c = false := by
  have hpre : trim cs <+: trimStart cs := by
    rw [trim, trimEnd, ← List.reverse_suffix, List.reverse_reverse]
    exact List.dropWhile_suffix _
  rw [h] at hpre
  obtain ⟨t, ht⟩ := hpre
  exact head?_trimStart (by rw [← ht]; rfl)

/-- What a text starts with of some kind is the whole stretch, where nothing of the kind follows. -/
theorem takeWhile_append_of_head {p : Char → Bool} {rest : List Char} (hx : ∀ c ∈ x, p c = true)
    (hrest : ∀ c, rest.head? = some c → p c = false) : (x ++ rest).takeWhile p = x := by
  rw [List.takeWhile_append_of_pos hx]
  cases rest with
  | nil => simp
  | cons c rest => simp [hrest c rfl]

/-- Where two texts that are the same start with a stretch of some kind, the stretches are the same. -/
theorem eq_of_stretch {p : Char → Bool} {y rest rest' : List Char} (hx : ∀ c ∈ x, p c = true)
    (hy : ∀ c ∈ y, p c = true) (hrest : ∀ c, rest.head? = some c → p c = false)
    (hrest' : ∀ c, rest'.head? = some c → p c = false) (h : x ++ rest = y ++ rest') : x = y ∧ rest = rest' := by
  have hsame : x = y := by
    rw [← takeWhile_append_of_head hx hrest, h, takeWhile_append_of_head hy hrest']
  subst hsame
  exact ⟨rfl, List.append_cancel_left h⟩

/-- A text starts with a stretch without blanks and a stretch of blanks, one of which may be empty; without
blanks after the first nothing follows it. -/
theorem exists_word_blanks (cs : List Char) : ∃ word gap rest, cs = word ++ (gap ++ rest) ∧
    (∀ c ∈ word, isBlank c = false) ∧ (∀ c ∈ gap, isBlank c = true) ∧
      (∀ c, rest.head? = some c → isBlank c = false) ∧ (gap = [] → rest = []) := by
  generalize hword : cs.takeWhile (fun c => !isBlank c) = word
  generalize hlater : cs.dropWhile (fun c => !isBlank c) = later
  have hstart : ∀ c, later.head? = some c → isBlank c = true := fun c hc => by
    have hnot := List.head?_dropWhile_not (fun c => !isBlank c) cs
    rw [hlater, hc] at hnot
    simpa using hnot
  refine ⟨word, later.takeWhile isBlank, later.dropWhile isBlank, ?_, fun c hc => ?_,
    fun c hc => List.mem_takeWhile_imp hc, fun c hc => ?_, fun hgap => ?_⟩
  · rw [List.takeWhile_append_dropWhile, ← hword, ← hlater, List.takeWhile_append_dropWhile]
  · rw [← hword] at hc
    simpa using List.mem_takeWhile_imp hc
  · have hnot := List.head?_dropWhile_not isBlank later
    rw [hc] at hnot
    simpa using hnot
  · cases later with
    | nil => rfl
    | cons c later =>
      rw [List.takeWhile_cons, hstart c rfl] at hgap
      cases hgap

end Text
end CardTransfer

/-!
## What lower case comes from

The lower case of a character beyond the first 128 code points is beyond them, too, and no blank
(`lowerChar_of_le`). The one exception is the Kelvin sign, whose lower case is `k`. So a letter of a keyword
that is found in lower case stands for the character it comes from (`foldsTo_lowerChar`), and blanks and
parentheses come from themselves.
-/

namespace CardTransfer
namespace Text

variable {c : Char} {cs x z before : List Char}

/-- Where the runs of the table lead to. -/
theorem lowerRuns_facts : ∀ r ∈ lowerRuns, r = (8490, 8490, 1, -8383) ∨
    (128 ≤ (r.1 : Int) + r.2.2.2 ∧ (r.2.1 : Int) + r.2.2.2 < 0xd800 ∨
      0xdfff < (r.1 : Int) + r.2.2.2 ∧ (r.2.1 : Int) + r.2.2.2 < 0x110000) ∧
      ∀ s ∈ blankSpans, (r.2.1 : Int) + r.2.2.2 < s.1 ∨ (s.2 : Int) < r.1 + r.2.2.2 := by
  decide +kernel

theorem lowerChar_of_le (h : 128 ≤ c.toNat) : lowerChar c = c ∨ (c = '\u212a' ∧ lowerChar c = 'k') ∨
    (128 ≤ (lowerChar c).toNat ∧ isBlank (lowerChar c) = false) := by
  unfold lowerChar
  dsimp only
  rw [if_neg (by omega)]
  split
  case h_2 => exact .inl rfl
  rename_i r hr
  obtain ⟨first, last, step, shift⟩ := r
  have hrange := List.find?_some hr
  simp only [Bool.and_eq_true, decide_eq_true_eq, Int.ofNat_eq_natCast] at hrange ⊢
  rcases lowerRuns_facts _ (List.mem_of_find?_eq_some hr) with heq | ⟨hvalid, hblank⟩
  · cases heq
    have hc : c.toNat = 8490 := by omega
    refine .inr (.inl ⟨?_, ?_⟩)
    · rw [← Char.ofNat_toNat c, hc]
    · rw [hc]
      rfl
  · dsimp only at hvalid hblank
    have hmoved : (Char.ofNat ((c.toNat : Int) + shift).toNat).toNat = ((c.toNat : Int) + shift).toNat := by
      refine toNat_ofNat_of_valid ?_
      rcases hvalid with hvalid | hvalid
      · exact .inl (by omega)
      · exact .inr (by omega)
    refine .inr (.inr ⟨by omega, ?_⟩)
    by_contra hb
    rw [Bool.not_eq_false, isBlank, Spans.holds_iff, hmoved] at hb
    obtain ⟨s, hs, hle⟩ := hb
    have hout := hblank s hs
    omega

theorem lowerChar_of_lt (h : c.toNat < 128) : lowerChar c = c.toLower := if_pos h

theorem toLower_cases (c : Char) : c.toLower = c ∨ 97 ≤ c.toLower.toNat ∧ c.toLower.toNat ≤ 122 := by
  unfold Char.toLower
  split
  · rename_i hupper
    refine .inr ?_
    have hge : 65 ≤ c.val.toNat := hupper.1
    have hle : c.val.toNat ≤ 90 := hupper.2
    change 97 ≤ (c.val + 32).toNat ∧ (c.val + 32).toNat ≤ 122
    rw [UInt32.toNat_add]
    simp only [UInt32.reduceToNat]
    omega
  · exact .inl rfl

/-- A letter in lower case stands for what it is the lower case of. -/
theorem foldsTo_lowerChar (h : (lowerChar c).toNat < 128) : foldsTo (lowerChar c) c = true := by
  rcases Nat.lt_or_ge c.toNat 128 with hc | hc
  · rw [lowerChar_of_lt hc]
    simp [foldsTo]
  · rcases lowerChar_of_le hc with heq | ⟨rfl, heq⟩ | hle
    · rw [heq] at h
      omega
    · rw [heq]
      rfl
    · omega

/-- A character that comes before the letters is the lower case of itself only. -/
theorem eq_of_lowerChar (h : (lowerChar c).toNat < 97) : lowerChar c = c := by
  rcases Nat.lt_or_ge c.toNat 128 with hc | hc
  · rw [lowerChar_of_lt hc] at h ⊢
    exact (toLower_cases c).resolve_right (by omega)
  · rcases lowerChar_of_le hc with heq | ⟨rfl, heq⟩ | hle
    · exact heq
    · rw [heq] at h
      exact absurd h (by decide)
    · omega

/-- Nothing but a blank becomes a blank. -/
theorem lowerChar_eq_of_isBlank (h : isBlank (lowerChar c) = true) : lowerChar c = c := by
  rcases Nat.lt_or_ge c.toNat 128 with hc | hc
  · rw [lowerChar_of_lt hc] at h ⊢
    refine (toLower_cases c).resolve_right fun hle => ?_
    have hspans : ∀ s ∈ blankSpans, s.2 < 97 ∨ 122 < s.1 := by decide
    obtain ⟨s, hs, hblank⟩ := (Spans.holds_iff ..).1 h
    have hout := hspans s hs
    omega
  · rcases lowerChar_of_le hc with heq | ⟨rfl, heq⟩ | hle
    · exact heq
    · rw [heq] at h
      cases h
    · rw [hle.2] at h
      cases h

/-! ### Lower case of a text -/

/-- A text without the characters that have no lower case of their own is put into lower case character by
character. -/
theorem lowerFrom_append (hx : ∀ c ∈ x, c ≠ 'Σ' ∧ c ≠ 'İ') (z : List Char) :
    lowerFrom before (x ++ z) = x.map lowerChar ++ lowerFrom (x.reverse ++ before) z := by
  induction x generalizing before with
  | nil => rfl
  | cons c x ih =>
    rw [List.forall_mem_cons] at hx
    obtain ⟨⟨hσ, hi⟩, hx⟩ := hx
    rw [List.cons_append, lowerFrom, if_neg (by simpa using hσ), if_neg (by simpa using hi), ih hx]
    simp

theorem lower_eq_map (hx : ∀ c ∈ x, c ≠ 'Σ' ∧ c ≠ 'İ') : lower x = x.map lowerChar := by
  have hmap : lowerFrom [] (x ++ []) = _ := lowerFrom_append hx []
  rw [List.append_nil] at hmap
  exact hmap.trans (List.append_nil _)

/-- What the first part of a text in lower case comes from, if it holds nothing that a character without a lower
case of its own becomes. -/
theorem exists_lowerFrom_eq (h : lowerFrom before cs = x ++ z)
    (hx : ∀ c ∈ x, c ∉ ['σ', 'ς', '\u0307']) (hz : z.head? ≠ some '\u0307') : ∃ u v, cs = u ++ v ∧
      x = u.map lowerChar ∧ (∀ c ∈ u, c ≠ 'Σ' ∧ c ≠ 'İ') ∧ lowerFrom (u.reverse ++ before) v = z := by
  induction cs generalizing before x with
  | nil =>
    obtain ⟨rfl, rfl⟩ := List.nil_eq_append_iff.1 h
    exact ⟨[], [], rfl, rfl, (fun _ hc => nomatch hc), rfl⟩
  | cons c cs ih =>
    cases x with
    | nil => exact ⟨[], c :: cs, rfl, rfl, (fun _ hc => nomatch hc), h⟩
    | cons d x =>
      rw [List.forall_mem_cons] at hx
      unfold lowerFrom at h
      split at h
      · -- a sigma becomes one of two letters
        rename_i hσ
        obtain ⟨rfl, -⟩ := List.cons.inj h
        exact absurd hx.1 (by split <;> decide)
      split at h
      · -- the dot above the letter becomes a character of its own
        obtain ⟨rfl, htail⟩ := List.cons.inj h
        cases x with
        | nil =>
          have hhead : z = '\u0307' :: lowerFrom (c :: before) cs := htail.symm
          exact absurd (by rw [hhead]; rfl) hz
        | cons e x =>
          obtain ⟨rfl, -⟩ := List.cons.inj htail
          exact absurd hx.2 (by simp)
      · rename_i hσ hi
        obtain ⟨rfl, htail⟩ := List.cons.inj h
        obtain ⟨u, v, rfl, rfl, hu, hv⟩ := ih htail hx.2
        refine ⟨c :: u, v, rfl, rfl, ?_, by simpa using hv⟩
        rw [List.forall_mem_cons]
        exact ⟨⟨by simpa using hσ, by simpa using hi⟩, hu⟩

end Text
end CardTransfer

/-!
## What words and blanks take of a text

A word takes characters that its letters stand for and nothing else (`exists_foldsTo_of_mem_take`), so
that it does not run over a character that none of its letters stands for (`startsWith_append_cons`).
The same holds of a word, blanks and a mark (`wordThen?_eq_some`).
-/

namespace CardTransfer
namespace Text

variable {word cs x v : List Char} {c d mark : Char} {n : Nat}

/-! ### Words -/

/-- A word does not run over a character that none of its letters stands for. -/
theorem startsWith_append_cons (h : ∀ l ∈ word, foldsTo l d = false) :
    startsWith word (x ++ d :: v) = startsWith word x := by
  induction word generalizing x with
  | nil => simp [startsWith]
  | cons l word ih =>
    cases x with
    | nil => simp [startsWith, h l (List.mem_cons_self ..)]
    | cons c x =>
      rw [List.cons_append, startsWith, startsWith, ih fun m hm => h m (List.mem_cons_of_mem _ hm)]

/-- The letters of a word stand for what it takes. -/
theorem exists_foldsTo_of_mem_take (h : startsWith word cs = true) (hc : c ∈ cs.take word.length) :
    ∃ l ∈ word, foldsTo l c = true := by
  induction word generalizing cs with
  | nil => simp at hc
  | cons l word ih =>
    cases cs with
    | nil => simp at hc
    | cons d cs =>
      rw [startsWith, Bool.and_eq_true] at h
      rw [List.length_cons, List.take_succ_cons, List.mem_cons] at hc
      rcases hc with rfl | hc
      · exact ⟨l, List.mem_cons_self .., h.1⟩
      · obtain ⟨m, hm, hfold⟩ := ih h.2 hc
        exact ⟨m, List.mem_cons_of_mem _ hm, hfold⟩

/-! ### Blanks -/

theorem take_blankLength (cs : List Char) : cs.take (blankLength cs) = cs.takeWhile isBlank :=
  (List.prefix_iff_eq_take.1 (List.takeWhile_prefix _)).symm

theorem drop_blankLength (cs : List Char) : cs.drop (blankLength cs) = cs.dropWhile isBlank := by
  have hsplit := List.take_append_drop (blankLength cs) cs
  rw [take_blankLength] at hsplit
  exact List.append_cancel_left (hsplit.trans List.takeWhile_append_dropWhile.symm)

/-- What the blanks at the start of a text are. -/
theorem isBlank_of_mem_take (h : c ∈ cs.take (blankLength cs)) : isBlank c = true := by
  rw [take_blankLength] at h
  exact List.mem_takeWhile_imp h

/-! ### A word, blanks and a mark -/

/-- What a word, blanks and a mark take. -/
theorem wordThen?_eq_some (h : wordThen? word mark cs = some n) : ∃ spelt gap rest,
    cs = spelt ++ gap ++ mark :: rest ∧ n = (spelt ++ gap ++ [mark]).length ∧
      (∀ c ∈ spelt, ∃ l ∈ word, foldsTo l c = true) ∧ ∀ c ∈ gap, isBlank c = true := by
  simp only [wordThen?, word?, Option.bind_eq_bind, Option.bind_eq_some_iff] at h
  obtain ⟨m, hm, h⟩ := h
  split at hm
  case isFalse => cases hm
  rename_i hstart
  cases hm
  split at h
  case isFalse => cases h
  rename_i hmark
  cases h
  obtain ⟨rest, hrest⟩ := List.head?_eq_some_iff.1 (beq_iff_eq.1 hmark)
  have hlength := length_le_of_startsWith hstart
  refine ⟨cs.take word.length, (cs.drop word.length).take (blankLength (cs.drop word.length)),
    rest, ?_, ?_,
    fun c hc => exists_foldsTo_of_mem_take hstart hc, fun c hc => isBlank_of_mem_take hc⟩
  · rw [← hrest, ← List.drop_drop, List.append_assoc, List.take_append_drop, List.take_append_drop]
  · have hgap : blankLength (cs.drop word.length) ≤ (cs.drop word.length).length :=
      (List.takeWhile_sublist _).length_le
    simp only [List.length_append, List.length_take, List.length_singleton]
    omega

/-! ### Before a character that no word, blank or mark takes -/

/-- A word found in a text is found there whatever follows it. -/
theorem word?_append_cons (h : ∀ l ∈ word, foldsTo l d = false) :
    word? word (x ++ d :: v) = word? word x := by
  rw [word?, startsWith_append_cons h, word?]

theorem blankLength_append_cons (h : isBlank d = false) :
    blankLength (x ++ d :: v) = blankLength x := by
  unfold blankLength
  induction x with
  | nil => simp [h]
  | cons c x ih =>
    rw [List.cons_append]
    cases hc : isBlank c with
    | true => simp [hc, ih]
    | false => simp [hc]

theorem blankLength_le (cs : List Char) : blankLength cs ≤ cs.length :=
  (List.takeWhile_sublist _).length_le

theorem length_le_of_word? (h : word? word cs = some n) : n ≤ cs.length := by
  unfold word? at h
  split at h
  · rename_i hstart
    cases h
    exact length_le_of_startsWith hstart
  · cases h

/-- What comes after a stretch of the text, if not the character itself, is what comes there without it. -/
theorem head?_drop_append_cons (hn : n ≤ x.length) (h : d ≠ mark) :
    (((x ++ d :: v).drop n).head? == some mark) = ((x.drop n).head? == some mark) := by
  rw [List.drop_append_of_le_length hn]
  cases x.drop n with
  | nil => simp [h]
  | cons c rest => rfl

/-- A word, blanks and a mark are found in a text whatever follows it. -/
theorem wordThen?_append_cons (h : ∀ l ∈ word, foldsTo l d = false) (hblank : isBlank d = false)
    (hmark : d ≠ mark) : wordThen? word mark (x ++ d :: v) = wordThen? word mark x := by
  unfold wordThen?
  rw [word?_append_cons h]
  cases hword : word? word x with
  | none => rfl
  | some m =>
    have hm := length_le_of_word? hword
    have hgap := blankLength_le (x.drop m)
    rw [List.length_drop] at hgap
    simp only [Option.bind_eq_bind, Option.bind_some]
    rw [List.drop_append_of_le_length hm, blankLength_append_cons hblank,
      head?_drop_append_cons (by omega) hmark]

/-- Two words are found in a text whatever follows it. -/
theorem twoWords?_append_cons {second : List Char} (h : ∀ l ∈ word, foldsTo l d = false)
    (hsecond : ∀ l ∈ second, foldsTo l d = false) (hblank : isBlank d = false) :
    twoWords? word second (x ++ d :: v) = twoWords? word second x := by
  unfold twoWords?
  rw [word?_append_cons h]
  cases hword : word? word x with
  | none => rfl
  | some m =>
    have hm := length_le_of_word? hword
    have hgap := blankLength_le (x.drop m)
    rw [List.length_drop] at hgap
    simp only [Option.bind_eq_bind, Option.bind_some]
    rw [List.drop_append_of_le_length hm, blankLength_append_cons hblank,
      List.drop_append_of_le_length (by omega), word?_append_cons hsecond]

theorem length_le_of_twoWords? {second : List Char} (h : twoWords? word second cs = some n) :
    n ≤ cs.length := by
  simp only [twoWords?, Option.bind_eq_bind, Option.bind_eq_some_iff] at h
  obtain ⟨m, hm, h⟩ := h
  split at h
  · cases h
  obtain ⟨k, hk, h⟩ := Option.bind_eq_some_iff.1 h
  cases h
  have hle := length_le_of_word? hk
  have hgap := blankLength_le (cs.drop m)
  have hm := length_le_of_word? hm
  rw [List.length_drop] at hle hgap
  omega

end Text
end CardTransfer
