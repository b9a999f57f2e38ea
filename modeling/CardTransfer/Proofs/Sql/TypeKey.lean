import CardTransfer.Proofs.Sql.CastType

/-!
# The name under which a type is looked up

In a `CAST` a type is the whole of a text, which is looked up in lower case, with single spaces and without a
size at its end (`typeKey`). So what has a conversion is the spelling of a type name, with blanks and a size
around it (`exists_of_conversion?`), and a spelling of a type name has the conversion of the name
(`typeKey_of_spelt`).
-/

namespace CardTransfer
namespace Sql

open Text (isBlank lowerChar)

variable {x y z u v gap size type rest function : List Char} {words words' : List (List Char)}

/-! ### Letters -/

/-- The letter that a character stands for. -/
def letterOf (c : Char) : Char :=
  if c == 'İ' || c == 'ı' then 'i' else if c == 'ſ' then 's' else if c == '\u212a' then 'k' else c.toLower

/-- Whether a character is a letter of type names. -/
def isNameLetter (l : Char) : Bool := l.toLower == l && decide (l.toNat < 128) && !isBlank l

theorem letterOf_of_lt {c : Char} (h : c.toNat < 128) : letterOf c = c.toLower := by
  have hne {d : Char} (hd : 128 ≤ d.toNat) : (c == d) = false := by
    rw [beq_eq_false_iff_ne]
    rintro rfl
    omega
  simp only [letterOf, hne (d := 'İ') (by decide), hne (d := 'ı') (by decide), hne (d := 'ſ') (by decide),
    hne (d := '\u212a') (by decide), Bool.or_self, Bool.false_eq_true, if_false]

/-- A character beyond the first 128 is no capital letter. -/
theorem toLower_of_le {c : Char} (h : 128 ≤ c.toNat) : c.toLower = c := by
  refine (Text.toLower_cases c).resolve_right fun hle => ?_
  unfold Char.toLower at hle
  split at hle
  · rename_i hupper
    have hsmall : c.toNat ≤ 90 := hupper.2
    omega
  · omega

/-- A character stands for one letter only. -/
theorem eq_letterOf {l c : Char} (hl : isNameLetter l = true) (h : Text.foldsTo l c = true) : l = letterOf c := by
  simp only [isNameLetter, Bool.and_eq_true, beq_iff_eq, decide_eq_true_eq] at hl
  simp only [Text.foldsTo, Bool.or_eq_true, Bool.and_eq_true, beq_iff_eq] at h
  rcases h with ((((rfl | rfl) | ⟨rfl, rfl | rfl⟩) | ⟨rfl, rfl⟩) | ⟨rfl, rfl⟩)
  · rw [letterOf_of_lt hl.1.2, hl.1.1]
  · rcases Nat.lt_or_ge c.toNat 128 with hc | hc
    · rw [letterOf_of_lt hc]
    · rw [toLower_of_le hc] at hl
      omega
  all_goals rfl

theorem eq_of_folds {w w' y : List Char} (hw : ∀ l ∈ w, isNameLetter l = true)
    (hw' : ∀ l ∈ w', isNameLetter l = true) (h : Folds w y) (h' : Folds w' y) : w = w' := by
  have hmap {w y : List Char} (hw : ∀ l ∈ w, isNameLetter l = true) (h : Folds w y) : w = y.map letterOf := by
    induction h with
    | nil => rfl
    | cons hc _ ih =>
      rw [List.forall_mem_cons] at hw
      rw [List.map_cons, ← eq_letterOf hw.1 hc, ← ih hw.2]
  rw [hmap hw h, hmap hw' h']

/-- All characters but blanks have a lower case of their own, among the first 128 characters. -/
def Lowers (x : List Char) : Prop :=
  ∀ c ∈ x, (c ≠ 'Σ' ∧ c ≠ 'İ') ∧ (isBlank c = true ∨ (lowerChar c).toNat < 128)

theorem ne_of_isBlank {c : Char} (h : isBlank c = true) : c ≠ 'Σ' ∧ c ≠ 'İ' := by
  constructor <;> rintro rfl <;> revert h <;> decide

theorem lowerChar_of_foldsTo {l c : Char} (hl : isNameLetter l = true) (h : Text.foldsTo l c = true)
    (hc : (lowerChar c).toNat < 128) : lowerChar c = l := by
  rw [eq_letterOf hl h]
  rcases Nat.lt_or_ge c.toNat 128 with hlt | hle
  · rw [Text.lowerChar_of_lt hlt, letterOf_of_lt hlt]
  · -- the Kelvin sign is the only one
    rcases Text.lowerChar_of_le hle with heq | ⟨rfl, heq⟩ | hge
    · rw [heq] at hc
      omega
    · rw [heq]
      rfl
    · omega

theorem lowerChar_of_isBlank {c : Char} (h : isBlank c = true) : lowerChar c = c := by
  have hall : ∀ c ∈ Text.blanks, lowerChar c = c := by decide
  exact hall c (Text.mem_blanks h)

theorem isBlank_lowerChar (c : Char) : isBlank (lowerChar c) = isBlank c := by
  cases hc : isBlank c with
  | true => rw [lowerChar_of_isBlank hc, hc]
  | false =>
    by_contra hblank
    rw [Bool.not_eq_false] at hblank
    rw [Text.lowerChar_eq_of_isBlank hblank, hc] at hblank
    cases hblank

theorem Folds.map_lowerChar {w : List Char} (h : Folds w y) (hw : ∀ l ∈ w, isNameLetter l = true)
    (hword : ∀ l ∈ w, Text.isWord l = true) (hy : Lowers y) : y.map lowerChar = w := by
  have hletters := h.isWord hword
  induction h with
  | nil => rfl
  | cons hc _ ih =>
    rw [List.forall_mem_cons] at hw hword hletters
    have hhead := (hy _ (List.mem_cons_self ..)).2
    rw [isBlank_of_isWord hletters.1] at hhead
    rw [List.map_cons, lowerChar_of_foldsTo hw.1 hc (hhead.resolve_left Bool.false_ne_true),
      ih hw.2 hword.2 (fun c hc => hy c (List.mem_cons_of_mem _ hc)) hletters.2]

/-! ### Single spaces -/

theorem squeeze_cons {c : Char} (h : isBlank c = false) (x : List Char) : squeeze (c :: x) = c :: squeeze x := by
  cases x with
  | nil => simp [squeeze, h]
  | cons d x => simp [squeeze, h]

theorem squeeze_append {w : List Char} (h : ∀ c ∈ w, isBlank c = false) (x : List Char) :
    squeeze (w ++ x) = w ++ squeeze x := by
  induction w with
  | nil => rfl
  | cons c w ih =>
    rw [List.forall_mem_cons] at h
    rw [List.cons_append, squeeze_cons h.1, ih h.2, List.cons_append]

theorem squeeze_blanks (hgap : ∀ c ∈ gap, isBlank c = true) (hne : gap ≠ [])
    (hx : ∀ c, x.head? = some c → isBlank c = false) : squeeze (gap ++ x) = ' ' :: squeeze x := by
  induction gap with
  | nil => exact absurd rfl hne
  | cons c gap ih =>
    rw [List.forall_mem_cons] at hgap
    cases gap with
    | nil =>
      cases x with
      | nil => simp [squeeze, hgap.1]
      | cons d x => simp [squeeze, hgap.1, hx d rfl]
    | cons d gap =>
      have hlater := ih hgap.2 (List.cons_ne_nil d gap)
      rw [List.cons_append] at hlater
      simp only [List.cons_append, squeeze, hgap.1, hgap.2 d (List.mem_cons_self ..), if_true, hlater]

/-- Words with single spaces between them. -/
def joined : List (List Char) → List Char
  | [] => []
  | [w] => w
  | w :: w' :: words => w ++ ' ' :: joined (w' :: words)

/-- The words are made of letters of type names. -/
def Lettered (words : List (List Char)) : Prop := ∀ w ∈ words, ∀ l ∈ w, isNameLetter l = true

theorem lettered_typeNames (h : words ∈ typeNames) : Lettered words := by
  have hall : ∀ ws ∈ typeNames, ∀ w ∈ ws, ∀ l ∈ w, isNameLetter l = true := by decide
  exact hall words h

theorem isBlank_of_isNameLetter {l : Char} (h : isNameLetter l = true) : isBlank l = false := by
  simp only [isNameLetter, Bool.and_eq_true, Bool.not_eq_true'] at h
  exact h.2

/-- A spelling in lower case with single spaces is the name. -/
theorem squeeze_of_spelt (h : Spelt words y) (hwords : Wordy words) (hletters : Lettered words) (hy : Lowers y) :
    squeeze (y.map lowerChar) = joined words := by
  have hword {w : List Char} (hw : ∀ l ∈ w, isNameLetter l = true) : ∀ c ∈ w, isBlank c = false :=
    fun c hc => isBlank_of_isNameLetter (hw c hc)
  induction h with
  | last h =>
    have hw := hletters _ (List.mem_cons_self ..)
    have hsqueeze := squeeze_append (hword hw) []
    rw [List.append_nil] at hsqueeze
    rw [h.map_lowerChar hw (hwords _ (List.mem_cons_self ..)).2 hy, hsqueeze, squeeze, List.append_nil, joined]
  | more h hne hgap hlater ih =>
    rename_i w y gap z words
    have hw := hletters _ (List.mem_cons_self ..)
    have hlater' : Wordy words := fun w hw => hwords w (List.mem_cons_of_mem _ hw)
    have hgap' : gap.map lowerChar = gap := by
      conv_rhs => rw [← List.map_id gap]
      exact List.map_congr_left fun c hc => lowerChar_of_isBlank (hgap c hc)
    have hhead : ∀ d, (z.map lowerChar).head? = some d → isBlank d = false := by
      obtain ⟨c, rest, rfl, hc⟩ := hlater.isWord_head hlater'
      rintro d ⟨⟩
      rw [isBlank_lowerChar, isBlank_of_isWord hc]
    obtain ⟨v, vs, rfl⟩ : ∃ v vs, words = v :: vs := by
      cases hlater <;> exact ⟨_, _, rfl⟩
    rw [List.map_append, List.map_append,
      h.map_lowerChar hw (hwords _ (List.mem_cons_self ..)).2 (fun c hc => hy c (by simp [hc])), hgap',
      List.append_assoc, squeeze_append (hword hw), squeeze_blanks hgap hne hhead,
      ih hlater' (fun w hw => hletters w (List.mem_cons_of_mem _ hw)) fun c hc => hy c (by simp [hc])]
    rfl

theorem folds_of_map_lowerChar {w : List Char} (hw : ∀ l ∈ w, isNameLetter l = true)
    (h : y.map lowerChar = w) : Folds w y := by
  subst h
  induction y with
  | nil => exact .nil
  | cons c y ih =>
    rw [List.map_cons, List.forall_mem_cons] at hw
    have hc := hw.1
    simp only [isNameLetter, Bool.and_eq_true, decide_eq_true_eq] at hc
    exact .cons (Text.foldsTo_lowerChar hc.1.2) (ih hw.2)

/-- What is a name in lower case with single spaces is a spelling of it. -/
theorem spelt_of_squeeze (hne : words ≠ []) (hletters : Lettered words)
    (h : squeeze (y.map lowerChar) = joined words) : Spelt words y := by
  have hspace {w : List Char} (hw : ∀ c ∈ w, isBlank c = false) : ' ' ∉ w := fun hmem =>
    absurd (hw ' ' hmem) (by decide)
  induction words generalizing y with
  | nil => exact absurd rfl hne
  | cons w words ih =>
    have hw := hletters w (List.mem_cons_self ..)
    have hwspace := hspace fun c hc => isBlank_of_isNameLetter (hw c hc)
    obtain ⟨a, gap, z, rfl, ha, hgap, hz, hnil⟩ := Text.exists_word_blanks y
    have ha' : ∀ c ∈ a.map lowerChar, isBlank c = false := by
      simpa only [List.mem_map, forall_exists_index, and_imp, forall_apply_eq_imp_iff₂, isBlank_lowerChar] using ha
    rw [List.map_append, squeeze_append ha'] at h
    rcases eq_or_ne gap [] with rfl | hgapne
    · rw [hnil rfl] at h ⊢
      simp only [List.append_nil, List.map_nil, squeeze] at h ⊢
      cases words with
      | nil => exact .last (folds_of_map_lowerChar hw h)
      | cons w' words => exact absurd (h ▸ (by simp [joined] : ' ' ∈ joined (w :: w' :: words))) (hspace ha')
    · have hgap' : ∀ c ∈ gap.map lowerChar, isBlank c = true := by
        simpa only [List.mem_map, forall_exists_index, and_imp, forall_apply_eq_imp_iff₂,
          isBlank_lowerChar] using hgap
      have hz' : ∀ c, (z.map lowerChar).head? = some c → isBlank c = false := by
        intro c hc
        rw [List.head?_map] at hc
        obtain ⟨d, hd, rfl⟩ := Option.map_eq_some_iff.1 hc
        rw [isBlank_lowerChar, hz d hd]
      rw [List.map_append, squeeze_blanks hgap' (by simpa using hgapne) hz'] at h
      cases words with
      | nil =>
        have hmem : ' ' ∈ w := by
          rw [joined] at h
          rw [← h]
          simp
        exact absurd hmem hwspace
      | cons w' words =>
        rw [joined] at h
        obtain ⟨hword, hlater⟩ := Text.eq_of_append_cons (hspace ha') hwspace h
        rw [← List.append_assoc]
        exact .more (folds_of_map_lowerChar hw hword) hgapne hgap (ih (List.cons_ne_nil w' words)
          (fun w hw => hletters w (List.mem_cons_of_mem _ hw)) hlater)

/-! ### Sizes -/

theorem dropSize_eq_self (h : x.getLast? ≠ some ')') : dropSize x = x := by
  rw [dropSize, if_neg (by simpa using h)]

/-- A size at the end is dropped. -/
theorem dropSize_append (hopen : '(' ∉ x) (hline : '\n' ∉ y) : dropSize (x ++ '(' :: y ++ [')']) = x := by
  have hsize : ∀ c ∈ ')' :: (y.reverse ++ ['(']), (c != '\n') = true := by
    intro c hc
    rw [bne_iff_ne]
    rintro rfl
    simp only [List.mem_cons, List.mem_append, List.mem_reverse, List.not_mem_nil, or_false] at hc
    rcases hc with hc | hc | hc
    · exact absurd hc (by decide)
    · exact hline hc
    · exact absurd hc (by decide)
  -- the last line goes back to a place in `x`
  obtain ⟨x₁, x₂, rfl, hx₂⟩ : ∃ x₁ x₂, x = x₁ ++ x₂ ∧ x.reverse.takeWhile (· != '\n') = x₂.reverse :=
    ⟨(x.reverse.dropWhile (· != '\n')).reverse, (x.reverse.takeWhile (· != '\n')).reverse, by
      rw [← List.reverse_append, List.takeWhile_append_dropWhile, List.reverse_reverse],
      (List.reverse_reverse _).symm⟩
  have hlast : (x₁ ++ x₂ ++ '(' :: y ++ [')']).reverse.takeWhile (· != '\n') =
      (x₂ ++ '(' :: y ++ [')']).reverse := by
    rw [show (x₁ ++ x₂ ++ '(' :: y ++ [')']).reverse = ')' :: (y.reverse ++ ['(']) ++ (x₁ ++ x₂).reverse by simp,
      List.takeWhile_append_of_pos hsize, hx₂]
    simp
  have hbefore : ∀ c ∈ x₂, (c != '(') = true := by
    intro c hc
    rw [bne_iff_ne]
    rintro rfl
    exact hopen (List.mem_append_right _ hc)
  have hstart : (x₂ ++ '(' :: y ++ [')']).takeWhile (· != '(') = x₂ := by
    rw [List.append_assoc, List.takeWhile_append_of_pos hbefore]
    simp
  unfold dropSize
  rw [if_pos (by rw [List.getLast?_concat]; rfl)]
  dsimp only
  rw [hlast, List.reverse_reverse, hstart, if_pos (by simp), List.append_assoc _ ('(' :: y)]
  refine List.take_left' ?_
  simp only [List.length_append, List.length_cons, List.length_nil]
  omega

/-- What is dropped starts with a parenthesis. -/
theorem exists_dropSize (x : List Char) : ∃ size, x = dropSize x ++ size ∧
    (size = [] ∨ ∃ inner, size = '(' :: inner) := by
  unfold dropSize
  dsimp only
  split_ifs with hclose hstart
  · obtain ⟨before, hbefore⟩ : (x.reverse.takeWhile (· != '\n')).reverse <:+ x := by
      rw [← List.reverse_prefix, List.reverse_reverse]
      exact List.takeWhile_prefix _
    generalize (x.reverse.takeWhile (· != '\n')).reverse = line at hbefore hstart
    subst hbefore
    have hsplit := List.takeWhile_append_dropWhile (p := (· != '(')) (l := line)
    refine ⟨line.dropWhile (· != '('), ?_, .inr ?_⟩
    · have htake : (before ++ line).take ((before ++ line).length - (line.length - (line.takeWhile (· != '(')).length)) =
          before ++ line.takeWhile (· != '(') := by
        rw [List.take_append, List.take_of_length_le (by rw [List.length_append]; omega)]
        have hle := (List.takeWhile_prefix (p := (· != '(')) (l := line)).length_le
        rw [List.length_append, show before.length + line.length - (line.length -
          (line.takeWhile (· != '(')).length) - before.length = (line.takeWhile (· != '(')).length by omega,
          ← List.prefix_iff_eq_take.1 (List.takeWhile_prefix _)]
      rw [htake, List.append_assoc, hsplit]
    · cases hdrop : line.dropWhile (· != '(') with
      | nil =>
        rw [hdrop, List.append_nil] at hsplit
        rw [hsplit] at hstart
        omega
      | cons c inner =>
        have hnot := List.head?_dropWhile_not (· != '(') line
        rw [hdrop] at hnot
        exact ⟨inner, by rw [show c = '(' by simpa using hnot]⟩
  · exact ⟨[], (List.append_nil _).symm, .inl rfl⟩
  · exact ⟨[], (List.append_nil _).symm, .inl rfl⟩

/-! ### The name of a spelling -/

theorem Spelt.ends (h : Spelt words y) (hwords : Wordy words) :
    (∀ c, y.head? = some c → isBlank c = false) ∧ ∀ c, y.getLast? = some c → isBlank c = false := by
  obtain ⟨c, rest, heq, hc⟩ := h.isWord_head hwords
  obtain ⟨rest', d, heq', hd⟩ := h.isWord_last hwords
  refine ⟨fun e he => ?_, fun e he => ?_⟩
  · rw [heq] at he
    cases he
    exact isBlank_of_isWord hc
  · rw [heq', List.getLast?_concat] at he
    cases he
    exact isBlank_of_isWord hd

theorem trim_map_lowerChar (x : List Char) : Text.trim (x.map lowerChar) = (Text.trim x).map lowerChar := by
  have hblank : isBlank ∘ lowerChar = isBlank := funext isBlank_lowerChar
  simp only [Text.trim, Text.trimEnd, Text.trimStart, List.dropWhile_map, ← List.map_reverse, hblank]

theorem mem_of_mem_map_lowerChar {c : Char} (hc : c.toNat < 97) (h : c ∈ x.map lowerChar) : c ∈ x := by
  obtain ⟨d, hd, rfl⟩ := List.mem_map.1 h
  rwa [Text.eq_of_lowerChar hc]

/-- **A spelling of a type name is looked up under the name**, with blanks around it and a size. -/
theorem typeKey_of_spelt (hwords : words ∈ typeNames) (h : Spelt words y) (hy : Lowers y)
    (hgap : ∀ c ∈ gap, isBlank c = true) (hsize : size = [] ∨ IsSize size) (hline : '\n' ∉ size)
    (hrest : ∀ c ∈ rest, isBlank c = true) : typeKey (gap ++ (y ++ (size ++ rest))) = joined words := by
  obtain ⟨hwordy, -⟩ := wordy_typeNames hwords
  have hends := h.ends hwordy
  have hsqueeze := squeeze_of_spelt h hwordy (lettered_typeNames hwords) hy
  have htrimmed : Text.trim y = y := Text.trim_eq_self hends.1 hends.2
  have htrim : Text.trim (gap ++ (y ++ (size ++ rest))) = Text.trim (y ++ size) := by
    rw [← List.append_assoc y, ← List.append_assoc gap, Text.trim_append_blanks hgap hrest]
  have hmarks : ∀ c ∈ y, c ∉ ['\'', '(', ')'] := fun c hc =>
    (h.isWord_or_isBlank hwordy c hc).elim still_of_isWord still_of_isBlank
  unfold typeKey
  rw [htrim]
  rcases hsize with rfl | ⟨g, digits, rfl, hg, hdigits⟩
  · have hlast : (y.map lowerChar).getLast? ≠ some ')' := by
      intro hlast
      have hmem := mem_of_mem_map_lowerChar (by decide) (List.mem_of_getLast? hlast)
      exact hmarks _ hmem (by simp)
    rw [List.append_nil, htrimmed, Text.lower_eq_map fun c hc => (hy c hc).1, dropSize_eq_self hlast,
      trim_map_lowerChar, htrimmed, hsqueeze]
  · have hwhole : Text.trim (y ++ (g ++ '(' :: digits ++ [')'])) = y ++ (g ++ '(' :: digits ++ [')']) := by
      refine Text.trim_eq_self (fun c hc => hends.1 c ?_) fun c hc => ?_
      · obtain ⟨d, rest', rfl, -⟩ := h.isWord_head hwordy
        exact hc
      · rw [← List.append_assoc, List.getLast?_concat] at hc
        cases hc
        decide
    have hlower : ∀ c ∈ y ++ (g ++ '(' :: digits ++ [')']), c ≠ 'Σ' ∧ c ≠ 'İ' := by
      have hdigit {c : Char} (hc : inSize c = true) : c ≠ 'Σ' ∧ c ≠ 'İ' := by
        constructor <;> rintro rfl <;> revert hc <;> decide
      intro c hc
      simp only [List.mem_append, List.mem_cons, List.not_mem_nil, or_false] at hc
      rcases hc with hc | (hc | rfl | hc) | rfl
      · exact (hy c hc).1
      · exact ne_of_isBlank (hg c hc)
      · decide
      · exact hdigit (hdigits c hc)
      · decide
    have hopen : '(' ∉ (y ++ g).map lowerChar := by
      intro hmem
      rcases List.mem_append.1 (mem_of_mem_map_lowerChar (by decide) hmem) with hmem | hmem
      · exact hmarks _ hmem (by simp)
      · exact still_of_isBlank (hg _ hmem) (by simp)
    have hline' : '\n' ∉ digits.map lowerChar := fun hmem =>
      hline (by simp [mem_of_mem_map_lowerChar (by decide) hmem])
    have hmap : (y ++ (g ++ '(' :: digits ++ [')'])).map lowerChar =
        (y ++ g).map lowerChar ++ '(' :: digits.map lowerChar ++ [')'] := by
      have hparens : lowerChar '(' = '(' ∧ lowerChar ')' = ')' := by decide
      simp [hparens]
    rw [hwhole, Text.lower_eq_map hlower, hmap, dropSize_append hopen hline', trim_map_lowerChar]
    have hright : Text.trim ([] ++ y ++ g) = Text.trim y := Text.trim_append_blanks (fun _ hc => nomatch hc) hg
    rw [List.nil_append] at hright
    rw [hright, htrimmed, hsqueeze]

/-! ### What has a conversion -/

theorem mem_squeeze {c : Char} (hc : isBlank c = false) (h : c ∈ x) : c ∈ squeeze x := by
  induction x with
  | nil => exact h
  | cons d x ih =>
    cases hd : isBlank d with
    | false =>
      rw [squeeze_cons hd, List.mem_cons] at *
      exact h.imp_right ih
    | true =>
      have hmem : c ∈ x := (List.mem_cons.1 h).resolve_left fun heq => by
        rw [heq, hd] at hc
        cases hc
      cases x with
      | nil => cases hmem
      | cons e x =>
        rw [squeeze, if_pos hd]
        split
        · exact ih hmem
        · exact List.mem_cons_of_mem _ (ih hmem)

theorem lowerFrom_eq_nil {before : List Char} (h : Text.lowerFrom before x = []) : x = [] := by
  cases x with
  | nil => rfl
  | cons c x =>
    unfold Text.lowerFrom at h
    split_ifs at h

/-- Nothing but a parenthesis becomes one. -/
theorem head?_of_lowerFrom_eq {before inner : List Char} (h : Text.lowerFrom before x = '(' :: inner) :
    x.head? = some '(' := by
  cases x with
  | nil => cases h
  | cons c x =>
    unfold Text.lowerFrom at h
    split_ifs at h
    · exact absurd (List.cons.inj h).1 (by decide)
    · exact absurd (List.cons.inj h).1 (by decide)
    · exact absurd (List.cons.inj h).1 (by decide)
    · have hc := (List.cons.inj h).1
      rw [Text.eq_of_lowerChar (by rw [hc]; decide)] at hc
      rw [hc]
      rfl

theorem mem_joined {c : Char} (h : c ∈ joined words) : (∃ w ∈ words, c ∈ w) ∨ c = ' ' := by
  fun_induction joined words with
  | case1 => cases h
  | case2 w => exact .inl ⟨w, List.mem_singleton_self w, h⟩
  | case3 w w' words ih =>
    rcases List.mem_append.1 h with h | h
    · exact .inl ⟨w, List.mem_cons_self .., h⟩
    · rcases List.mem_cons.1 h with h | h
      · exact .inr h
      · exact (ih h).imp_left fun ⟨v, hv, hc⟩ => ⟨v, List.mem_cons_of_mem _ hv, hc⟩

/-- The names of types that have a conversion. -/
theorem exists_words_of_lookup {key : List Char}
    (h : (conversions.lookup (String.ofList key)).map (·.toList) = some function) :
    ∃ words ∈ typeNames, joined words = key := by
  have hall : ∀ p ∈ conversions, ∃ words ∈ typeNames, joined words = p.1.toList := by decide +kernel
  obtain ⟨name, hname, -⟩ := Option.map_eq_some_iff.1 h
  obtain ⟨words, hwords, hjoined⟩ := hall _ (mem_of_lookup hname)
  exact ⟨words, hwords, by rw [hjoined, String.toList_ofList]⟩

/-- What is squeezed to words of type names is made of letters of type names and blanks. -/
theorem blank_or_letter_of_squeeze (hletters : Lettered words) (h : squeeze (Text.trim x) = joined words)
    {c : Char} (hc : c ∈ x) : isBlank c = true ∨ isNameLetter c = true := by
  cases hblank : isBlank c with
  | true => exact .inl rfl
  | false =>
    obtain ⟨left, right, heq, hleft, hright⟩ := Text.exists_blanks x
    have hmem : c ∈ Text.trim x := by
      rw [heq, List.mem_append, List.mem_append] at hc
      rcases hc with (hc | hc) | hc
      · rw [hleft c hc] at hblank
        cases hblank
      · exact hc
      · rw [hright c hc] at hblank
        cases hblank
    have hjoined := mem_squeeze hblank hmem
    rw [h] at hjoined
    rcases mem_joined hjoined with ⟨w, hw, hcw⟩ | rfl
    · exact .inr (hletters w hw c hcw)
    · exact absurd hblank (by decide)

/-- These are none of the characters that are put in lower case by their neighbours. -/
theorem special_notMem {c : Char} (h : isBlank c = true ∨ isNameLetter c = true) :
    c ∉ ['σ', 'ς', '\u0307'] := by
  intro hmem
  have hnone : ∀ c ∈ ['σ', 'ς', '\u0307'], isBlank c = false ∧ isNameLetter c = false := by decide
  obtain ⟨hblank, hletter⟩ := hnone c hmem
  rw [hblank, hletter] at h
  exact h.elim Bool.false_ne_true Bool.false_ne_true

/-- **What has a conversion** is a spelling of a type name with blanks around it and perhaps something in
parentheses behind it. -/
theorem exists_of_conversion? (h : conversion? x = some function) : ∃ words ∈ typeNames, ∃ gap y rest,
    x = gap ++ (y ++ rest) ∧ (∀ c ∈ gap, isBlank c = true) ∧ Spelt words y ∧ Lowers y ∧
      (∀ c, (rest.dropWhile isBlank).head? = some c → c = '(') ∧
        (conversions.lookup (String.ofList (joined words))).map (·.toList) = some function := by
  obtain ⟨words, hwords, hkey⟩ := exists_words_of_lookup h
  have hletters := lettered_typeNames hwords
  unfold typeKey at hkey
  obtain ⟨size, hlower, hsize⟩ := exists_dropSize (Text.lower (Text.trim x))
  generalize hdropped : dropSize (Text.lower (Text.trim x)) = dropped at hlower hkey
  have hnamed : ∀ c ∈ dropped, isBlank c = true ∨ isNameLetter c = true := fun c =>
    blank_or_letter_of_squeeze hletters hkey.symm
  have hspecial : ∀ c ∈ dropped, c ∉ ['σ', 'ς', '\u0307'] := fun c hc => special_notMem (hnamed c hc)
  have hmark : size.head? ≠ some '\u0307' := by
    rcases hsize with rfl | ⟨inner, rfl⟩
    · exact nofun
    · exact fun heq => absurd (Option.some.inj heq) (by decide)
  obtain ⟨u, v, hsplit, rfl, hu, hv⟩ := Text.exists_lowerFrom_eq hlower hspecial hmark
  obtain ⟨gap, right, hx, hgap, hright⟩ := Text.exists_blanks x
  obtain ⟨left', right', hu', hleft', hright'⟩ := Text.exists_blanks u
  have hlowers : Lowers (Text.trim u) := by
    intro c hc
    have hmem : c ∈ u := by
      rw [hu', List.mem_append, List.mem_append]
      exact .inl (.inr hc)
    refine ⟨hu c hmem, ?_⟩
    rw [← isBlank_lowerChar]
    refine (hnamed _ (List.mem_map_of_mem hmem)).imp_right fun hletter => ?_
    simp only [isNameLetter, Bool.and_eq_true, decide_eq_true_eq] at hletter
    exact hletter.1.2
  rw [trim_map_lowerChar] at hkey
  refine ⟨words, hwords, gap ++ left', Text.trim u, right' ++ (v ++ right), ?_, ?_,
    spelt_of_squeeze (wordy_typeNames hwords).2 hletters hkey.symm, hlowers, ?_, ?_⟩
  · rw [hsplit] at hx
    conv_lhs => rw [hx, hu']
    simp only [List.append_assoc]
  · exact List.forall_mem_append.2 ⟨hgap, hleft'⟩
  · intro c hc
    rw [List.dropWhile_append_of_pos hright'] at hc
    rcases hsize with rfl | ⟨inner, rfl⟩
    · rw [lowerFrom_eq_nil hv, List.nil_append, List.dropWhile_eq_nil_iff.2 hright] at hc
      cases hc
    · obtain ⟨v', rfl⟩ := List.head?_eq_some_iff.1 (head?_of_lowerFrom_eq hv)
      rw [List.cons_append, List.dropWhile_cons_of_neg (by decide)] at hc
      exact (Option.some.inj hc).symm
  · rw [hkey, ← trim_map_lowerChar, ← hdropped]
    exact h

/-! ### Both readings -/

theorem isWord_of_breaksAfter (h : Text.breaksAfter x = true) : ∀ c, x.head? = some c → Text.isWord c = false := by
  intro c hc
  rw [Text.breaksAfter, hc] at h
  simpa using h

theorem Spelt.isBlank_head (h : Spelt words y) (hwords : Wordy words) :
    ∀ c, (y ++ z).head? = some c → isBlank c = false := by
  obtain ⟨d, rest, rfl, hd⟩ := h.isWord_head hwords
  rintro c ⟨⟩
  exact isBlank_of_isWord hd

/-- No part of a word follows where behind blanks none does. -/
theorem breaksAfter_of_next (h : ∀ c, (x.dropWhile isBlank).head? = some c → Text.isWord c = false) :
    Text.breaksAfter x = true := by
  cases x with
  | nil => rfl
  | cons c x =>
    rw [Text.breaksAfter, List.head?_cons, Option.any_some, Bool.not_eq_true']
    cases hblank : isBlank c with
    | true => exact isWord_of_isBlank hblank
    | false => exact h c (by rw [List.dropWhile_cons_of_neg (by simp [hblank])]; rfl)

/-- Of two spellings at one place that no part of a word follows, one is that of the first words of the other. -/
theorem prefix_or_of_spelt {y' z' : List Char} (h : Spelt words y) (h' : Spelt words' y')
    (hwords : Wordy words ∧ Lettered words) (hwords' : Wordy words' ∧ Lettered words')
    (heq : y ++ z = y' ++ z') (hz : Text.breaksAfter z = true) (hz' : Text.breaksAfter z' = true) :
    (words' <+: words ∧ y' <+: y) ∨ ∃ more gap x, words' = words ++ more ∧ y' = y ++ gap ++ x ∧ gap ≠ [] ∧
      (∀ c ∈ gap, isBlank c = true) ∧ Spelt more x := by
  have hword {w a : List Char} {words : List (List Char)} (hwords : Wordy (w :: words)) (h : Folds w a) :
      ∀ c ∈ a, Text.isWord c = true := h.isWord (hwords w (List.mem_cons_self ..)).2
  have hgapHead {gap rest : List Char} (hne : gap ≠ []) (hgap : ∀ c ∈ gap, isBlank c = true) :
      ∀ c, (gap ++ rest).head? = some c → Text.isWord c = false := by
    obtain ⟨d, gap, rfl⟩ := List.exists_cons_of_ne_nil hne
    rintro c ⟨⟩
    exact isWord_of_isBlank (hgap d (List.mem_cons_self ..))
  induction h generalizing words' y' with
  | @last w y h =>
    cases h' with
    | last h' =>
      obtain ⟨rfl, -⟩ := Text.eq_of_stretch (hword hwords.1 h) (hword hwords'.1 h') (isWord_of_breaksAfter hz)
        (isWord_of_breaksAfter hz') heq
      rw [eq_of_folds (hwords.2 _ (List.mem_cons_self ..)) (hwords'.2 _ (List.mem_cons_self ..)) h h']
      exact .inl ⟨List.prefix_rfl, List.prefix_rfl⟩
    | @more w' a' gap' x words' h' hne hgap hlater =>
      rw [List.append_assoc, List.append_assoc] at heq
      obtain ⟨rfl, -⟩ := Text.eq_of_stretch (hword hwords.1 h) (hword hwords'.1 h') (isWord_of_breaksAfter hz)
        (hgapHead hne hgap) heq
      rw [eq_of_folds (hwords.2 _ (List.mem_cons_self ..)) (hwords'.2 _ (List.mem_cons_self ..)) h h']
      exact .inr ⟨words', gap', x, rfl, rfl, hne, hgap, hlater⟩
  | @more w a gap z₁ words h hne hgap hlater ih =>
    rw [List.append_assoc, List.append_assoc] at heq
    cases h' with
    | last h' =>
      obtain ⟨rfl, -⟩ := Text.eq_of_stretch (hword hwords.1 h) (hword hwords'.1 h') (hgapHead hne hgap)
        (isWord_of_breaksAfter hz') heq
      rw [eq_of_folds (hwords.2 _ (List.mem_cons_self ..)) (hwords'.2 _ (List.mem_cons_self ..)) h h',
        List.append_assoc]
      exact .inl ⟨⟨words, rfl⟩, List.prefix_append ..⟩
    | @more w' a' gap' z₁' words' h' hne' hgap' hlater' =>
      rw [List.append_assoc, List.append_assoc] at heq
      obtain ⟨rfl, hrest⟩ := Text.eq_of_stretch (hword hwords.1 h) (hword hwords'.1 h') (hgapHead hne hgap)
        (hgapHead hne' hgap') heq
      have htail : Wordy words ∧ Lettered words := ⟨fun w hw => hwords.1 w (List.mem_cons_of_mem _ hw),
        fun w hw => hwords.2 w (List.mem_cons_of_mem _ hw)⟩
      have htail' : Wordy words' ∧ Lettered words' := ⟨fun w hw => hwords'.1 w (List.mem_cons_of_mem _ hw),
        fun w hw => hwords'.2 w (List.mem_cons_of_mem _ hw)⟩
      obtain ⟨rfl, hend⟩ := Text.eq_of_stretch hgap hgap' (hlater.isBlank_head htail.1)
        (hlater'.isBlank_head htail'.1) hrest
      rw [eq_of_folds (hwords.2 _ (List.mem_cons_self ..)) (hwords'.2 _ (List.mem_cons_self ..)) h h']
      rcases ih hlater' htail htail' hend with ⟨hstart, hspelt⟩ | ⟨more, gap', x, rfl, rfl, hmore⟩
      · exact .inl ⟨List.cons_prefix_cons.2 ⟨rfl, hstart⟩, (List.prefix_append_right_inj _).2 hspelt⟩
      · exact .inr ⟨more, gap', x, rfl, by simp only [List.append_assoc], hmore⟩

/-- A spelling at the start of another, not followed by a part of a word, is that of the first words. -/
theorem prefix_of_spelt {y' z' : List Char} (h : Spelt words y) (h' : Spelt words' y')
    (hwords : Wordy words ∧ Lettered words) (hwords' : Wordy words' ∧ Lettered words')
    (heq : y ++ z = y' ++ z') (hz' : Text.breaksAfter z' = true)
    (hz : ∀ c, (z.dropWhile isBlank).head? = some c → Text.isWord c = false) : words' <+: words ∧ y' <+: y := by
  refine (prefix_or_of_spelt h h' hwords hwords' heq (breaksAfter_of_next hz) hz').resolve_right ?_
  rintro ⟨more, gap, x, rfl, rfl, hne, hgap, hmore⟩
  -- a word follows, which there is none of
  obtain ⟨c, rest, rfl, hc⟩ := hmore.isWord_head fun w hw => hwords'.1 w (List.mem_append_right _ hw)
  rw [List.append_assoc, List.append_assoc, List.append_cancel_left_eq] at heq
  have hnone := hz c (by
    rw [heq, List.dropWhile_append_of_pos hgap, List.cons_append,
      List.dropWhile_cons_of_neg (by simp [isBlank_of_isWord hc])]
    rfl)
  rw [hc] at hnone
  cases hnone

/-- How a type is read behind colons: its conversion function, and what is left of the text. -/
def typeReading (type : List Char) : Option (List Char × List Char) := do
  let (name, rest) ← castType? type
  let function ← conversion? name
  some (function, rest)

theorem typeReading_eq_some : typeReading x = some (function, rest) ↔
    ∃ type, castType? x = some (type, rest) ∧ conversion? type = some function := by
  simp only [typeReading, Option.bind_eq_bind, Option.bind_eq_some_iff, Option.some.injEq, Prod.mk.injEq]
  constructor
  · rintro ⟨⟨type, rest'⟩, htype, function', hfunction, rfl, rfl⟩
    exact ⟨type, htype, hfunction⟩
  · rintro ⟨type, htype, hfunction⟩
    exact ⟨(type, rest), htype, function, hfunction, rfl, rfl⟩

/-- A name whose words are the first words of another has the same conversion. -/
theorem conversion_of_prefix (hwords : words ∈ typeNames) (hwords' : words' ∈ typeNames)
    (h : words' <+: words) : (conversions.lookup (String.ofList (joined words'))) =
      conversions.lookup (String.ofList (joined words)) := by
  have hall : ∀ ws ∈ typeNames, ∀ ws' ∈ typeNames, ws' <+: ws →
      conversions.lookup (String.ofList (joined ws')) = conversions.lookup (String.ofList (joined ws)) := by
    decide +kernel
  exact hall words hwords words' hwords' h

theorem Lowers.mono (h : Lowers y) (hx : x ⊆ y) : Lowers x := fun c hc => h c (hx hc)

/-- A spelling has the conversion of its name. -/
theorem conversion?_of_spelt (hwords : words ∈ typeNames) (h : Spelt words y) (hy : Lowers y) :
    conversion? y = (conversions.lookup (String.ofList (joined words))).map (·.toList) := by
  have hkey : typeKey ([] ++ (y ++ ([] ++ []))) = joined words :=
    typeKey_of_spelt hwords h hy (fun _ hc => nomatch hc) (.inl rfl) List.not_mem_nil fun _ hc => nomatch hc
  simp only [List.append_nil, List.nil_append] at hkey
  rw [conversion?, hkey]

/-- There is one for every type name. -/
theorem isSome_conversion?_of_spelt (hwords : words ∈ typeNames) (h : Spelt words y) (hy : Lowers y) :
    (conversion? y).isSome = true := by
  have hall : ∀ words ∈ typeNames, (conversions.lookup (String.ofList (joined words))).isSome = true := by
    decide +kernel
  rw [conversion?_of_spelt hwords h hy, Option.isSome_map]
  exact hall words hwords

/-- **What has a conversion in a `CAST` is converted behind colons**, with the same function. -/
theorem exists_typeReading (h : conversion? x = some function) :
    ∃ rest, typeReading x = some (function, rest) := by
  obtain ⟨words, hwords, gap, y, later, rfl, hgap, hspelt, hy, hparen, hfunction⟩ := exists_of_conversion? h
  have hlater : ∀ c, (later.dropWhile isBlank).head? = some c → Text.isWord c = false := fun c hc => by
    rw [hparen c hc]
    decide
  obtain ⟨⟨type, rest⟩, htype⟩ := Option.isSome_iff_exists.1 (isSome_castType? hwords hgap hspelt
    (breaksAfter_of_next hlater))
  obtain ⟨words', hwords', gap', size, heq, hgap', hspelt', -, hbreaks', -⟩ := exists_of_castType? htype
  obtain ⟨-, heq'⟩ := Text.eq_of_stretch hgap hgap' (hspelt.isBlank_head (wordy_typeNames hwords).1)
    (hspelt'.isBlank_head (wordy_typeNames hwords').1) heq
  obtain ⟨hstart, htype'⟩ := prefix_of_spelt hspelt hspelt' ⟨(wordy_typeNames hwords).1, lettered_typeNames hwords⟩
    ⟨(wordy_typeNames hwords').1, lettered_typeNames hwords'⟩ heq' hbreaks' hlater
  refine ⟨rest, typeReading_eq_some.2 ⟨type, htype, ?_⟩⟩
  rw [conversion?_of_spelt hwords' hspelt' (hy.mono htype'.subset), conversion_of_prefix hwords hwords' hstart,
    hfunction]

/-- The letters of a spelling that has a conversion have a lower case of their own. -/
theorem Spelt.lowers (h : Spelt words y) (hwords : words ∈ typeNames) (hy : conversion? y = some function) :
    Lowers y := by
  obtain ⟨-, -, gap, y', rest, rfl, hgap, -, hlowers, hparen, -⟩ := exists_of_conversion? hy
  have hblank {x : List Char} (hx : ∀ c ∈ x, isBlank c = true) : Lowers x := fun c hc =>
    ⟨ne_of_isBlank (hx c hc), .inl (hx c hc)⟩
  have hrest : ∀ c ∈ rest, isBlank c = true := by
    rw [← List.dropWhile_eq_nil_iff, List.eq_nil_iff_forall_not_mem]
    intro c hc
    obtain ⟨d, later, hlater⟩ := List.exists_cons_of_ne_nil (List.ne_nil_of_mem hc)
    have hopen : '(' ∈ rest := (List.dropWhile_suffix _).subset (by
      rw [← hparen d (by rw [hlater]; rfl), hlater]
      exact List.mem_cons_self ..)
    exact (h.isWord_or_isBlank (wordy_typeNames hwords).1 '(' (by simp [hopen])).elim
      (fun hword => absurd hword (by decide)) fun hblank => absurd hblank (by decide)
  intro c hc
  rw [List.mem_append, List.mem_append] at hc
  rcases hc with hc | hc | hc
  · exact hblank hgap c hc
  · exact hlowers c hc
  · exact hblank hrest c hc

/-- **What is read to the end behind colons has the same conversion in a `CAST`.** -/
theorem conversion?_of_typeReading (hline : '\n' ∉ x) (h : typeReading x = some (function, rest))
    (hrest : ∀ c ∈ rest, isBlank c = true) : conversion? x = some function := by
  obtain ⟨type, htype, hfunction⟩ := typeReading_eq_some.1 h
  obtain ⟨words, hwords, gap, size, rfl, hgap, hspelt, hsize, -, -⟩ := exists_of_castType? htype
  have hlowers := hspelt.lowers hwords hfunction
  rw [conversion?_of_spelt hwords hspelt hlowers] at hfunction
  rw [conversion?, typeKey_of_spelt hwords hspelt hlowers hgap hsize (by simp at hline; tauto) hrest]
  exact hfunction

end Sql
end CardTransfer
