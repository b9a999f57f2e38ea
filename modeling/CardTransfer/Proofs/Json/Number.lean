import CardTransfer.Json.Parser
import CardTransfer.Json.Printer
import CardTransfer.Proofs.Decimal.Shortest

/-!
# Numbers read back

A written integer is read as the same integer, unless it has too many digits (`readScalar_ofInt`). A
written double is read as a double whatever its digits (`readScalar_writtenFloat`). In both cases
the reader stops where the number ends: what follows may not be a digit, a point or the letter of an
exponent (`Ends`).
-/

namespace CardTransfer
namespace Json

open Decimal (Whole Leading Spelling exponentText)

/-- Text with which no number goes on. -/
def Ends (rest : List Char) : Prop :=
  ∀ c ∈ rest.head?, c.isDigit = false ∧ c ≠ '.' ∧ c ≠ 'e' ∧ c ≠ 'E'

theorem ends_nil : Ends [] := fun _ h => absurd h (by simp)

variable {rest ds whole : List Char}

/-- Digits are taken up to the first character that is none. -/
theorem takeWhile_digits (hd : ∀ c ∈ ds, c.isDigit = true)
    (hr : ∀ c ∈ rest.head?, c.isDigit = false) : (ds ++ rest).takeWhile Char.isDigit = ds := by
  rw [List.takeWhile_append_of_pos hd]
  cases rest with
  | nil => exact List.append_nil ds
  | cons c rest =>
    rw [List.takeWhile_cons_of_neg (by simp [hr c rfl]), List.append_nil]

/-- The whole part of a number is taken whole. -/
theorem wholeDigits_append (hw : Whole whole) (hr : ∀ c ∈ rest.head?, c.isDigit = false) :
    wholeDigits (whole ++ rest) = whole := by
  rcases hw with rfl | hw
  · rfl
  · obtain ⟨d, tail, rfl⟩ := List.exists_cons_of_ne_nil hw.ne_nil
    have hd : d ≠ '0' := by
      rintro rfl
      exact hw.ne_zero rfl
    unfold wholeDigits
    split
    · rename_i heq
      rw [List.cons_append, List.cons.injEq] at heq
      exact absurd heq.1 hd
    · exact takeWhile_digits hw.digits hr

theorem whole_ne_nil (hw : Whole whole) : whole ≠ [] := by
  rcases hw with rfl | hw
  · exact List.cons_ne_nil _ _
  · exact hw.ne_nil

theorem whole_digits (hw : Whole whole) : ∀ c ∈ whole, c.isDigit = true := by
  rcases hw with rfl | hw
  · exact List.all_eq_true.1 (by decide)
  · exact hw.digits

/-- An exponent is read from its text. -/
theorem exponentPart_exponentText (width : Nat) (p : Int) (hr : ∀ c ∈ rest.head?, c.isDigit = false) :
    exponentPart ((exponentText width p).toList ++ rest) =
      some (p, (exponentText width p).toList.length) := by
  let padded := List.replicate (width - (Nat.toDigits 10 p.natAbs).length) '0'
    ++ Nat.toDigits 10 p.natAbs
  have hd : ∀ c ∈ padded, c.isDigit = true := by
    intro c hc
    rcases List.mem_append.1 hc with hc | hc
    · rw [(List.mem_replicate.1 hc).2]
      rfl
    · exact Text.isDigit_of_mem_toDigits hc
  have hne : padded.isEmpty = false := by
    rw [List.isEmpty_eq_false_iff]
    exact List.append_ne_nil_of_right_ne_nil _ Nat.toDigits_ne_nil
  have hvalue : Text.digitsValue padded = p.natAbs := by
    rw [Text.digitsValue_zeros_append, Text.digitsValue_toDigits]
  have htext : (exponentText width p).toList = 'e' :: (if p < 0 then '-' else '+') :: padded := by
    unfold exponentText
    simp only [String.toList_append, String.toList_ofList]
    split <;> rfl
  have hsign : Text.takeSign ((if p < 0 then '-' else '+') :: (padded ++ rest)) =
      (decide (p < 0), padded ++ rest) := by
    split
    · rw [decide_eq_true ‹_›]
      rfl
    · rw [decide_eq_false ‹_›]
      rfl
  rw [htext]
  simp only [List.cons_append, exponentPart, beq_self_eq_true, Bool.true_or, ↓reduceIte, hsign,
    takeWhile_digits hd hr, hne, Bool.false_eq_true, decide_eq_true_eq, Option.some.injEq,
    Prod.mk.injEq, List.length_cons, List.length_append, hvalue, Int.ofNat_eq_natCast]
  constructor
  · split <;> omega
  · omega

/-- A text with which no number goes on starts with no exponent. -/
theorem exponentPart_of_ends (h : Ends rest) : exponentPart rest = none := by
  cases rest with
  | nil => rfl
  | cons c rest =>
    obtain ⟨-, -, he, hE⟩ := h c rfl
    unfold exponentPart
    simp only [beq_eq_false_iff_ne.2 he, beq_eq_false_iff_ne.2 hE, Bool.or_self, Bool.false_eq_true,
      ↓reduceIte]

/-- A text with which no number goes on starts with no fraction. -/
theorem fractionDigits_of_ne_point (h : ∀ c ∈ rest.head?, c ≠ '.') : fractionDigits rest = [] := by
  unfold fractionDigits
  split
  · exact absurd rfl (h '.' rfl)
  · rfl

/-- The exponent of a number starts with a letter. -/
theorem head?_exponentText (width : Nat) (p : Int) (rest : List Char) :
    ((exponentText width p).toList ++ rest).head? = some 'e' := by
  unfold exponentText
  simp only [String.toList_append, String.toList_ofList]
  split <;> rfl

/-- A whole number is read from its digits. -/
theorem readNumber_whole (negative : Bool) (hw : Whole whole) (hr : Ends rest) :
    readNumber negative (whole ++ rest) =
      if Text.digitLimit < whole.length then .error (.tooLong whole.length)
      else .ok (int (if negative then -Int.ofNat (Text.digitsValue whole)
        else Int.ofNat (Text.digitsValue whole)), rest) := by
  have hempty : whole.isEmpty = false := List.isEmpty_eq_false_iff.2 (whole_ne_nil hw)
  unfold readNumber
  simp only [wholeDigits_append hw fun c hc => (hr c hc).1, hempty, Bool.false_eq_true, ↓reduceIte,
    List.drop_left, fractionDigits_of_ne_point fun c hc => (hr c hc).2.1, List.isEmpty_nil,
    exponentPart_of_ends hr]

/-- A double is read from a whole part and a fraction. -/
theorem readNumber_fraction (negative : Bool) (hw : Whole whole)
    (hd : ∀ c ∈ ds, c.isDigit = true) (hne : ds ≠ []) (hr : Ends rest) :
    readNumber negative (whole ++ '.' :: ds ++ rest) = .ok (float (Decimal.nearest negative
      (Text.digitsValue (whole ++ ds)) (-Int.ofNat ds.length)), rest) := by
  have hempty : whole.isEmpty = false := List.isEmpty_eq_false_iff.2 (whole_ne_nil hw)
  have hds : ds.isEmpty = false := List.isEmpty_eq_false_iff.2 hne
  have hwhole : wholeDigits (whole ++ '.' :: (ds ++ rest)) = whole :=
    wholeDigits_append hw fun c hc => by
      cases hc
      rfl
  have hfrac : fractionDigits ('.' :: (ds ++ rest)) = ds :=
    takeWhile_digits hd fun c hc => (hr c hc).1
  unfold readNumber
  rw [List.append_assoc, List.cons_append]
  simp only [hwhole, hempty, hds, hfrac, Bool.false_eq_true, ↓reduceIte, List.drop_left,
    List.drop_succ_cons, exponentPart_of_ends hr]

/-- A double is read from a whole part and an exponent. -/
theorem readNumber_power (negative : Bool) (hw : Whole whole) (width : Nat) (p : Int)
    (hr : Ends rest) :
    readNumber negative (whole ++ (exponentText width p).toList ++ rest) =
      .ok (float (Decimal.nearest negative (Text.digitsValue whole) p), rest) := by
  have hempty : whole.isEmpty = false := List.isEmpty_eq_false_iff.2 (whole_ne_nil hw)
  have hhead := head?_exponentText width p rest
  have hwhole : wholeDigits (whole ++ ((exponentText width p).toList ++ rest)) = whole :=
    wholeDigits_append hw fun c hc => by
      rw [hhead] at hc
      cases hc
      rfl
  have hfrac : fractionDigits ((exponentText width p).toList ++ rest) = [] :=
    fractionDigits_of_ne_point fun c hc => by
      rw [hhead] at hc
      cases hc
      decide
  have hp : p - Int.ofNat 0 = p := Int.sub_zero p
  unfold readNumber
  rw [List.append_assoc]
  simp only [hwhole, hempty, hfrac, Bool.false_eq_true, ↓reduceIte, List.drop_left,
    List.isEmpty_nil, List.length_nil, List.append_nil, hp,
    exponentPart_exponentText width p fun c hc => (hr c hc).1]

/-- A double is read from a whole part, a fraction and an exponent. -/
theorem readNumber_both (negative : Bool) (hw : Whole whole) (hd : ∀ c ∈ ds, c.isDigit = true)
    (hne : ds ≠ []) (width : Nat) (p : Int) (hr : Ends rest) :
    readNumber negative (whole ++ '.' :: ds ++ (exponentText width p).toList ++ rest) =
      .ok (float (Decimal.nearest negative (Text.digitsValue (whole ++ ds))
        (p - Int.ofNat ds.length)), rest) := by
  have hempty : whole.isEmpty = false := List.isEmpty_eq_false_iff.2 (whole_ne_nil hw)
  have hds : ds.isEmpty = false := List.isEmpty_eq_false_iff.2 hne
  have hhead := head?_exponentText width p rest
  have hwhole :
      wholeDigits (whole ++ '.' :: (ds ++ ((exponentText width p).toList ++ rest))) = whole :=
    wholeDigits_append hw fun c hc => by
      cases hc
      rfl
  have hfrac : fractionDigits ('.' :: (ds ++ ((exponentText width p).toList ++ rest))) = ds :=
    takeWhile_digits hd fun c hc => by
      rw [hhead] at hc
      cases hc
      rfl
  unfold readNumber
  rw [List.append_assoc, List.append_assoc, List.cons_append]
  simp only [hwhole, hempty, hds, hfrac, Bool.false_eq_true, ↓reduceIte, List.drop_left,
    List.drop_succ_cons, exponentPart_exponentText width p fun c hc => (hr c hc).1]

/-- A double is read from its spelling. -/
theorem readNumber_spelling (negative : Bool) {text : List Char} (h : Spelling text) :
    ∃ x, ∀ rest, Ends rest → readNumber negative (text ++ rest) = .ok (float x, rest) := by
  cases h with
  | fraction hw hd hne => exact ⟨_, fun _ hr => readNumber_fraction negative hw hd hne hr⟩
  | power hw width p => exact ⟨_, fun _ hr => readNumber_power negative hw width p hr⟩
  | both hw hd hne width p => exact ⟨_, fun _ hr => readNumber_both negative hw hd hne width p hr⟩

/-- The word that starts a text, if one does. -/
def word? (cs : List Char) : Option (Json × List Char) :=
  wordValues.findSome? fun p => (afterWord? p.1 cs).map fun rest => (p.2, rest)

theorem afterWord?_eq_none {word : String} {cs : List Char}
    (h : word.toList.isPrefixOf cs = false) : afterWord? word cs = none := by
  unfold afterWord?
  rw [h]
  rfl

/-- A text that starts with no word has no value by one. -/
theorem word?_eq_none {cs : List Char}
    (h : ∀ p ∈ wordValues, p.1.toList.isPrefixOf cs = false) : word? cs = none := by
  unfold word?
  rw [List.findSome?_eq_none_iff]
  intro p hp
  rw [afterWord?_eq_none (h p hp)]
  rfl

/-- A text that starts with a digit starts with no word. -/
theorem readScalar_of_isDigit {d : Char} (hd : d.isDigit = true) (cs : List Char) :
    readScalar (d :: cs) = readNumber false (d :: cs) := by
  have hne (c : Char) (hc : c.isDigit = false) : (c == d) = false := by
    rw [beq_eq_false_iff_ne]
    rintro rfl
    exact absurd (hd.symm.trans hc) (by decide)
  have hword : word? (d :: cs) = none := by
    refine word?_eq_none fun p hp => ?_
    simp only [wordValues, List.mem_cons, List.not_mem_nil, or_false] at hp
    rcases hp with rfl | rfl | rfl | rfl | rfl | rfl <;>
      exact Bool.and_eq_false_iff.2 (.inl (hne _ rfl))
  unfold word? at hword
  unfold readScalar
  rw [hword]
  simp only
  split
  · rename_i heq
    rw [List.cons.injEq] at heq
    rw [heq.1] at hd
    exact absurd hd (by decide)
  · rfl

/-- After a minus sign and a digit a number is read. -/
theorem readScalar_of_minus {d : Char} (hd : d.isDigit = true) (cs : List Char) :
    readScalar ('-' :: d :: cs) = match readNumber true (d :: cs) with
      | .error (.unexpected expected _) => .error (.unexpected expected ('-' :: d :: cs))
      | r => r := by
  have hword : word? ('-' :: d :: cs) = none := by
    refine word?_eq_none fun p hp => ?_
    simp only [wordValues, List.mem_cons, List.not_mem_nil, or_false] at hp
    rcases hp with rfl | rfl | rfl | rfl | rfl | rfl
    · rfl
    · rfl
    · rfl
    · rfl
    · rfl
    · have hI : ('I' == d) = false := by
        rw [beq_eq_false_iff_ne]
        intro h
        rw [← h] at hd
        exact Bool.false_ne_true hd
      exact Bool.and_eq_false_iff.2 (.inr (Bool.and_eq_false_iff.2 (.inl hI)))
  unfold word? at hword
  unfold readScalar
  rw [hword]
  rfl

/-- The digits of an integer are the whole part of a number. -/
theorem whole_toDigits (n : Nat) : Whole (Nat.toDigits 10 n) := by
  rcases Nat.eq_zero_or_pos n with rfl | hn
  · exact .inl rfl
  · exact .inr ⟨fun _ hc => Text.isDigit_of_mem_toDigits hc, Nat.toDigits_ne_nil,
      Text.head?_toDigits_ne_zero hn⟩

/-- **A written integer is read back**, unless it has too many digits. -/
theorem readScalar_ofInt (n : Int) (hr : Ends rest) :
    readScalar ((Text.ofInt n).toList ++ rest) =
      if Text.digitLimit < Text.digitCount n then .error (.tooLong (Text.digitCount n))
      else .ok (int n, rest) := by
  have hw := whole_toDigits n.natAbs
  obtain ⟨d, tail, hds⟩ := List.exists_cons_of_ne_nil (whole_ne_nil hw)
  have hd : d.isDigit = true := by
    refine whole_digits hw d ?_
    rw [hds]
    exact List.mem_cons_self ..
  have hread (negative : Bool) := readNumber_whole negative hw hr
  rw [Text.digitsValue_toDigits] at hread
  rw [hds, List.cons_append] at hread
  rw [Text.toList_ofInt, hds]
  unfold Text.digitCount
  rw [hds]
  by_cases hn : n < 0
  · have hval : -Int.ofNat n.natAbs = n := by
      rw [Int.ofNat_eq_natCast]
      omega
    rw [if_pos hn, List.singleton_append, List.cons_append, List.cons_append,
      readScalar_of_minus hd, hread true, if_pos rfl, hval]
    by_cases hlen : Text.digitLimit < (d :: tail).length
    · rw [if_pos hlen]
    · rw [if_neg hlen]
  · have hval : Int.ofNat n.natAbs = n := by
      rw [Int.ofNat_eq_natCast]
      omega
    rw [if_neg hn, List.nil_append, List.cons_append, readScalar_of_isDigit hd, hread false, hval]
    rfl

/-- A spelling starts with a digit. -/
theorem exists_cons_of_spelling {text : List Char} (h : Spelling text) :
    ∃ d tail, text = d :: tail ∧ d.isDigit = true := by
  have start {whole : List Char} (hw : Whole whole) (more : List Char) :
      ∃ d tail, whole ++ more = d :: tail ∧ d.isDigit = true := by
    obtain ⟨d, tail, rfl⟩ := List.exists_cons_of_ne_nil (whole_ne_nil hw)
    exact ⟨d, tail ++ more, rfl, whole_digits hw d (List.mem_cons_self ..)⟩
  cases h with
  | fraction hw => exact start hw _
  | power hw => exact start hw _
  | both hw =>
    rw [List.append_assoc]
    exact start hw _

/-- **A written double is read as a double.** -/
theorem readScalar_writtenFloat (x : Float) : ∃ y, ∀ rest, Ends rest →
    readScalar ((writtenFloat.write x).toList ++ rest) = .ok (float y, rest) := by
  rcases Decimal.write_spec (l := writtenFloat) rfl x with h | h | h | ⟨text, ht, h⟩
  · rw [h]
    exact ⟨_, fun _ _ => rfl⟩
  · rw [h]
    exact ⟨_, fun _ _ => rfl⟩
  · rw [h]
    exact ⟨_, fun _ _ => rfl⟩
  · obtain ⟨d, tail, rfl, hd⟩ := exists_cons_of_spelling ht
    rcases h with h | h
    · obtain ⟨y, hy⟩ := readNumber_spelling false ht
      refine ⟨y, fun rest hr => ?_⟩
      rw [h, List.cons_append, readScalar_of_isDigit hd]
      exact hy rest hr
    · obtain ⟨y, hy⟩ := readNumber_spelling true ht
      refine ⟨y, fun rest hr => ?_⟩
      have hread := hy rest hr
      rw [List.cons_append] at hread
      rw [h, List.cons_append, List.cons_append, readScalar_of_minus hd, hread]

end Json
end CardTransfer
