import CardTransfer.Text.Numeral
import CardTransfer.Text.Unit
import Mathlib.Data.List.Induction
import Mathlib.Data.List.TakeWhile
import Mathlib.Data.Nat.Digits.Defs
import Mathlib.Tactic.Common

/-!
# Whole numbers read back

The decimal text of an integer is read as that integer, unless it has more digits than a whole
number may have; then it is refused (`toInt?_ofInt`, `excess?_ofInt`). Blanks and digits of other
scripts, which a numeral may hold too, play no part in it: a decimal text is its own numeral
(`numeralOf_ofInt`).
-/

namespace CardTransfer
namespace Text

/-- The digits of a number are worth the number. -/
theorem digitsValue_toDigits (n : Nat) : digitsValue (Nat.toDigits 10 n) = n := by
  have h := Nat.ofDigitChars_ten_toDigits (n := n)
  rwa [Nat.ofDigitChars_eq_foldl] at h

/-- What a row of digits is worth if another row follows. -/
theorem digitsValue_append_append (ds more : List Char) :
    digitsValue (ds ++ more) = digitsValue ds * 10 ^ more.length + digitsValue more := by
  induction more using List.reverseRecOn with
  | nil => simp [digitsValue]
  | append_singleton more c ih =>
    rw [← List.append_assoc, digitsValue_append, ih, digitsValue_append, List.length_append,
      List.length_singleton, Nat.pow_succ, ← Nat.mul_assoc]
    omega

/-- Zeros are worth nothing. -/
theorem digitsValue_zeros (n : Nat) : digitsValue (List.replicate n '0') = 0 := by
  induction n with
  | zero => rfl
  | succ n ih => rw [List.replicate_succ', digitsValue_append, ih]; rfl

/-- Zeros at the front are worth nothing. -/
theorem digitsValue_zeros_append (n : Nat) (ds : List Char) :
    digitsValue (List.replicate n '0' ++ ds) = digitsValue ds := by
  rw [digitsValue_append_append, digitsValue_zeros, Nat.zero_mul, Nat.zero_add]

/-- Zeros at the end each count ten. -/
theorem digitsValue_append_zeros (ds : List Char) (n : Nat) :
    digitsValue (ds ++ List.replicate n '0') = digitsValue ds * 10 ^ n := by
  rw [digitsValue_append_append, digitsValue_zeros, List.length_replicate, Nat.add_zero]

/-- The decimal text of a number consists of digits. -/
theorem isDigit_of_mem_toDigits {n : Nat} {c : Char} (h : c ∈ Nat.toDigits 10 n) :
    c.isDigit = true :=
  Nat.isDigit_of_mem_toDigits (by decide) (by decide) h

/-- The first digit of a number is no zero, unless the number is zero. -/
theorem head?_toDigits_ne_zero {n : Nat} (hn : 0 < n) : (Nat.toDigits 10 n).head? ≠ some '0' := by
  induction n using Nat.strongRecOn with
  | _ n ih =>
    rcases Nat.lt_or_ge n 10 with h | h
    · rw [Nat.toDigits_of_lt_base h, List.head?_cons, Ne, Option.some.injEq, Nat.digitChar_eq_zero]
      omega
    · rw [Nat.toDigits_of_base_le (by decide) h, List.head?_append]
      have hhead := ih (n / 10) (by omega) (by omega)
      cases hd : (Nat.toDigits 10 (n / 10)).head? with
      | none => exact absurd (List.head?_eq_none_iff.1 hd) Nat.toDigits_ne_nil
      | some c =>
        rw [hd] at hhead
        exact hhead

/-- The characters of the decimal text of an integer. -/
theorem toList_ofInt (n : Int) :
    (ofInt n).toList =
      (if n < 0 then ['-'] else []) ++ Nat.toDigits 10 n.natAbs := by
  unfold ofInt ofNat
  split
  · rw [String.toList_append]
    exact congrArg (_ ++ ·) String.toList_ofList
  · rw [String.toList_ofList, List.nil_append]

/-- The digits `0` – `9` by their code points. -/
theorem toNat_of_isDigit {c : Char} (h : c.isDigit = true) : 48 ≤ c.toNat ∧ c.toNat ≤ 57 := by
  simp only [Char.isDigit, Bool.and_eq_true, decide_eq_true_eq] at h
  exact ⟨h.1, h.2⟩

/-- The characters of a decimal text: the minus sign and the digits. -/
def inDecimal (c : Char) : Bool := c == '-' || c.isDigit

theorem inDecimal_of_mem_ofInt {n : Int} {c : Char} (h : c ∈ (ofInt n).toList) :
    inDecimal c = true := by
  rw [toList_ofInt, List.mem_append] at h
  rcases h with h | h
  · split at h
    · rw [List.mem_singleton] at h
      subst h
      rfl
    · cases h
  · simp [inDecimal, isDigit_of_mem_toDigits h]

/-- A character of a decimal text does not count as blank. -/
theorem isNumeralBlank_of_inDecimal {c : Char} (h : inDecimal c = true) :
    isNumeralBlank c = false := by
  have hc : c.toNat = 45 ∨ 48 ≤ c.toNat ∧ c.toNat ≤ 57 := by
    simp only [inDecimal, Bool.or_eq_true, beq_iff_eq] at h
    rcases h with rfl | h
    · exact .inl rfl
    · exact .inr (toNat_of_isDigit h)
  unfold isNumeralBlank
  rw [Bool.and_eq_false_iff]
  left
  rw [Bool.eq_false_iff]
  intro hb
  obtain ⟨s, hs, h₁, h₂⟩ := (Spans.holds_iff _ _).1 hb
  simp only [blankSpans, List.mem_cons, List.not_mem_nil, or_false] at hs
  rcases hs with rfl | rfl | rfl | rfl | rfl | rfl | rfl | rfl | rfl | rfl <;>
    simp only at h₁ h₂ <;> omega

/-- A digit `0` – `9` is worth the number that spells it. -/
theorem digitChar_of_isDigit {c : Char} (h : c.isDigit = true) :
    Nat.digitChar (c.toNat - 48) = c := by
  obtain ⟨h₁, h₂⟩ := toNat_of_isDigit h
  have hlt : c.toNat - 48 < 10 := by omega
  apply Char.toNat_inj.1
  rw [Nat.toNat_digitChar_of_lt_ten hlt]
  omega

/-- Text that holds only characters of decimal texts is its own numeral. -/
theorem numeralOf_of_inDecimal {cs : List Char} (h : ∀ c ∈ cs, inDecimal c = true) :
    numeralOf cs = cs := by
  have hdrop : ∀ ds : List Char, (∀ c ∈ ds, inDecimal c = true) →
      ds.dropWhile isNumeralBlank = ds := by
    intro ds hd
    cases ds with
    | nil => rfl
    | cons c ds =>
      exact List.dropWhile_cons_of_neg (by simp [isNumeralBlank_of_inDecimal (hd c (by simp))])
  have hinner : ((cs.dropWhile isNumeralBlank).reverse.dropWhile isNumeralBlank).reverse = cs := by
    rw [hdrop cs h, hdrop cs.reverse fun c hc => h c (List.mem_reverse.1 hc), List.reverse_reverse]
  unfold numeralOf
  rw [hinner]
  refine (List.map_congr_left fun c hc => ?_).trans (List.map_id cs)
  have hc := h c hc
  simp only [inDecimal, Bool.or_eq_true, beq_iff_eq] at hc
  rcases hc with rfl | hc
  · rfl
  · have h128 : c.toNat < 128 := by
      have := toNat_of_isDigit hc
      omega
    simp [digitValue?, h128, hc, digitChar_of_isDigit hc]

/-- The decimal text of an integer is its own numeral. -/
theorem numeralOf_ofInt (n : Int) : numeralOf (ofInt n).toList = (ofInt n).toList :=
  numeralOf_of_inDecimal fun _ hc => inDecimal_of_mem_ofInt hc

/-- A row of digits is not split at a sign. -/
theorem takeSign_of_isDigit {ds : List Char} (h : ∀ c ∈ ds, c.isDigit = true) :
    takeSign ds = (false, ds) := by
  unfold takeSign
  split
  · exact absurd (h '-' (by simp)) (by decide)
  · exact absurd (h '+' (by simp)) (by decide)
  · rfl

/-- The sign of a decimal text, and its digits. -/
theorem takeSign_ofInt (n : Int) :
    takeSign (ofInt n).toList = (decide (n < 0), Nat.toDigits 10 n.natAbs) := by
  rw [toList_ofInt]
  by_cases hn : n < 0
  · rw [if_pos hn, decide_eq_true hn]
    rfl
  · rw [if_neg hn, decide_eq_false hn, List.nil_append]
    exact takeSign_of_isDigit fun c hc => isDigit_of_mem_toDigits hc

/-- A row of digits has no underscores to take out. -/
theorem joinDigits?_of_isDigit {ds : List Char} (h : ∀ c ∈ ds, c.isDigit = true) :
    joinDigits? ds = some ds := by
  fun_induction joinDigits? ds with
  | case1 => rfl
  | case2 => exact absurd (h '_' (by simp)) (by decide)
  | case3 => rfl
  | case4 => exact absurd (h '_' (by simp)) (by decide)
  | case5 => exact absurd (h '_' (by simp)) (by decide)
  | case6 c d cs hc _ ih =>
    rw [ih fun x hx => h x (List.mem_cons_of_mem _ hx)]
    rfl

/-- How many digits an integer has. -/
def digitCount (n : Int) : Nat := (Nat.toDigits 10 n.natAbs).length

/-- **A decimal text is read as the integer that it spells**, if it does not have too many digits. -/
theorem toInt?_ofInt {n : Int} (h : digitCount n ≤ digitLimit) :
    toInt? (ofInt n).toList = some n := by
  have hd : ∀ c ∈ Nat.toDigits 10 n.natAbs, c.isDigit = true := fun c hc => isDigit_of_mem_toDigits hc
  have hall : (Nat.toDigits 10 n.natAbs).all Char.isDigit = true := List.all_eq_true.2 hd
  have hne : (Nat.toDigits 10 n.natAbs).isEmpty = false := by
    rw [List.isEmpty_eq_false_iff]
    exact Nat.toDigits_ne_nil
  have hlen : decide (digitLimit < (Nat.toDigits 10 n.natAbs).length) = false :=
    decide_eq_false (Nat.not_lt.2 h)
  unfold toInt?
  rw [numeralOf_ofInt, takeSign_ofInt]
  simp only [joinDigits?_of_isDigit hd, Option.bind_eq_bind, Option.bind_some, hne, hall, hlen, digitsValue_toDigits,
    Bool.not_true, Bool.or_self, Bool.false_eq_true, ↓reduceIte, decide_eq_true_eq]
  split <;> simp only [Option.some.injEq, Int.ofNat_eq_natCast] <;> omega

/-- A decimal text with too many digits is told by their number. -/
theorem excess?_ofInt (n : Int) :
    excess? (ofInt n).toList = if digitLimit < digitCount n then some (digitCount n) else none := by
  have hd : ∀ c ∈ Nat.toDigits 10 n.natAbs, c.isDigit = true := fun c hc => isDigit_of_mem_toDigits hc
  have htake : (Nat.toDigits 10 n.natAbs).takeWhile (fun c => c.isDigit || c == '_') =
      Nat.toDigits 10 n.natAbs :=
    List.takeWhile_eq_self_iff.2 fun c hc => by rw [hd c hc]; rfl
  have hfilter : (Nat.toDigits 10 n.natAbs).filter Char.isDigit = Nat.toDigits 10 n.natAbs :=
    List.filter_eq_self.2 hd
  unfold excess?
  simp only [numeralOf_ofInt, takeSign_ofInt, htake, hfilter]
  rfl

/-! ### Digits of every script -/

/-- A digit `0` – `9` is worth what its code point says. -/
theorem digitValue?_of_isDigit {c : Char} (h : c.isDigit = true) :
    digitValue? c = some (c.toNat - 48) := by
  have h128 : c.toNat < 128 := by
    have hbounds := toNat_of_isDigit h
    omega
  rw [digitValue?, if_pos h128, if_pos h]

theorem numberOf_toDigits (n : Nat) : numberOf (Nat.toDigits 10 n) = n := by
  have hfold (ds : List Char) (start : Nat) (hds : ∀ c ∈ ds, c.isDigit = true) :
      ds.foldl (fun n c => 10 * n + (digitValue? c).getD 0) start =
        ds.foldl (fun n c => 10 * n + (c.toNat - 48)) start := by
    induction ds generalizing start with
    | nil => rfl
    | cons c ds ih =>
      rw [List.foldl_cons, List.foldl_cons, digitValue?_of_isDigit (hds c (List.mem_cons_self ..)),
        Option.getD_some, ih _ fun d hd => hds d (List.mem_cons_of_mem _ hd)]
  have hvalue := digitsValue_toDigits n
  rw [digitsValue, ← hfold _ _ fun c hc => isDigit_of_mem_toDigits hc] at hvalue
  exact hvalue

/-! ### What a numeral is made of -/

/-- No blank and no digit lies in the last private plane. -/
theorem plain_of_halfOffset_le {c : Char} (h : halfOffset ≤ c.toNat) :
    isNumeralBlank c = false ∧ digitValue? c = none := by
  unfold halfOffset at h
  constructor
  · unfold isNumeralBlank isBlank
    rw [Bool.and_eq_false_iff]
    left
    rw [Bool.eq_false_iff]
    intro hb
    obtain ⟨s, hs, -, hle⟩ := (Spans.holds_iff _ _).1 hb
    have hmax : ∀ s ∈ blankSpans, s.2 ≤ 12288 := by decide
    have := hmax s hs
    omega
  · unfold digitValue?
    rw [if_neg (by omega), Option.map_eq_none_iff, List.find?_eq_none]
    intro z hz
    have hmax : ∀ z ∈ digitZeros, z ≤ 130032 := by decide
    have := hmax z hz
    simp only [Bool.and_eq_true, decide_eq_true_eq, not_and]
    omega

/-- What is no blank stays when the blanks in front are dropped. -/
theorem mem_dropWhile {p : Char → Bool} {cs : List Char} {c : Char} (h : c ∈ cs)
    (hc : p c = false) : c ∈ cs.dropWhile p := by
  rw [← List.takeWhile_append_dropWhile (p := p) (l := cs), List.mem_append] at h
  rcases h with h | h
  · exact absurd (List.mem_takeWhile_imp h) (by simp [hc])
  · exact h

theorem mem_numeralOf {cs : List Char} {c : Char} (h : c ∈ cs) (hb : isNumeralBlank c = false)
    (hd : digitValue? c = none) : c ∈ numeralOf cs := by
  unfold numeralOf
  refine List.mem_map.2 ⟨c, ?_, by rw [hd]⟩
  rw [List.mem_reverse]
  exact mem_dropWhile (List.mem_reverse.2 (mem_dropWhile h hb)) hb

/-- Taking the underscores out of a row of digits leaves everything else. -/
theorem mem_of_joinDigits? {cs ds : List Char} (h : joinDigits? cs = some ds) {c : Char}
    (hc : c ∈ cs) (hne : c ≠ '_') : c ∈ ds := by
  fun_induction joinDigits? cs generalizing ds with
  | case1 => cases hc
  | case2 => cases h
  | case3 =>
    cases h
    exact hc
  | case4 a d cs _ _ ih =>
    obtain ⟨es, hes, rfl⟩ := Option.map_eq_some_iff.1 h
    rcases List.mem_cons.1 hc with rfl | hc
    · exact List.mem_cons_self ..
    · rcases List.mem_cons.1 hc with rfl | hc
      · exact absurd rfl hne
      · exact List.mem_cons_of_mem _ (ih hes hc)
  | case5 => cases h
  | case6 a d cs _ _ ih =>
    obtain ⟨es, hes, rfl⟩ := Option.map_eq_some_iff.1 h
    rcases List.mem_cons.1 hc with rfl | hc
    · exact List.mem_cons_self ..
    · exact List.mem_cons_of_mem _ (ih hes hc)

/-- A text that spells an integer holds no character of the last private plane. -/
theorem toNat_lt_of_toInt? {cs : List Char} {n : Int} (h : toInt? cs = some n) {c : Char}
    (hc : c ∈ cs) : c.toNat < halfOffset := by
  rw [← Nat.not_le]
  intro hge
  obtain ⟨hb, hd⟩ := plain_of_halfOffset_le hge
  have far (d : Char) (hd : d.toNat < halfOffset) : c ≠ d := by
    rintro rfl
    omega
  have hmem := mem_numeralOf hc hb hd
  unfold toInt? at h
  have hbody : c ∈ (takeSign (numeralOf cs)).2 := by
    unfold takeSign
    split
    · rename_i heq
      rw [heq] at hmem
      exact (List.mem_cons.1 hmem).resolve_left (far _ (by decide))
    · rename_i heq
      rw [heq] at hmem
      exact (List.mem_cons.1 hmem).resolve_left (far _ (by decide))
    · exact hmem
  simp only [Option.bind_eq_bind, Option.bind_eq_some_iff] at h
  obtain ⟨ds, hds, h⟩ := h
  have hdigit := mem_of_joinDigits? hds hbody (far _ (by decide))
  split at h
  · cases h
  · rename_i hcond
    simp only [Bool.or_eq_true, Bool.not_eq_true', not_or, Bool.not_eq_false] at hcond
    have hcd := (List.all_eq_true.1 hcond.1.2) c hdigit
    have := (toNat_of_isDigit hcd).2
    unfold halfOffset at hge
    omega

end Text
end CardTransfer
