import CardTransfer.Decimal.Shortest
import CardTransfer.Proofs.Text.Numeral
import Mathlib.Tactic.Common

/-!
# The shape of written doubles

The text of a finite double is a sign and a `Spelling`: a whole part without leading zeros, a
fraction, and an exponent with its sign. A double other than zero has a first digit other than zero,
because the decimals from which the shortest is chosen are not zero (`digits_shortestOf`).
-/

namespace CardTransfer
namespace Decimal

/-! ### Digits -/

/-- A candidate is not zero where the interval does not reach down to zero. -/
theorem digits_candidate {num den low high : Nat} {closed : Bool} {k : Int} {n : Nat} {s : Scaled}
    (hlow : 0 < low) (h : candidate num den low high closed k n = some s) : 0 < s.digits := by
  have hup : 0 < (if k - Int.ofNat n ≥ 0 then 1 else 10 ^ (-(k - Int.ofNat n)).toNat : Nat) := by
    split
    · exact Nat.one_pos
    · exact Nat.pow_pos (by decide)
  unfold candidate at h
  simp only at h
  generalize (if k - Int.ofNat n ≥ 0 then 1 else 10 ^ (-(k - Int.ofNat n)).toNat : Nat) = up at h hup
  generalize (if k - Int.ofNat n ≥ 0 then den * 10 ^ (k - Int.ofNat n).toNat else den) = unit at h
  -- zero lies below the interval
  have hzero : ¬((if closed = true then
      decide (low * up ≤ 0 * unit) && decide (0 * unit ≤ high * up)
      else decide (low * up < 0 * unit) && decide (0 * unit < high * up)) = true) := by
    have hpos : 0 < low * up := Nat.mul_pos hlow hup
    rw [Nat.zero_mul]
    split
    · simp only [Bool.and_eq_true, decide_eq_true_eq]
      omega
    · simp only [Bool.and_eq_true, decide_eq_true_eq]
      omega
  rcases Nat.eq_zero_or_pos (num * up / unit) with hd | hd
  · rw [hd] at h
    split at h
    · contradiction
    · contradiction
    · cases h
      exact Nat.succ_pos _
    · cases h
  · split at h
    · split at h
      · cases h
        exact hd
      · cases h
        exact Nat.succ_pos _
    · cases h
      exact hd
    · cases h
      exact Nat.succ_pos _
    · cases h

/-- The shortest decimal for a number other than zero is not zero. -/
theorem digits_shortestOf {m : Nat} (hm : 0 < m) (e : Int) : 0 < (shortestOf m e).digits := by
  unfold shortestOf
  simp only
  split
  · rename_i s h
    obtain ⟨n, -, hn⟩ := List.exists_of_findSome?_eq_some h
    refine digits_candidate ?_ hn
    refine Nat.mul_pos ?_ ?_
    · split <;> omega
    · split
      · exact Nat.pow_pos (by decide)
      · exact Nat.one_pos
  · exact hm

/-- A row of digits that does not start with a zero. -/
structure Leading (ds : List Char) : Prop where
  digits : ∀ c ∈ ds, c.isDigit = true
  ne_nil : ds ≠ []
  ne_zero : ds.head? ≠ some '0'

namespace Leading

variable {ds : List Char}

/-- More digits may follow. -/
theorem append (h : Leading ds) {more : List Char} (hm : ∀ c ∈ more, c.isDigit = true) :
    Leading (ds ++ more) := by
  obtain ⟨d, ds, rfl⟩ := List.exists_cons_of_ne_nil h.ne_nil
  refine ⟨fun c hc => ?_, by simp, h.ne_zero⟩
  rcases List.mem_append.1 hc with hc | hc
  · exact h.digits c hc
  · exact hm c hc

/-- Digits from the first on start with no zero either. -/
theorem take (h : Leading ds) {n : Nat} (hn : 0 < n) : Leading (ds.take n) := by
  obtain ⟨d, ds, rfl⟩ := List.exists_cons_of_ne_nil h.ne_nil
  obtain ⟨n, rfl⟩ := Nat.exists_eq_succ_of_ne_zero (Nat.ne_of_gt hn)
  exact ⟨fun c hc => h.digits c (List.mem_of_mem_take hc), by simp, h.ne_zero⟩

/-- Zeros at the end may be left out. -/
theorem dropZeros (h : Leading ds) : Leading (ds.reverse.dropWhile (· == '0')).reverse := by
  obtain ⟨d, tail, rfl⟩ := List.exists_cons_of_ne_nil h.ne_nil
  have hd : (d == '0') = false := by
    rw [beq_eq_false_iff_ne]
    intro hd
    exact h.ne_zero (by rw [List.head?_cons, hd])
  -- the first digit is no zero, so it is not dropped
  have hkept : ((d :: tail).reverse.dropWhile (· == '0')).reverse =
      d :: (tail.reverse.dropWhile (· == '0')).reverse := by
    rw [List.reverse_cons, List.dropWhile_append]
    split
    · rename_i hall
      rw [List.isEmpty_iff] at hall
      rw [hall, List.dropWhile_cons_of_neg (by simp [hd])]
      rfl
    · rw [List.reverse_append]
      rfl
  rw [hkept]
  refine ⟨fun c hc => ?_, by simp, h.ne_zero⟩
  rcases List.mem_cons.1 hc with rfl | hc
  · exact h.digits c (List.mem_cons_self ..)
  · refine h.digits c (List.mem_cons_of_mem _ ?_)
    have := (List.dropWhile_sublist _).subset (List.mem_reverse.1 hc)
    exact List.mem_reverse.1 this

end Leading

/-- The digits of a decimal other than zero start with no zero. -/
theorem leading_normal {s : Scaled} (h : 0 < s.digits) : Leading s.normal.1 := by
  refine Leading.dropZeros ⟨fun c hc => Text.isDigit_of_mem_toDigits hc, Nat.toDigits_ne_nil, ?_⟩
  exact Text.head?_toDigits_ne_zero h

/-! ### Texts -/

/-- The whole part of a number: a zero, or digits that start with no zero. -/
def Whole (ds : List Char) : Prop := ds = ['0'] ∨ Leading ds

/-- Texts that spell a double, but for its sign: a whole part with a fraction, an exponent, or both. -/
inductive Spelling : List Char → Prop where
  | fraction {whole ds : List Char} (hw : Whole whole) (digits : ∀ c ∈ ds, c.isDigit = true)
    (ne_nil : ds ≠ []) : Spelling (whole ++ '.' :: ds)
  | power {whole : List Char} (hw : Whole whole) (width : Nat) (p : Int) :
    Spelling (whole ++ (exponentText width p).toList)
  | both {whole ds : List Char} (hw : Whole whole) (digits : ∀ c ∈ ds, c.isDigit = true)
    (ne_nil : ds ≠ []) (width : Nat) (p : Int) :
    Spelling (whole ++ '.' :: ds ++ (exponentText width p).toList)

/-- Digits are set out as the text of a double, where whole numbers end with a fraction. -/
theorem spelling_place {l : Layout} (hmark : l.wholeMark = ".0") {ds : List Char} (h : Leading ds)
    (p : Int) : Spelling (l.place ds p).toList := by
  have zeros (n : Nat) : ∀ c ∈ List.replicate n '0', c.isDigit = true := by
    intro c hc
    rw [(List.mem_replicate.1 hc).2]
    rfl
  have later (n : Nat) : ∀ c ∈ ds.drop n, c.isDigit = true :=
    fun c hc => h.digits c (List.mem_of_mem_drop hc)
  unfold Layout.place
  split
  · split
    · simp only [String.toList_append, String.toList_ofList]
      show Spelling (['0'] ++ '.' :: (List.replicate (-p - 1).toNat '0' ++ ds))
      refine .fraction (.inl rfl) (fun c hc => ?_) ?_
      · rcases List.mem_append.1 hc with hc | hc
        · exact zeros _ c hc
        · exact h.digits c hc
      · exact List.append_ne_nil_of_right_ne_nil _ h.ne_nil
    · simp only
      split
      · rw [hmark, String.toList_append, String.toList_ofList]
        have hzero : ∀ c ∈ ['0'], c.isDigit = true := List.all_eq_true.1 (by decide)
        exact .fraction (.inr (h.append (zeros _))) hzero (List.cons_ne_nil _ _)
      · rename_i hlen
        simp only [String.toList_append, String.toList_ofList, List.append_assoc]
        show Spelling (ds.take (p.toNat + 1) ++ '.' :: ds.drop (p.toNat + 1))
        refine .fraction (.inr (h.take (Nat.succ_pos _))) (later _) ?_
        rw [Ne, List.drop_eq_nil_iff]
        exact hlen
  · simp only
    split
    · rw [String.append_empty, String.toList_append, String.toList_ofList]
      exact .power (.inr (h.take Nat.one_pos)) _ _
    · rename_i htail
      rw [List.isEmpty_iff] at htail
      simp only [String.toList_append, String.toList_ofList]
      exact .both (.inr (h.take Nat.one_pos)) (later 1) htail _ _

/-- The text of a double: a name, or a sign and a spelling. -/
theorem write_spec {l : Layout} (hmark : l.wholeMark = ".0") (x : Float) :
    l.write x = l.notANumber ∨ l.write x = l.infinite ∨ l.write x = "-" ++ l.infinite ∨
      ∃ text, Spelling text ∧ ((l.write x).toList = text ∨ (l.write x).toList = '-' :: text) := by
  unfold Layout.write
  split
  · exact .inl rfl
  · rename_i negative _
    cases negative
    · exact .inr (.inl (String.empty_append ..))
    · exact .inr (.inr (.inl rfl))
  · rename_i negative m e _
    refine .inr (.inr (.inr ?_))
    have signed {t : String} (ht : Spelling t.toList) : ∃ text, Spelling text ∧
        (((if negative = true then "-" else "") ++ t).toList = text ∨
          ((if negative = true then "-" else "") ++ t).toList = '-' :: text) := by
      refine ⟨t.toList, ht, ?_⟩
      cases negative
      · exact .inl (congrArg String.toList (String.empty_append ..))
      · exact .inr (String.toList_append ..)
    simp only
    split
    · rw [String.append_assoc, hmark]
      have hzero : Spelling (['0'] ++ '.' :: ['0']) :=
        .fraction (.inl rfl) (List.all_eq_true.1 (by decide)) (List.cons_ne_nil _ _)
      exact signed hzero
    · rename_i hm
      refine signed (spelling_place hmark (leading_normal (digits_shortestOf ?_ e)) _)
      rw [beq_iff_eq] at hm
      omega

end Decimal
end CardTransfer
