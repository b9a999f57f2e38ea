import CardTransfer.Proofs.Decimal.Rounding
import Mathlib.Data.Nat.Digits.Defs
import Mathlib.Tactic.Ring

/-!
# The nearest double to a decimal

`Decimal.nearest` is the double in whose interval a decimal lies (`nearest_eq`). The runtime gets there
in two ways, and each rounds only once.

* Where the digits make up a number below `2 ^ 53` and the power of ten is one of those in the table,
  both are doubles (`toFloat_eq`, `power_eq`), and the product or quotient of two doubles is the exact
  one, rounded (`ofParts_mul`, `ofParts_div`).
* Otherwise the digits are scaled as whole numbers, with a division whose remainder says what was cut
  off (`model_ofScientific_eq`).

Decimals with very many digits or very large exponents are settled before either; none of them is near
a double that is neither zero nor infinite (`near_bounds`, `digits_bounds`).
-/

namespace CardTransfer
namespace Decimal

open Float.Model Float.Model.UnpackedFloat

theorem ten_zpow_pos (e : Int) : (0 : ℚ) < 10 ^ e := zpow_pos (by norm_num) e

/-- A double is near itself. -/
theorem near_self (m : Nat) (e : Int) : Near m e (m * 2 ^ e) := by
  have hpos := two_zpow_pos e
  have hreach := reach_pos m e
  have low : (m - reach m e) * (2 : ℚ) ^ e < m * 2 ^ e :=
    mul_lt_mul_of_pos_right (by linarith) hpos
  have high : (m : ℚ) * 2 ^ e < (m + 1 / 2) * 2 ^ e :=
    mul_lt_mul_of_pos_right (by linarith) hpos
  exact ⟨low.le, high.le, fun _ => ⟨low, high⟩⟩

/-! ### Whole numbers -/

/-- The 53 highest bits of a number. -/
def top (n : Nat) : Nat := n * 2 ^ 52 / 2 ^ n.log2

theorem two_pow_le_top {n : Nat} (pos : 0 < n) : 2 ^ 52 ≤ top n := by
  rw [top, Nat.le_div_iff_mul_le (by positivity), Nat.mul_comm]
  exact Nat.mul_le_mul_right _ (Nat.log2_self_le (Nat.ne_of_gt pos))

theorem canonical_top {n : Nat} (pos : 0 < n) (h : n.log2 ≤ 1023) :
    Canonical (top n) (n.log2 - 52) := by
  have hlow := two_pow_le_top pos
  have hhigh : top n < 2 ^ 53 := by
    have := Nat.lt_log2_self (n := n)
    rw [Nat.pow_succ] at this
    rw [top, Nat.div_lt_iff_lt_mul (by positivity)]
    omega
  exact ⟨by omega, hhigh, by omega, by omega, .inl hlow⟩

/-- The highest bits of a number are enough digits. -/
theorem le_log2_top {n : Nat} (pos : 0 < n) : 52 ≤ (top n).log2 := by
  have hlow := two_pow_le_top pos
  exact (Nat.le_log2 (by omega)).2 hlow

/-- A number whose bits all fit is what its highest bits stand for. -/
theorem top_value {n : Nat} (h : top n * 2 ^ n.log2 = n * 2 ^ 52) :
    (top n : ℚ) * 2 ^ ((n.log2 : Int) - 52) = n := by
  have hq : (top n : ℚ) * 2 ^ n.log2 = n * 2 ^ 52 := by exact_mod_cast h
  rw [zpow_sub₀ (by norm_num), zpow_natCast, ← mul_div_assoc, hq]
  exact mul_div_cancel_right₀ _ (by positivity)

theorem log2_le {n : Nat} (pos : 0 < n) (h : n < 2 ^ 53) : n.log2 ≤ 52 := by
  have := (Nat.log2_lt (Nat.ne_of_gt pos)).2 h
  omega

/-- Below `2 ^ 53` all bits fit. -/
theorem top_eq_shift {n : Nat} (pos : 0 < n) (h : n < 2 ^ 53) : top n = n * 2 ^ (52 - n.log2) := by
  have hlog := log2_le pos h
  rw [top, Nat.mul_div_assoc _ (Nat.pow_dvd_pow 2 hlog), Nat.pow_div hlog (by decide)]

theorem top_fits {n : Nat} (pos : 0 < n) (h : n < 2 ^ 53) : top n * 2 ^ n.log2 = n * 2 ^ 52 := by
  have hlog := log2_le pos h
  rw [top_eq_shift pos h, Nat.mul_assoc, ← Nat.pow_add, Nat.sub_add_cancel hlog]

/-- A whole number below `2 ^ 53` is a double. -/
theorem toFloat_eq {n : Nat} (pos : 0 < n) (h : n < 2 ^ 53) :
    ∃ hc : Canonical (top n) (n.log2 - 52), n.toUInt64.toFloat = ofParts false hc := by
  have hlog := log2_le pos h
  have hc := canonical_top pos (by omega)
  have hshift : (0 - Format.binary64.targetExponent (totalExponent n 0)).toNat = 52 - n.log2 := by
    rw [targetExponent_eq]
    omega
  have hexponent : (0 : Int) - (52 - n.log2 : Nat) = n.log2 - 52 := by omega
  have hround : UnpackedFloat.round Format.binary64 .positive n 0 =
      .finite .positive (top n) (n.log2 - 52) hc.pos := by
    unfold UnpackedFloat.round decreaseExponent
    dsimp only
    rw [hshift, Nat.shiftLeft_eq, ← top_eq_shift pos h, hexponent]
    have hmeant : Meant (top n) .exact (top n) := rfl
    exact roundWithAccuracy_eq hmeant (.inl (le_log2_top pos)) hc (near_self _ _)
  have hsame : n.toUInt64.toNat = n := Nat.mod_eq_of_lt (by omega)
  have hcmp : compare (n : Int) 0 = .gt := Int.compare_eq_gt.2 (by omega)
  refine ⟨hc, ?_⟩
  show Float.ofModel (Float.Model.pack (UnpackedFloat.ofInt Format.binary64 n.toUInt64.toNat)) = _
  rw [hsame]
  unfold UnpackedFloat.ofInt UnpackedFloat.normalize
  rw [hcmp]
  dsimp only
  rw [Int.toNat_natCast, hround]
  rfl

/-- The powers of ten up to `10 ^ 22` are doubles, and the table holds them. -/
theorem power_eq {k : Nat} (hk : k < Float.exactlyRepresentablePowersOfTen.size) :
    ∃ hc : Canonical (top (10 ^ k)) ((10 ^ k).log2 - 52),
      Float.exactlyRepresentablePowersOfTen[k] = ofParts false hc ∧
        top (10 ^ k) * 2 ^ (10 ^ k).log2 = 10 ^ k * 2 ^ 52 := by
  have table : ∀ i : Fin 23, (10 ^ i.val).log2 ≤ 1023 ∧
      top (10 ^ i.val) * 2 ^ (10 ^ i.val).log2 = 10 ^ i.val * 2 ^ 52 ∧
      (Float.exactlyRepresentablePowersOfTen.getInternal i.val i.isLt).toBits.toNat =
        fieldOf (top (10 ^ i.val)) ((10 ^ i.val).log2 - 52) * 2 ^ 52 +
          top (10 ^ i.val) % 2 ^ 52 := by
    decide +kernel
  obtain ⟨hlog, hfits, hbits⟩ := table ⟨k, hk⟩
  refine ⟨canonical_top (by positivity) hlog, eq_of_toBits ?_, hfits⟩
  rw [toBits_ofParts, Bool.toNat_false, Nat.zero_mul, Nat.zero_add]
  exact hbits

/-! ### Products and quotients -/

variable {m₁ m₂ m : Nat} {e₁ e₂ e : Int} {s₁ s₂ : Sign}

/-- A product is rounded once. -/
theorem mul_eq (h₁ : 0 < m₁) (h₂ : 0 < m₂) (enough : 52 ≤ m₁.log2 ∨ 52 ≤ m₂.log2) (hc : Canonical m e)
    (hn : Near m e (m₁ * 2 ^ e₁ * (m₂ * 2 ^ e₂))) :
    UnpackedFloat.mul Format.binary64 (.finite s₁ m₁ e₁ h₁) (.finite s₂ m₂ e₂ h₂) =
      .finite (s₁ * s₂) m e hc.pos := by
  have hmeant : Meant (m₁ * m₂) .exact (m₁ * m₂ : Nat) := rfl
  refine roundWithAccuracy_eq hmeant (.inl ?_) hc ?_
  · rw [Nat.le_log2 (Nat.ne_of_gt (Nat.mul_pos h₁ h₂))]
    rcases enough with enough | enough
    · exact le_trans ((Nat.le_log2 (Nat.ne_of_gt h₁)).1 enough) (Nat.le_mul_of_pos_right _ h₂)
    · exact le_trans ((Nat.le_log2 (Nat.ne_of_gt h₂)).1 enough) (Nat.le_mul_of_pos_left _ h₁)
  · have hvalue : ((m₁ * m₂ : Nat) : ℚ) * 2 ^ (e₁ + e₂) = m₁ * 2 ^ e₁ * (m₂ * 2 ^ e₂) := by
      rw [zpow_add₀ (by norm_num)]
      push_cast
      ring
    rwa [hvalue]

/-- What a remainder says about the quotient. -/
theorem meant_div (n : Nat) {d : Nat} (hd : 0 < d) :
    Meant (n / d) (accuracyOfFraction (n % d) d) ((n : ℚ) / d) := by
  have hdq : (0 : ℚ) < d := by exact_mod_cast hd
  have hfrac : (n : ℚ) / d = (n / d : Nat) + (n % d : Nat) / d := by
    have : (n : ℚ) = (n / d : Nat) * d + (n % d : Nat) := by
      exact_mod_cast (Nat.div_add_mod' n d).symm
    rw [div_eq_iff (ne_of_gt hdq), add_mul, div_mul_cancel₀ _ (ne_of_gt hdq)]
    exact this
  have hlt : ((n % d : Nat) : ℚ) < d := by exact_mod_cast Nat.mod_lt n hd
  rw [hfrac]
  unfold accuracyOfFraction
  split
  · rename_i hzero
    show _ = _
    rw [hzero, Nat.cast_zero, zero_div, add_zero]
    rfl
  · rename_i hne
    have hr : (0 : ℚ) < (n % d : Nat) := by exact_mod_cast Nat.pos_of_ne_zero hne
    have hpos : (0 : ℚ) < (n % d : Nat) / d := div_pos hr hdq
    have hone : ((n % d : Nat) : ℚ) / d < 1 := (div_lt_one hdq).2 hlt
    cases hcmp : compare (2 * (n % d)) d with
    | lt =>
      have : ((2 * (n % d) : Nat) : ℚ) < d := by exact_mod_cast Nat.compare_eq_lt.1 hcmp
      have hhalf : ((n % d : Nat) : ℚ) / d < 1 / 2 := by
        rw [div_lt_div_iff₀ hdq (by norm_num)]
        push_cast at this
        linarith
      exact ⟨by simp only [ExtendedMantissa.ofMantissaAndAccuracy]; linarith,
        by simp only [ExtendedMantissa.ofMantissaAndAccuracy]; linarith⟩
    | eq =>
      have : ((2 * (n % d) : Nat) : ℚ) = d := by exact_mod_cast Nat.compare_eq_eq.1 hcmp
      have hhalf : ((n % d : Nat) : ℚ) / d = 1 / 2 := by
        rw [div_eq_div_iff (ne_of_gt hdq) (by norm_num)]
        push_cast at this
        linarith
      show _ = _
      rw [hhalf]
      rfl
    | gt =>
      have : (d : ℚ) < (2 * (n % d) : Nat) := by exact_mod_cast Nat.compare_eq_gt.1 hcmp
      have hhalf : 1 / 2 < ((n % d : Nat) : ℚ) / d := by
        rw [div_lt_div_iff₀ (by norm_num) hdq]
        push_cast at this
        linarith
      exact ⟨by simp only [ExtendedMantissa.ofMantissaAndAccuracy]; linarith,
        by simp only [ExtendedMantissa.ofMantissaAndAccuracy]; linarith⟩

/-- A quotient is rounded once. -/
theorem div_eq (h₁ : 0 < m₁) (h₂ : 0 < m₂) (hc : Canonical m e)
    (hn : Near m e (m₁ * 2 ^ e₁ / (m₂ * 2 ^ e₂))) :
    UnpackedFloat.div Format.binary64 (.finite s₁ m₁ e₁ h₁) (.finite s₂ m₂ e₂ h₂) =
      .finite (s₁ / s₂) m e hc.pos := by
  have htarget : Format.binary64.targetExponent (totalExponent m₁ e₁ - totalExponent m₂ e₂) =
      max (m₁.log2 - m₂.log2 + (e₁ - e₂) - 53) (-1074) := by
    show max ((m₁.log2 + 1 : Nat) + e₁ - ((m₂.log2 + 1 : Nat) + e₂) - (53 : Nat)) (-1074) = _
    omega
  obtain ⟨k, hk⟩ : ∃ k : Nat, (k : Int) = (e₁ - e₂) -
      min (e₁ - e₂) (max (m₁.log2 - m₂.log2 + (e₁ - e₂) - 53) (-1074)) :=
    ⟨_, Int.toNat_of_nonneg (by omega)⟩
  have hexp : min (e₁ - e₂) (max (m₁.log2 - m₂.log2 + (e₁ - e₂) - 53) (-1074)) = e₁ - e₂ - k := by
    omega
  have hcore : divCore Format.binary64 m₁ e₁ m₂ e₂ = (m₁ * 2 ^ k / m₂, e₁ - e₂ - k,
      accuracyOfFraction (m₁ * 2 ^ k % m₂) m₂) := by
    unfold divCore
    simp only [htarget, hexp, Nat.shiftLeft_eq,
      show (e₁ - e₂ - (e₁ - e₂ - (k : Int))).toNat = k by omega]
  unfold UnpackedFloat.div
  dsimp only
  rw [hcore]
  refine roundWithAccuracy_eq (meant_div _ h₂) ?_ hc ?_
  · by_cases hmin : e₁ - e₂ - k ≤ -1074
    · exact .inr hmin
    · left
      have hlow : 2 ^ 52 ≤ m₁ * 2 ^ k / m₂ := by
        rw [Nat.le_div_iff_mul_le h₂]
        calc 2 ^ 52 * m₂ ≤ 2 ^ 52 * 2 ^ (m₂.log2 + 1) := Nat.mul_le_mul_left _ Nat.lt_log2_self.le
          _ = 2 ^ (52 + (m₂.log2 + 1)) := (Nat.pow_add ..).symm
          _ ≤ 2 ^ (m₁.log2 + k) := Nat.pow_le_pow_right (by decide) (by omega)
          _ = 2 ^ m₁.log2 * 2 ^ k := Nat.pow_add ..
          _ ≤ m₁ * 2 ^ k := Nat.mul_le_mul_right _ (Nat.log2_self_le (Nat.ne_of_gt h₁))
      exact (Nat.le_log2 (by omega)).2 hlow
  · have hvalue : ((m₁ * 2 ^ k : Nat) : ℚ) / m₂ * 2 ^ (e₁ - e₂ - k) =
        m₁ * 2 ^ e₁ / (m₂ * 2 ^ e₂) := by
      rw [zpow_sub₀ (by norm_num), zpow_sub₀ (by norm_num), zpow_natCast]
      push_cast
      field_simp
    rwa [hvalue]

/-! ### Decimals -/

variable {n : Nat}

/-- A decimal is rounded once, if its exponent is not refused as hopeless. -/
theorem model_ofScientific_eq (hn : 0 < n) {k : Int} (low : -(2048 + n.log2 : Int) ≤ k)
    (high : k ≤ 2048) (hc : Canonical m e) (hnear : Near m e (n * 10 ^ k)) :
    Float.Model.ofScientific n k = Float.Model.pack (.finite .positive m e hc.pos) := by
  have hbig : ¬k > 2 ^ Format.binary64.exponentBits := by
    show ¬k > 2048
    omega
  have hsmall : ¬k < -((2 ^ Format.binary64.exponentBits : Int) + n.log2) := by
    show ¬k < -((2048 : Int) + n.log2)
    omega
  refine congrArg Float.Model.pack ?_
  unfold UnpackedFloat.ofScientific
  rw [dif_neg (Nat.ne_of_gt hn), if_neg hbig, if_neg hsmall]
  by_cases hk : 0 ≤ k
  · rw [if_pos hk]
    obtain ⟨j, rfl⟩ := Int.eq_ofNat_of_zero_le hk
    have hshift : n <<< Format.binary64.mantissaBits = n * 2 ^ 53 := Nat.shiftLeft_eq ..
    refine mul_eq _ _ (.inl ?_) hc ?_
    · rw [hshift, Nat.le_log2 (by positivity)]
      omega
    · rw [hshift]
      have hvalue : ((n * 2 ^ 53 : Nat) : ℚ) * 2 ^ (-(Format.binary64.mantissaBits : Int)) *
          ((10 ^ (j : Int).toNat : Nat) * 2 ^ (0 : Int)) = n * 10 ^ (j : Int) := by
        show ((n * 2 ^ 53 : Nat) : ℚ) * 2 ^ (-53 : Int) * ((10 ^ j : Nat) * 2 ^ (0 : Int)) = _
        have hone : (2 : ℚ) ^ 53 * 2 ^ (-53 : Int) = 1 := by
          rw [← zpow_natCast, ← zpow_add₀ (by norm_num)]
          exact zpow_zero 2
        rw [Nat.cast_mul, Nat.cast_pow, Nat.cast_ofNat, mul_assoc (n : ℚ), hone, mul_one, zpow_zero,
          mul_one, Nat.cast_pow, zpow_natCast]
        rfl
      rwa [hvalue]
  · rw [if_neg hk]
    obtain ⟨j, hj⟩ := Int.eq_ofNat_of_zero_le (by omega : 0 ≤ -k)
    refine div_eq _ _ hc ?_
    have hvalue : ((n : Nat) : ℚ) * 2 ^ (0 : Int) / ((10 ^ (-k).toNat : Nat) * 2 ^ (0 : Int)) =
        n * 10 ^ k := by
      have hkj : k = -(j : Int) := by omega
      rw [hkj, neg_neg, Int.toNat_natCast, zpow_zero, mul_one, mul_one, zpow_neg, zpow_natCast]
      push_cast
      rfl
    rwa [hvalue]

/-- A product with a positive double is the double near the product. -/
theorem ofParts_mul (negative : Bool) (h₁ : Canonical m₁ e₁) (h₂ : Canonical m₂ e₂)
    (enough : 52 ≤ m₁.log2 ∨ 52 ≤ m₂.log2) (hc : Canonical m e)
    (hn : Near m e (m₁ * 2 ^ e₁ * (m₂ * 2 ^ e₂))) :
    ofParts negative h₁ * ofParts false h₂ = ofParts negative hc := by
  have hsign : signOf negative * signOf false = signOf negative := by cases negative <;> rfl
  show Float.ofModel (Float.Model.pack (UnpackedFloat.mul Format.binary64
    (ofParts negative h₁).toModel.unpack (ofParts false h₂).toModel.unpack)) = _
  rw [unpack_ofParts, unpack_ofParts, mul_eq _ _ enough hc hn, hsign]
  rfl

/-- A quotient of doubles is the double near the quotient. -/
theorem ofParts_div (h₁ : Canonical m₁ e₁) (h₂ : Canonical m₂ e₂) (hc : Canonical m e)
    (hn : Near m e (m₁ * 2 ^ e₁ / (m₂ * 2 ^ e₂))) :
    ofParts false h₁ / ofParts false h₂ = ofParts false hc := by
  show Float.ofModel (Float.Model.pack (UnpackedFloat.div Format.binary64
    (ofParts false h₁).toModel.unpack (ofParts false h₂).toModel.unpack)) = _
  rw [unpack_ofParts, unpack_ofParts, div_eq _ _ hc hn]
  rfl

/-- **A decimal is rounded once**, be it as a product or a quotient of two exact doubles, or digit by
digit. -/
theorem ofScientific_eq (hn : 0 < n) {s : Bool} {k : Nat} (hk : k ≤ 2048 + if s then n.log2 else 0)
    (hc : Canonical m e) (hnear : Near m e (n * 10 ^ (if s then -(k : Int) else k))) :
    Float.ofScientific n s k = ofParts false hc := by
  unfold Float.ofScientific
  split
  · rename_i hfast
    obtain ⟨hn', hfloat⟩ := toFloat_eq hn hfast.1
    obtain ⟨hk', hpower, hfits⟩ := power_eq (k := k) (Nat.lt_succ_of_le hfast.2)
    have hvalue := top_value (top_fits hn hfast.1)
    have hten := top_value hfits
    rw [Nat.cast_pow, Nat.cast_ofNat] at hten
    simp only [hfloat]
    cases s
    · simp only [Bool.false_eq_true, ↓reduceIte, zpow_natCast] at hnear ⊢
      exact (congrArg (ofParts false hn' * ·) hpower).trans
        (ofParts_mul false hn' hk' (.inl (le_log2_top hn)) hc (by rwa [hvalue, hten]))
    · simp only [↓reduceIte, zpow_neg, zpow_natCast, ← div_eq_mul_inv] at hnear ⊢
      exact (congrArg (ofParts false hn' / ·) hpower).trans
        (ofParts_div hn' hk' hc (by rwa [hvalue, hten]))
  · refine congrArg Float.ofModel ?_
    cases s
    · simp only [Bool.false_eq_true, ↓reduceIte] at hk hnear
      exact model_ofScientific_eq hn (by omega) (show (k : Int) ≤ 2048 by omega) hc hnear
    · simp only [↓reduceIte] at hk hnear
      have hneg : Int.negOfNat k = -(k : Int) := Int.negOfNat_eq
      show Float.Model.ofScientific n (Int.negOfNat k) = _
      rw [hneg]
      exact model_ofScientific_eq hn (by omega) (by omega) hc hnear

/-- The numbers near a double are neither very large nor very small. -/
theorem near_bounds (hc : Canonical m e) {v : ℚ} (hn : Near m e v) :
    10 ^ (-370 : Int) < v ∧ v < 10 ^ (370 : Int) := by
  have hpos := two_zpow_pos e
  have hreach := reach_le m e
  have hten : (2 : ℚ) ^ (1077 : Int) < 10 ^ (370 : Int) := by
    calc (2 : ℚ) ^ (1077 : Int) = (2 ^ 3) ^ 359 := by rw [← pow_mul]; rfl
      _ ≤ 10 ^ 359 := pow_le_pow_left₀ (by norm_num) (by norm_num) 359
      _ < 10 ^ 370 := pow_lt_pow_right₀ (by norm_num) (by decide)
  constructor
  · have hm : (1 : ℚ) ≤ m := by exact_mod_cast hc.pos
    calc (10 : ℚ) ^ (-370 : Int) < 2 ^ (-1077 : Int) := by
          rw [zpow_neg, zpow_neg]
          exact inv_strictAnti₀ (two_zpow_pos _) hten
      _ ≤ 2 ^ (e - 1) := zpow_le_zpow_right₀ (by norm_num) (by have := hc.least; omega)
      _ = 1 / 2 * 2 ^ e := by rw [zpow_sub_one₀ (by norm_num)]; ring
      _ ≤ (m - reach m e) * 2 ^ e := mul_le_mul_of_nonneg_right (by linarith) hpos.le
      _ ≤ v := hn.low
  · have hm : (m : ℚ) + 1 ≤ 2 ^ 53 := by exact_mod_cast hc.lt
    calc v ≤ (m + 1 / 2) * 2 ^ e := hn.high
      _ ≤ 2 ^ 53 * 2 ^ e := mul_le_mul_of_nonneg_right (by linarith) hpos.le
      _ = 2 ^ (53 + e) := by rw [zpow_add₀ (by norm_num)]; rfl
      _ ≤ 2 ^ (1077 : Int) := zpow_le_zpow_right₀ (by norm_num) (by have := hc.most; omega)
      _ < 10 ^ (370 : Int) := hten

/-- The number of digits of a number bounds it. -/
theorem digits_bounds (hn : 0 < n) : ∃ l : Nat, (Nat.toDigits 10 n).length = l + 1 ∧
    l ≤ n.log2 ∧ (10 : ℚ) ^ (l : Int) ≤ n ∧ (n : ℚ) < 10 ^ ((l : Int) + 1) := by
  obtain ⟨l, hl⟩ := Nat.exists_eq_succ_of_ne_zero
    (Nat.ne_of_gt (Nat.length_toDigits_pos (b := 10) (n := n)))
  have hlow : 10 ^ l ≤ n := by
    rcases Nat.eq_zero_or_pos l with rfl | h
    · exact hn
    · have := (Nat.length_toDigits_le_iff (b := 10) (n := n) (by decide) h).not
      omega
  have hhigh : n < 10 ^ (l + 1) :=
    (Nat.length_toDigits_le_iff (by decide) (Nat.succ_pos l)).1 hl.le
  refine ⟨l, hl, ?_, ?_, ?_⟩
  · rw [Nat.le_log2 (Nat.ne_of_gt hn)]
    exact le_trans (Nat.pow_le_pow_left (by decide) l) hlow
  · rw [zpow_natCast]
    exact_mod_cast hlow
  · rw [← Int.natCast_succ, zpow_natCast]
    exact_mod_cast hhigh

/-- **The nearest double to a decimal** is the one in whose interval the decimal lies. -/
theorem nearest_eq (negative : Bool) (hn : 0 < n) {k : Int} (hc : Canonical m e)
    (hnear : Near m e (n * 10 ^ k)) : nearest negative n k = ofParts negative hc := by
  obtain ⟨l, hl, hlog, low, high⟩ := digits_bounds hn
  obtain ⟨hsmall, hlarge⟩ := near_bounds hc hnear
  have hten := ten_zpow_pos k
  -- the decimal has between -370 and 370 places before its point
  have hmost : (l : Int) + k < 370 := by
    have : (10 : ℚ) ^ ((l : Int) + k) < 10 ^ (370 : Int) := by
      rw [zpow_add₀ (by norm_num)]
      exact lt_of_le_of_lt (mul_le_mul_of_nonneg_right low hten.le) hlarge
    exact (zpow_lt_zpow_iff_right₀ (by norm_num)).1 this
  have hleast : -370 < (l : Int) + 1 + k := by
    have : (10 : ℚ) ^ (-370 : Int) < 10 ^ ((l : Int) + 1 + k) := by
      rw [zpow_add₀ (by norm_num) _ k]
      exact lt_trans hsmall (mul_lt_mul_of_pos_right high hten)
    exact (zpow_lt_zpow_iff_right₀ (by norm_num)).1 this
  have hmagnitude : nearest false n k = ofParts false hc := by
    unfold nearest
    simp only [beq_iff_eq, Bool.false_eq_true, ↓reduceIte, hl, Int.ofNat_eq_natCast]
    rw [if_neg (Nat.ne_of_gt hn), if_neg (by omega), if_neg (by omega)]
    split
    · rename_i hk
      refine ofScientific_eq hn (by simp; omega) hc ?_
      simpa [Int.toNat_of_nonneg hk] using hnear
    · rename_i hk
      refine ofScientific_eq hn (by simp; omega) hc ?_
      simpa [Int.toNat_of_nonneg (by omega : 0 ≤ -k)] using hnear
  cases negative
  · exact hmagnitude
  · rw [← neg_ofParts, ← hmagnitude]
    rfl

end Decimal
end CardTransfer
