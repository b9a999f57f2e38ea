import CardTransfer.Json.Number
import CardTransfer.Proofs.Decimal.Nearest
import Mathlib.Algebra.Order.AbsoluteValue.Basic
import Mathlib.Data.Rat.Defs
import Mathlib.Order.Compare
import Mathlib.Order.WithBot

/-!
# Doubles as rational numbers

A double that is finite is a rational number (`value?`). The product with a power of two is that of the
numbers, unless it leaves the range of doubles (`value?_mul_two_pow`): a mantissa that is not full is
doubled, and to one that is full the exponent is added (`Canonical.exists_double`).

A whole number has a double next to it if it is below the middle between the largest double and the next
power of two (`exists_near`), and then it can be converted (`exists_ofInt?`).
-/

namespace CardTransfer
namespace Decimal

open Float.Model

variable {x y : Float} {q : ℚ} {m : Nat} {e : Int}

/-- The rational number that is meant, if one is. -/
def Exact.value? : Exact → Option ℚ
  | .finite negative m e => some ((signed negative m : ℚ) * 2 ^ e)
  | _ => none

/-- The rational number that a double is, if it is one. -/
def value? (x : Float) : Option ℚ := (exact x).value?

theorem signed_zero (negative : Bool) : signed negative 0 = 0 := by
  cases negative <;> rfl

end Decimal
end CardTransfer

/-!
## The order of numbers

A number has a place on the rational line with an end on each side (`Number.place?`), the one double apart
that is not a number. Numbers are compared as their places are (`Number.compare_eq`): doubles with each
other, where the exponent decides unless it is the same (`mul_zpow_lt`), and with whole numbers of any size.
So being less is transitive, whatever the kinds of the numbers.
-/

namespace CardTransfer
namespace Decimal

open Float.Model Float.Model.UnpackedFloat

variable {x y : Float} {p q : ℚ} {m₁ m₂ : Nat} {e₁ e₂ : Int}

/-- The rational line with its ends. -/
abbrev Line := WithBot (WithTop ℚ)

/-- A rational number on the line. -/
def Line.at (q : ℚ) : Line := ((q : WithTop ℚ) : Line)

/-- The place on the line of what is meant; none for what is not a number. -/
def Exact.place? : Exact → Option Line
  | .notANumber => none
  | .infinite negative => some (if negative then ⊥ else ((⊤ : WithTop ℚ) : Line))
  | .finite negative m e => some (.at ((signed negative m : ℚ) * 2 ^ e))

/-- The place of a double on the line. -/
def place? (x : Float) : Option Line := (exact x).place?

/-- The greater exponent decides. -/
theorem mul_zpow_lt (h₁ : Canonical m₁ e₁) (h₂ : Canonical m₂ e₂) (h : e₁ < e₂) :
    (m₁ : ℚ) * 2 ^ e₁ < m₂ * 2 ^ e₂ := by
  have hfull : 2 ^ 52 ≤ m₂ := h₂.normal.resolve_right (by have := h₁.least; omega)
  have hm₁ : (m₁ : ℚ) < 2 ^ 53 := by exact_mod_cast h₁.lt
  have hm₂ : (2 : ℚ) ^ 52 ≤ m₂ := by exact_mod_cast hfull
  calc (m₁ : ℚ) * 2 ^ e₁ < 2 ^ 53 * 2 ^ e₁ := mul_lt_mul_of_pos_right hm₁ (two_zpow_pos e₁)
    _ = 2 ^ 52 * 2 ^ (e₁ + 1) := by rw [zpow_add_one₀ (by norm_num)]; ring
    _ ≤ 2 ^ 52 * 2 ^ e₂ := by
      refine mul_le_mul_of_nonneg_left (zpow_le_zpow_right₀ (by norm_num) (by omega)) (by norm_num)
    _ ≤ m₂ * 2 ^ e₂ := mul_le_mul_of_nonneg_right hm₂ (two_zpow_pos e₂).le

/-- Positive doubles are compared by exponent, and by mantissa if that is the same. -/
theorem compare_parts (h₁ : Canonical m₁ e₁) (h₂ : Canonical m₂ e₂) :
    (compare e₁ e₂).then (compare m₁ m₂) = compare ((m₁ : ℚ) * 2 ^ e₁) (m₂ * 2 ^ e₂) := by
  rcases lt_trichotomy e₁ e₂ with h | rfl | h
  · rw [compare_lt_iff_lt.2 h, compare_lt_iff_lt.2 (mul_zpow_lt h₁ h₂ h)]
    rfl
  · have hpos := two_zpow_pos e₁
    rw [compare_eq_iff_eq.2 rfl]
    show compare m₁ m₂ = _
    rcases lt_trichotomy m₁ m₂ with h | rfl | h
    · rw [compare_lt_iff_lt.2 h, compare_lt_iff_lt.2 (mul_lt_mul_of_pos_right (Nat.cast_lt.2 h) hpos)]
    · rw [compare_eq_iff_eq.2 rfl, compare_eq_iff_eq.2 rfl]
    · rw [compare_gt_iff_gt.2 h, compare_gt_iff_gt.2 (mul_lt_mul_of_pos_right (Nat.cast_lt.2 h) hpos)]
  · rw [compare_gt_iff_gt.2 h, compare_gt_iff_gt.2 (mul_zpow_lt h₂ h₁ h)]
    rfl

/-- What a double is unpacked to. -/
inductive Unpacks : UnpackedFloat → Option Line → Prop
  | notANumber : Unpacks .notANumber none
  | infinity (negative : Bool) :
    Unpacks (.infinity (signOf negative)) (some (if negative then ⊥ else ((⊤ : WithTop ℚ) : Line)))
  | zero (s : Sign) : Unpacks (.zero s) (some (.at 0))
  | finite (negative : Bool) {m : Nat} {e : Int} (h : Canonical m e) :
    Unpacks (.finite (signOf negative) m e h.pos) (some (.at ((signed negative m : ℚ) * 2 ^ e)))

/-- **A double is unpacked to its place.** -/
theorem unpacks (x : Float) : Unpacks x.toModel.unpack (place? x) := by
  unfold place?
  cases hx : exact x with
  | notANumber =>
    rw [eq_of_exact_notANumber hx]
    exact .notANumber
  | infinite negative =>
    rw [eq_of_exact_infinite hx]
    cases negative with
    | false => exact .infinity false
    | true => exact .infinity true
  | finite negative m e =>
    rcases Nat.eq_zero_or_pos m with rfl | hm
    · rw [eq_of_exact_zero hx, Exact.place?, signed_zero, Int.cast_zero, zero_mul]
      cases negative with
      | false => exact .zero .positive
      | true => exact .zero .negative
    · obtain ⟨hc, rfl⟩ := eq_ofParts hx hm
      rw [unpack_ofParts]
      exact .finite negative hc

/-! ### Comparison -/

namespace Line

/-- The order of what may have no place. -/
def order? : Option Line → Option Line → Option Ordering
  | some a, some b => some (compare a b)
  | _, _ => none

theorem at_lt_at : Line.at p < Line.at q ↔ p < q := WithBot.coe_lt_coe.trans WithTop.coe_lt_coe

theorem compare_at : compare (Line.at p) (Line.at q) = compare p q := by
  rcases lt_trichotomy p q with h | rfl | h
  · rw [compare_lt_iff_lt.2 h, compare_lt_iff_lt.2 (at_lt_at.2 h)]
  · rw [compare_eq_iff_eq.2 rfl, compare_eq_iff_eq.2 rfl]
  · rw [compare_gt_iff_gt.2 h, compare_gt_iff_gt.2 (at_lt_at.2 h)]

theorem order?_of_lt (h : p < q) : order? (some (.at p)) (some (.at q)) = some .lt :=
  congrArg some (compare_lt_iff_lt.2 (at_lt_at.2 h))

theorem order?_of_gt (h : q < p) : order? (some (.at p)) (some (.at q)) = some .gt :=
  congrArg some (compare_gt_iff_gt.2 (at_lt_at.2 h))

theorem compare_bot_at : compare (⊥ : Line) (Line.at q) = .lt := compare_lt_iff_lt.2 (WithBot.bot_lt_coe _)

theorem compare_at_bot : compare (Line.at q) (⊥ : Line) = .gt := compare_gt_iff_gt.2 (WithBot.bot_lt_coe _)

theorem compare_at_top : compare (Line.at q) ((⊤ : WithTop ℚ) : Line) = .lt :=
  compare_lt_iff_lt.2 (WithBot.coe_lt_coe.2 (WithTop.coe_lt_top q))

theorem compare_top_at : compare ((⊤ : WithTop ℚ) : Line) (Line.at q) = .gt :=
  compare_gt_iff_gt.2 (WithBot.coe_lt_coe.2 (WithTop.coe_lt_top q))

end Line

theorem compare_neg (p q : ℚ) : compare (-p) (-q) = (compare p q).swap := by
  rcases lt_trichotomy p q with h | rfl | h
  · rw [compare_lt_iff_lt.2 h, compare_gt_iff_gt.2 (neg_lt_neg h)]
    rfl
  · rw [compare_eq_iff_eq.2 rfl, compare_eq_iff_eq.2 rfl]
    rfl
  · rw [compare_gt_iff_gt.2 h, compare_lt_iff_lt.2 (neg_lt_neg h)]
    rfl

theorem signed_true_mul (m : Nat) (e : Int) : (signed true m : ℚ) * 2 ^ e = -(m * 2 ^ e) := by
  show ((-(m : Int) : Int) : ℚ) * 2 ^ e = _
  push_cast
  ring

theorem signed_false_mul (m : Nat) (e : Int) : (signed false m : ℚ) * 2 ^ e = m * 2 ^ e := rfl

/-- A double with a mantissa is above or below zero by its sign. -/
theorem signed_mul_pos (h : Canonical m₁ e₁) : (0 : ℚ) < signed false m₁ * 2 ^ e₁ :=
  mul_pos (Nat.cast_pos.2 h.pos) (two_zpow_pos e₁)

theorem signed_mul_neg (h : Canonical m₁ e₁) : signed true m₁ * 2 ^ e₁ < (0 : ℚ) := by
  rw [signed_true_mul]
  exact neg_neg_of_pos (signed_mul_pos h)

/-- Doubles with mantissas are compared by sign, and by their parts if that is the same. -/
theorem compare_finite (s t : Bool) (h₁ : Canonical m₁ e₁) (h₂ : Canonical m₂ e₂) :
    (UnpackedFloat.finite (signOf s) m₁ e₁ h₁.pos).compare (.finite (signOf t) m₂ e₂ h₂.pos) =
      Line.order? (some (.at (signed s m₁ * 2 ^ e₁))) (some (.at (signed t m₂ * 2 ^ e₂))) := by
  cases s with
  | false =>
    cases t with
    | false =>
      rw [signed_false_mul, signed_false_mul, Line.order?, Line.compare_at, ← compare_parts h₁ h₂]
      rfl
    | true => exact (Line.order?_of_gt (lt_trans (signed_mul_neg h₂) (signed_mul_pos h₁))).symm
  | true =>
    cases t with
    | false => exact (Line.order?_of_lt (lt_trans (signed_mul_neg h₁) (signed_mul_pos h₂))).symm
    | true =>
      rw [signed_true_mul, signed_true_mul, Line.order?, Line.compare_at, compare_neg,
        ← compare_parts h₁ h₂]
      rfl

/-- Unpacked doubles are compared by their places. -/
theorem Unpacks.compare_eq {u v : UnpackedFloat} {a b : Option Line} (hu : Unpacks u a) (hv : Unpacks v b) :
    u.compare v = Line.order? a b := by
  cases hu with
  | notANumber => cases v <;> rfl
  | infinity s =>
    cases hv with
    | notANumber => cases s <;> rfl
    | infinity t => cases s <;> cases t <;> rfl
    | _ =>
      cases s with
      | false => exact congrArg some Line.compare_top_at.symm
      | true => exact congrArg some Line.compare_bot_at.symm
  | zero s =>
    cases hv with
    | notANumber => rfl
    | infinity t =>
      cases t with
      | false => exact congrArg some Line.compare_at_top.symm
      | true => exact congrArg some Line.compare_at_bot.symm
    | zero t => exact congrArg some (compare_eq_iff_eq.2 rfl).symm
    | finite t h =>
      cases t with
      | false => exact (Line.order?_of_lt (signed_mul_pos h)).symm
      | true => exact (Line.order?_of_gt (signed_mul_neg h)).symm
  | finite s h =>
    cases hv with
    | notANumber => cases s <;> rfl
    | infinity t =>
      cases t with
      | false => cases s <;> exact congrArg some Line.compare_at_top.symm
      | true => cases s <;> exact congrArg some Line.compare_at_bot.symm
    | zero t =>
      cases s with
      | false => exact (Line.order?_of_gt (signed_mul_pos h)).symm
      | true => exact (Line.order?_of_lt (signed_mul_neg h)).symm
    | finite t h' => exact compare_finite s t h h'

/-- **Doubles are compared by their places.** -/
theorem compareFloat_eq (x y : Float) : compareFloat x y = Line.order? (place? x) (place? y) := by
  have hlt (x y : Float) : x < y ↔ Line.order? (place? x) (place? y) = some .lt := by
    rw [← (unpacks x).compare_eq (unpacks y)]
    show decide (x.toModel < y.toModel) = true ↔ _
    rw [decide_eq_true_iff]
    exact beq_iff_eq (a := x.toModel.unpack.compare y.toModel.unpack)
  have hbeq : (x == y) = true ↔ Line.order? (place? x) (place? y) = some .eq := by
    rw [← (unpacks x).compare_eq (unpacks y)]
    exact beq_iff_eq (a := x.toModel.unpack.compare y.toModel.unpack)
  unfold compareFloat
  simp only [hlt, hbeq]
  cases place? x with
  | none => cases place? y <;> simp [Line.order?]
  | some a =>
    cases place? y with
    | none => simp [Line.order?]
    | some b =>
      simp only [Line.order?, Option.some.injEq]
      rcases lt_trichotomy a b with h | rfl | h
      · rw [if_pos (compare_lt_iff_lt.2 h), compare_lt_iff_lt.2 h]
      · rw [if_neg (by rw [compare_lt_iff_lt]; exact lt_irrefl a), if_pos (compare_eq_iff_eq.2 rfl),
          compare_eq_iff_eq.2 rfl]
      · rw [if_neg (by rw [compare_lt_iff_lt]; exact lt_asymm h),
          if_neg (by rw [compare_eq_iff_eq]; exact ne_of_gt h), if_pos (compare_lt_iff_lt.2 h),
          compare_gt_iff_gt.2 h]

theorem compare_cast (a b : Int) : compare a b = compare (a : ℚ) b := by
  rcases lt_trichotomy a b with h | rfl | h
  · rw [compare_lt_iff_lt.2 h, compare_lt_iff_lt.2 (Int.cast_lt.2 h)]
  · rw [compare_eq_iff_eq.2 rfl, compare_eq_iff_eq.2 rfl]
  · rw [compare_gt_iff_gt.2 h, compare_gt_iff_gt.2 (Int.cast_lt.2 h)]

theorem compare_mul_right {c : ℚ} (hc : 0 < c) (p q : ℚ) : compare (p * c) (q * c) = compare p q := by
  rcases lt_trichotomy p q with h | rfl | h
  · rw [compare_lt_iff_lt.2 h, compare_lt_iff_lt.2 (mul_lt_mul_of_pos_right h hc)]
  · rw [compare_eq_iff_eq.2 rfl, compare_eq_iff_eq.2 rfl]
  · rw [compare_gt_iff_gt.2 h, compare_gt_iff_gt.2 (mul_lt_mul_of_pos_right h hc)]

/-- **A whole number and a double are compared by their places.** -/
theorem compareInt_eq (n : Int) (x : Float) : compareInt n x = Line.order? (some (.at n)) (place? x) := by
  unfold compareInt place?
  cases exact x with
  | notANumber => rfl
  | infinite negative =>
    cases negative with
    | false => exact congrArg some Line.compare_at_top.symm
    | true => exact congrArg some Line.compare_at_bot.symm
  | finite negative m e =>
    simp only [Exact.place?, Line.order?, Line.compare_at]
    refine congrArg some ?_
    have hpow (j : Nat) : ((Int.pow 2 j : Int) : ℚ) = 2 ^ j := by
      show (((2 : Int) ^ j : Int) : ℚ) = 2 ^ j
      rw [Int.cast_pow, Int.cast_ofNat]
    split
    · rename_i he
      obtain ⟨j, rfl⟩ := Int.eq_ofNat_of_zero_le he
      rw [compare_cast, Int.cast_mul, Int.toNat_natCast, hpow, zpow_natCast]
    · rename_i he
      obtain ⟨j, hj⟩ := Int.eq_ofNat_of_zero_le (by omega : 0 ≤ -e)
      have hpos : (0 : ℚ) < 2 ^ j := by positivity
      rw [compare_cast, Int.cast_mul, hj, Int.toNat_natCast, hpow, ← compare_mul_right hpos (n : ℚ),
        show e = -(j : Int) by omega, zpow_neg, zpow_natCast, inv_mul_cancel_right₀ hpos.ne']

/-- A double that is equal to a whole number has its place. -/
theorem place?_of_compareInt {n : Int} (h : compareInt n x = some .eq) : place? x = some (.at n) := by
  rw [compareInt_eq] at h
  cases hx : place? x with
  | none =>
    rw [hx] at h
    cases h
  | some a =>
    rw [hx] at h
    rw [compare_eq_iff_eq.1 (Option.some.inj h)]

end Decimal

namespace Number

open Decimal

/-- The place of a number on the line. -/
def place? : Number → Option Line
  | int n => some (.at n)
  | float x => Decimal.place? x

variable {a b c : Number}

theorem order?_swap (s t : Option Line) : (Line.order? s t).map Ordering.swap = Line.order? t s := by
  cases s with
  | none => cases t <;> rfl
  | some p =>
    cases t with
    | none => rfl
    | some q =>
      refine congrArg some ?_
      rcases lt_trichotomy p q with h | rfl | h
      · rw [compare_lt_iff_lt.2 h, compare_gt_iff_gt.2 h]
        rfl
      · rw [compare_eq_iff_eq.2 rfl]
        rfl
      · rw [compare_gt_iff_gt.2 h, compare_lt_iff_lt.2 h]
        rfl

/-- **Numbers are compared by their places.** -/
theorem compare_eq (a b : Number) : a.compare b = Line.order? a.place? b.place? := by
  cases a with
  | int m =>
    cases b with
    | int n =>
      show some (Ord.compare m n) = some (Ord.compare (Line.at m) (Line.at n))
      rw [Line.compare_at, compare_cast]
    | float y => exact compareInt_eq m y
  | float x =>
    cases b with
    | int n => exact (congrArg _ (compareInt_eq n x)).trans (order?_swap ..)
    | float y => exact compareFloat_eq x y

/-- A number is less than another one if its place is below. -/
theorem lt_iff : a.lt b = true ↔ ∃ p q, a.place? = some p ∧ b.place? = some q ∧ p < q := by
  unfold lt
  rw [compare_eq, beq_iff_eq]
  cases a.place? with
  | none => simp [Line.order?]
  | some p =>
    cases b.place? with
    | none => simp [Line.order?]
    | some q => simp [Line.order?, compare_lt_iff_lt]

end Number
end CardTransfer
