import CardTransfer.Decimal.Binary64
import Mathlib.Algebra.Order.Field.Basic
import Mathlib.Data.Rat.Cast.Order
import Mathlib.Tactic.FieldSimp
import Mathlib.Tactic.Linarith
import Mathlib.Tactic.NormNum
import Mathlib.Tactic.Positivity

/-!
# Rounding to a double

The runtime's doubles round a number that is given by a whole mantissa, an exponent of two and a
note on what was cut off. This module says which numbers are rounded to a given double.

A double that is not zero is `m · 2 ^ e` with `m` and `e` as in `Canonical`. The numbers that round
to it are an interval (`Near`): half a step up and half a step down, or a quarter down where the
step below is half as wide; the ends belong to it if `m` is even.

* `Stands` reads a mantissa with its two residual bits as an exact number. A shift to the right
  halves that number and loses nothing (`Stands.shiftRight`), and rounding takes it to the nearest
  whole number, a half to the even one (`Stands.roundedMantissa_eq`).
* The first shift goes to the exponent that the size of the number calls for. For a number near
  `m · 2 ^ e` that is `e`, or `e - 1` where `m` is the least mantissa and the number lies below it.
  In the second case the rounded mantissa is `2 ^ 53`, and the second shift repairs it.

`roundWithAccuracy_eq` puts the two together.
-/

namespace CardTransfer
namespace Decimal

open Float.Model Float.Model.UnpackedFloat

/-- The mantissa and the exponent of a double that is neither zero nor an infinity. -/
structure Canonical (m : Nat) (e : Int) : Prop where
  pos : 0 < m
  lt : m < 2 ^ 53
  least : -1074 ≤ e
  most : e ≤ 971
  normal : 2 ^ 52 ≤ m ∨ e = -1074

/-- How far the interval around `m · 2 ^ e` reaches down, in steps of `2 ^ e`. -/
def reach (m : Nat) (e : Int) : ℚ := if m = 2 ^ 52 ∧ -1074 < e then 1 / 4 else 1 / 2

/-- The numbers that round to `m · 2 ^ e`. -/
structure Near (m : Nat) (e : Int) (v : ℚ) : Prop where
  low : (m - reach m e) * 2 ^ e ≤ v
  high : v ≤ (m + 1 / 2) * 2 ^ e
  inside : m % 2 = 1 → (m - reach m e) * 2 ^ e < v ∧ v < (m + 1 / 2) * 2 ^ e

theorem reach_le (m : Nat) (e : Int) : reach m e ≤ 1 / 2 := by
  unfold reach
  split <;> norm_num

theorem reach_pos (m : Nat) (e : Int) : 0 < reach m e := by
  unfold reach
  split <;> norm_num

theorem two_zpow_pos (e : Int) : (0 : ℚ) < 2 ^ e := zpow_pos (by norm_num) e

/-! ### Residual bits -/

/-- The number that a mantissa with its round bit and its sticky bit stands for. -/
def Stands (em : ExtendedMantissa) (y : ℚ) : Prop :=
  match em.roundBit, em.stickyBit with
  | false, false => y = em.mantissa
  | false, true => em.mantissa < y ∧ y < em.mantissa + 1 / 2
  | true, false => y = em.mantissa + 1 / 2
  | true, true => em.mantissa + 1 / 2 < y ∧ y < em.mantissa + 1

namespace Stands

variable {em : ExtendedMantissa} {y : ℚ}

/-- The mantissa is the whole part. -/
theorem floor (h : Stands em y) : (em.mantissa : ℚ) ≤ y ∧ y < em.mantissa + 1 := by
  obtain ⟨m, r, s⟩ := em
  cases r <;> cases s <;> simp only [Stands] at h ⊢ <;> constructor <;> linarith

/-- A shift to the right by one halves the number. -/
theorem shiftRightOne (h : Stands em y) : Stands em.shiftRightOne (y / 2) := by
  obtain ⟨m, r, s⟩ := em
  have hm : ((m / 2 : Nat) : ℚ) = (m - (m % 2 : Nat)) / 2 := by
    have := Nat.div_add_mod m 2
    have hq : (2 : ℚ) * (m / 2 : Nat) + (m % 2 : Nat) = m := by exact_mod_cast this
    linarith
  rcases Nat.mod_two_eq_zero_or_one m with h2 | h2 <;>
    cases r <;> cases s <;>
    simp only [Stands, ExtendedMantissa.shiftRightOne, h2, Nat.cast_zero, Nat.cast_one,
      bne_self_eq_false, Bool.or_self, Bool.or_true, Bool.or_false,
      show (1 != 0) = true from rfl] at h hm ⊢ <;>
    rw [hm] <;> first | linarith | (constructor <;> linarith)

/-- A shift to the right by `n` divides the number by `2 ^ n`. -/
theorem shiftRight (h : Stands em y) (n : Nat) : Stands (em >>> n) (y / 2 ^ n) := by
  show Stands (n.repeat ExtendedMantissa.shiftRightOne em) (y / 2 ^ n)
  induction n with
  | zero => simpa [Nat.repeat] using h
  | succ n ih =>
    rw [Nat.repeat, pow_succ, ← div_div]
    exact ih.shiftRightOne

/-- Rounding gives the nearest whole number, of two equally near ones the even one. -/
theorem roundedMantissa_eq (h : Stands em y) {n : Nat} (low : (n : ℚ) - 1 / 2 ≤ y)
    (high : y ≤ n + 1 / 2) (inside : n % 2 = 1 → (n : ℚ) - 1 / 2 < y ∧ y < n + 1 / 2) :
    em.roundedMantissa = n := by
  obtain ⟨m, r, s⟩ := em
  -- one of `m`, `m + 1` is meant: the whole part of the number is `m`
  have hm : m ≤ n ∧ n ≤ m + 1 := by
    obtain ⟨h₁, h₂⟩ := h.floor
    simp only at h₁ h₂
    constructor
    · have : (m : ℚ) < n + 1 := by linarith
      have : m < n + 1 := by exact_mod_cast this
      omega
    · have : (n : ℚ) < m + 2 := by linarith
      have : n < m + 2 := by exact_mod_cast this
      omega
  obtain rfl | rfl : n = m ∨ n = m + 1 := by omega
  · cases r <;> cases s <;>
      simp only [Stands, ExtendedMantissa.roundedMantissa, ExtendedMantissa.accuracy,
        Accuracy.roundToNearestEven] at h ⊢
    · rcases Nat.mod_two_eq_zero_or_one n with h2 | h2
      · omega
      · linarith [(inside h2).2]
    · linarith
  · push_cast at low high inside
    cases r <;> cases s <;>
      simp only [Stands, ExtendedMantissa.roundedMantissa, ExtendedMantissa.accuracy,
        Accuracy.roundToNearestEven] at h ⊢
    · linarith
    · linarith
    · rcases Nat.mod_two_eq_zero_or_one m with h2 | h2
      · have := (inside (by omega)).1
        linarith
      · rw [h2]

end Stands

/-- A mantissa with a note on what was cut off, as an exact number. -/
def Meant (m : Nat) (a : Accuracy) (y : ℚ) : Prop :=
  Stands (ExtendedMantissa.ofMantissaAndAccuracy m a) y

/-! ### The two shifts -/

theorem targetExponent_eq (m : Nat) (e : Int) :
    Format.binary64.targetExponent (totalExponent m e) = max (m.log2 + e - 52) (-1074) := by
  show max ((m.log2 + 1 : Nat) + e - (53 : Nat)) (-1074) = _
  omega

/-- A mantissa that fits is not shifted. -/
theorem shift_of_lt {m : Nat} {e : Int} (hm : m < 2 ^ 53) (he : -1074 ≤ e) :
    shiftToTargetExponent Format.binary64 m e .exact = (⟨m, false, false⟩, e) := by
  have hlog : m.log2 ≤ 52 := by
    rcases Nat.eq_zero_or_pos m with rfl | h
    · simp
    · have := (Nat.log2_lt (Nat.ne_of_gt h)).2 hm
      omega
  have hstay : (Format.binary64.targetExponent (totalExponent m e) - e).toNat = 0 := by
    rw [targetExponent_eq]
    omega
  unfold shiftToTargetExponent shiftToExponent
  simp only [hstay, Nat.cast_zero, add_zero]
  rfl

/-- A mantissa that has grown by rounding is shifted by one. -/
theorem shift_of_eq {e : Int} (he : -1074 ≤ e) :
    shiftToTargetExponent Format.binary64 (2 ^ 53) e .exact = (⟨2 ^ 52, false, false⟩, e + 1) := by
  have hone : (Format.binary64.targetExponent (totalExponent (2 ^ 53) e) - e).toNat = 1 := by
    rw [targetExponent_eq, Nat.log2_two_pow]
    omega
  unfold shiftToTargetExponent shiftToExponent
  simp only [hone, Nat.cast_one]
  rfl

theorem Meant.floor {m : Nat} {a : Accuracy} {y : ℚ} (h : Meant m a y) :
    (m : ℚ) ≤ y ∧ y < m + 1 := by
  have hm : (ExtendedMantissa.ofMantissaAndAccuracy m a).mantissa = m := by
    cases a with
    | exact => rfl
    | inexact o => cases o <;> rfl
  have := Stands.floor h
  rwa [hm] at this

/-- The first shift goes to an exponent at which the number has its 53 digits, or to the least one;
the number stays what it is. -/
theorem exists_shift {m : Nat} {e : Int} {a : Accuracy} {y : ℚ} (hy : Meant m a y)
    (enough : 52 ≤ m.log2 ∨ e ≤ -1074) : ∃ em t z,
      shiftToTargetExponent Format.binary64 m e a = (em, t) ∧ Stands em z ∧ z * 2 ^ t = y * 2 ^ e ∧
        z < 2 ^ 53 ∧ -1074 ≤ t ∧ (2 ^ 52 ≤ z ∨ t = -1074) := by
  obtain ⟨low, high⟩ := hy.floor
  obtain ⟨k, hk⟩ : ∃ k : Nat, (k : Int) = max (m.log2 + e - 52) (-1074) - e :=
    ⟨_, Int.toNat_of_nonneg (by omega)⟩
  have hpow : (0 : ℚ) < 2 ^ k := by positivity
  have hshift : (Format.binary64.targetExponent (totalExponent m e) - e).toNat = k := by
    rw [targetExponent_eq]
    omega
  refine ⟨ExtendedMantissa.ofMantissaAndAccuracy m a >>> k, e + k, y / 2 ^ k, ?_,
    Stands.shiftRight hy k, ?_, ?_, by omega, ?_⟩
  · unfold shiftToTargetExponent shiftToExponent
    simp only [hshift]
  · rw [zpow_add₀ (by norm_num), zpow_natCast]
    field_simp
  · rw [div_lt_iff₀ hpow, ← pow_add]
    have hlt : m + 1 ≤ 2 ^ (53 + k) :=
      le_trans Nat.lt_log2_self (Nat.pow_le_pow_right (by decide) (by omega))
    have : ((m + 1 : Nat) : ℚ) ≤ 2 ^ (53 + k) := by exact_mod_cast hlt
    push_cast at this
    linarith
  · by_cases hmin : e + k = -1074
    · exact .inr hmin
    · left
      have hlog : m.log2 = 52 + k := by omega
      have hm : m ≠ 0 := by
        rintro rfl
        rw [Nat.log2_zero] at hlog
        omega
      rw [le_div_iff₀ hpow, ← pow_add, ← hlog]
      have : ((2 ^ m.log2 : Nat) : ℚ) ≤ m := by exact_mod_cast Nat.log2_self_le hm
      push_cast at this
      linarith

/-- A rounded mantissa is shifted once more, without loss. -/
theorem roundWithAccuracy_of_shifts {s : Sign} {m₀ : Nat} {e₀ t u : Int} {a : Accuracy}
    {em em' : ExtendedMantissa} (h : shiftToTargetExponent Format.binary64 m₀ e₀ a = (em, t))
    (h' : shiftToTargetExponent Format.binary64 em.roundedMantissa t .exact = (em', u)) {m : Nat}
    (hm : em'.mantissa = m) (pos : 0 < m) :
    roundWithAccuracy Format.binary64 s m₀ e₀ a = .finite s m u pos := by
  subst hm
  unfold roundWithAccuracy
  rw [h]
  dsimp only
  rw [h']
  exact dif_neg (Nat.ne_of_gt pos)

/-- A rounded mantissa that fits is the mantissa of the result. -/
theorem roundWithAccuracy_of_lt {s : Sign} {m₀ : Nat} {e₀ t : Int} {a : Accuracy}
    {em : ExtendedMantissa} (h : shiftToTargetExponent Format.binary64 m₀ e₀ a = (em, t))
    {m : Nat} (hm : em.roundedMantissa = m) (pos : 0 < m) (hlt : m < 2 ^ 53) (ht : -1074 ≤ t) :
    roundWithAccuracy Format.binary64 s m₀ e₀ a = .finite s m t pos := by
  subst hm
  exact roundWithAccuracy_of_shifts h (shift_of_lt hlt ht) rfl pos

/-- A rounded mantissa that has grown is halved, at the next exponent. -/
theorem roundWithAccuracy_of_eq {s : Sign} {m₀ : Nat} {e₀ t : Int} {a : Accuracy}
    {em : ExtendedMantissa} (h : shiftToTargetExponent Format.binary64 m₀ e₀ a = (em, t))
    (hm : em.roundedMantissa = 2 ^ 53) (ht : -1074 ≤ t) :
    roundWithAccuracy Format.binary64 s m₀ e₀ a = .finite s (2 ^ 52) (t + 1) (by decide) := by
  have hshift := shift_of_eq ht
  rw [← hm] at hshift
  exact roundWithAccuracy_of_shifts h hshift rfl _

/-- **Which numbers round to a double**: those of its interval, given with enough digits. -/
theorem roundWithAccuracy_eq {s : Sign} {m₀ : Nat} {e₀ : Int} {a : Accuracy} {y : ℚ}
    (hy : Meant m₀ a y) (enough : 52 ≤ m₀.log2 ∨ e₀ ≤ -1074) {m : Nat} {e : Int}
    (hc : Canonical m e) (hn : Near m e (y * 2 ^ e₀)) :
    roundWithAccuracy Format.binary64 s m₀ e₀ a = .finite s m e hc.pos := by
  obtain ⟨em, t, z, hshift, hz, hval, hlt, hmin, hnormal⟩ := exists_shift hy enough
  rw [← hval] at hn
  have hreach := reach_le m e
  have hm : (m : ℚ) + 1 ≤ 2 ^ 53 := by exact_mod_cast hc.lt
  rcases lt_trichotomy t e with hte | rfl | hte
  · -- the number lies below the least mantissa, one exponent down
    have hpos := two_zpow_pos t
    have hlow := hn.low
    have hm52 : m = 2 ^ 52 := by
      have hstep : (2 : ℚ) * 2 ^ t ≤ 2 ^ e := by
        rw [← zpow_one_add₀ (by norm_num)]
        exact zpow_le_zpow_right₀ (by norm_num) (by omega)
      have hbelow : (m : ℚ) - reach m e < 2 ^ 52 := by
        refine lt_of_mul_lt_mul_right (lt_of_le_of_lt hlow ?_) (two_zpow_pos e).le
        nlinarith
      have : (m : ℚ) < 2 ^ 52 + 1 := by linarith
      have : m < 2 ^ 52 + 1 := by exact_mod_cast this
      have := hc.normal.resolve_right (by omega)
      omega
    have hquarter : reach m e = 1 / 4 := if_pos ⟨hm52, by omega⟩
    rw [hquarter, hm52] at hlow
    push_cast at hlow
    have hte1 : t + 1 = e := by
      by_contra hne
      have hstep : (2 : ℚ) ^ 2 * 2 ^ t ≤ 2 ^ e := by
        rw [← zpow_natCast, ← zpow_add₀ (by norm_num)]
        exact zpow_le_zpow_right₀ (by norm_num) (by omega)
      nlinarith
    subst hte1 hm52
    rw [zpow_add_one₀ (by norm_num)] at hlow
    have hz53 : (2 : ℚ) ^ 53 - 1 / 2 ≤ z := by
      refine le_of_mul_le_mul_right ?_ hpos
      linarith
    refine roundWithAccuracy_of_eq hshift (hz.roundedMantissa_eq ?_ ?_ fun hodd => ?_) hmin
    · exact_mod_cast hz53
    · push_cast
      linarith
    · exact absurd hodd (by decide)
  · have hpos := two_zpow_pos t
    have low := le_of_mul_le_mul_right hn.low hpos
    have high := le_of_mul_le_mul_right hn.high hpos
    refine roundWithAccuracy_of_lt hshift (hz.roundedMantissa_eq ?_ high fun hodd => ?_) hc.pos
      hc.lt hc.least
    · linarith
    · obtain ⟨h₁, h₂⟩ := hn.inside hodd
      have h₁ := lt_of_mul_lt_mul_right h₁ hpos.le
      exact ⟨by linarith, lt_of_mul_lt_mul_right h₂ hpos.le⟩
  · -- the number is too large
    have hz52 : (2 : ℚ) ^ 52 ≤ z := hnormal.resolve_right (by have := hc.least; omega)
    have hstep : (2 : ℚ) * 2 ^ e ≤ 2 ^ t := by
      rw [← zpow_one_add₀ (by norm_num)]
      exact zpow_le_zpow_right₀ (by norm_num) (by omega)
    have hpos := two_zpow_pos e
    have hhigh := hn.high
    nlinarith

end Decimal
end CardTransfer

/-!
## Doubles by their parts

A double is its bit pattern, and `exact` reads a sign, a mantissa and an exponent off it. Here the
way back: the double with given parts is `ofParts`, and every double that `exact` calls finite and
not zero is the one with those parts (`eq_ofParts`). Zeros, infinities and the one pattern that is
not a number are what they are called, too (`eq_of_exact_zero`, `eq_of_exact_infinite`,
`eq_of_exact_notANumber`).
-/

namespace CardTransfer
namespace Decimal

open Float.Model Float.Model.UnpackedFloat

/-- The sign that a flag stands for. -/
def signOf (negative : Bool) : Sign := if negative then .negative else .positive

/-- The double `± m · 2 ^ e`. -/
def ofParts (negative : Bool) {m : Nat} {e : Int} (h : Canonical m e) : Float :=
  .ofModel (Float.Model.pack (.finite (signOf negative) m e h.pos))

/-- Doubles with the same bits are the same. -/
theorem eq_of_toBits {x y : Float} (h : x.toBits.toNat = y.toBits.toNat) : x = y := by
  obtain ⟨⟨b, hb⟩⟩ := x
  obtain ⟨⟨c, hc⟩⟩ := y
  have hbc : b = c := UInt64.toNat_inj.1 h
  subst hbc
  rfl

theorem toNat_toBitVec (negative : Bool) : (signOf negative).toBitVec.toNat = negative.toNat := by
  cases negative <;> rfl

/-- The bits of a double from its sign bit, its exponent field and its fraction. -/
theorem toNat_packComponents (negative : Bool) (field : BitVec 11) (fraction : BitVec 52) :
    (packComponents Format.binary64 (signOf negative) field fraction).toNat =
      negative.toNat * 2 ^ 63 + field.toNat * 2 ^ 52 + fraction.toNat := by
  unfold packComponents
  rw [BitVec.toNat_append, BitVec.toNat_append, ← Nat.shiftLeft_add_eq_or_of_lt field.isLt,
    ← Nat.shiftLeft_add_eq_or_of_lt fraction.isLt, toNat_toBitVec, Nat.shiftLeft_eq,
    Nat.shiftLeft_eq]
  show (negative.toNat * 2 ^ 11 + field.toNat) * 2 ^ 52 + fraction.toNat = _
  omega

/-- The exponent field of a double with a mantissa and an exponent. -/
def fieldOf (m : Nat) (e : Int) : Nat := if 2 ^ 52 ≤ m then (e + 1075).toNat else 0

theorem fieldOf_lt {m : Nat} {e : Int} (h : Canonical m e) : fieldOf m e < 2047 := by
  have := h.most
  unfold fieldOf
  split <;> omega

/-- The parts of a double are packed as its exponent field and its fraction. -/
theorem pack_finite (s : Sign) {m : Nat} {e : Int} (h : Canonical m e) :
    UnpackedFloat.pack Format.binary64 (.finite s m e h.pos) =
      packComponents Format.binary64 s (BitVec.ofNat 11 (fieldOf m e)) (BitVec.ofNat 52 m) := by
  obtain ⟨pos, hlt, least, most, normal⟩ := h
  have hbias : e + (Format.binary64.exponentBias : Int) +
      (Format.binary64.mantissaBitsWithoutImplicit : Int) = e + 1075 := by
    rw [Int.add_assoc]
    rfl
  have hsmall : ¬2 ^ Format.binary64.exponentBits ≤ (e + 1075).toNat + 1 := by
    show ¬2 ^ 11 ≤ (e + 1075).toNat + 1
    omega
  delta UnpackedFloat.pack
  simp only [hbias, if_neg hsmall, fieldOf]
  by_cases hm : 2 ^ 52 ≤ m
  · have hlog : m.log2 + 1 = Format.binary64.mantissaBits := by
      rw [(Nat.log2_eq_iff (by omega)).2 ⟨hm, hlt⟩]
      rfl
    rw [if_pos hlog, if_pos hm]
  · have hlog : m.log2 + 1 ≠ Format.binary64.mantissaBits := by
      have : m.log2 < 52 := (Nat.log2_lt (by omega)).2 (by omega)
      show m.log2 + 1 ≠ 53
      omega
    rw [if_neg hlog, if_neg hm]

/-- The bits of a double from its mantissa and its exponent. -/
theorem toBits_ofParts (negative : Bool) {m : Nat} {e : Int} (h : Canonical m e) :
    (ofParts negative h).toBits.toNat =
      negative.toNat * 2 ^ 63 + fieldOf m e * 2 ^ 52 + m % 2 ^ 52 := by
  have hfield := fieldOf_lt h
  show (UnpackedFloat.pack Format.binary64 (.finite (signOf negative) m e h.pos)).toNat = _
  rw [pack_finite _ h]
  refine (toNat_packComponents ..).trans ?_
  rw [BitVec.toNat_ofNat, BitVec.toNat_ofNat, Nat.mod_eq_of_lt (by omega)]

@[simp]
theorem unpackSign_packComponents (negative : Bool) (field : BitVec 11) (fraction : BitVec 52) :
    unpackSign (packComponents Format.binary64 (signOf negative) field fraction) =
      (signOf negative).toBitVec := by
  apply BitVec.eq_of_toNat_eq
  have hfield := field.isLt
  have hfraction := fraction.isLt
  rw [toNat_toBitVec]
  show ((packComponents Format.binary64 (signOf negative) field fraction).toNat >>> 63) % 2 ^ 1 = _
  rw [toNat_packComponents, Nat.shiftRight_eq_div_pow]
  cases negative
  · rw [Bool.toNat_false]
    omega
  · rw [Bool.toNat_true]
    omega

section

open UnpackedFloat

variable {w : BitVec 64} {field : BitVec 11} {fraction : BitVec 52} {s : Sign} {m : Nat} {e : Int}

/-- How a number is unpacked whose exponent field is neither of the ends. -/
theorem unpack_of_ne_zero (hfraction : @unpackMantissa Format.binary64 w = fraction)
    (hfield : @unpackExponent Format.binary64 w = field)
    (hsign : Sign.ofBitVec (@unpackSign Format.binary64 w) = s) (hmax : field ≠ -1#_)
    (hne : field ≠ 0#_) (hm : (1#1 ++ fraction).toNat = m) (he : (field.toNat : Int) -
      (Format.binary64.exponentBias + Format.binary64.mantissaBitsWithoutImplicit) = e) (h : 0 < m) :
    unpack Format.binary64 w = .finite s m e h := by
  subst hfraction hfield hsign hm he
  exact (if_neg hmax).trans (if_neg hne)

/-- How a number is unpacked whose exponent field is zero. -/
theorem unpack_of_eq_zero (hfraction : @unpackMantissa Format.binary64 w = fraction)
    (hfield : @unpackExponent Format.binary64 w = field)
    (hsign : Sign.ofBitVec (@unpackSign Format.binary64 w) = s) (hmax : field ≠ -1#_)
    (hzero : field = 0#_) (hne : fraction ≠ 0#_) (hm : fraction.toNat = m)
    (he : (field.toNat : Int) -
      (Format.binary64.exponentBias + Format.binary64.mantissaBitsWithoutImplicit) + 1 = e)
    (h : 0 < m) : unpack Format.binary64 w = .finite s m e h := by
  subst hfraction hfield hsign hm he
  exact (if_neg hmax).trans ((if_pos hzero).trans (dif_neg hne))

end

/-- What has been packed is unpacked. -/
theorem unpack_ofParts (negative : Bool) {m : Nat} {e : Int} (h : Canonical m e) :
    (ofParts negative h).toModel.unpack = .finite (signOf negative) m e h.pos := by
  have hsign : Sign.ofBitVec (signOf negative).toBitVec = signOf negative := by
    cases negative <;> rfl
  have hlt := fieldOf_lt h
  have hfield : (BitVec.ofNat 11 (fieldOf m e)).toNat = fieldOf m e :=
    (BitVec.toNat_ofNat ..).trans (Nat.mod_eq_of_lt (by omega))
  have hfraction : (BitVec.ofNat 52 m).toNat = m % 2 ^ 52 := BitVec.toNat_ofNat ..
  have hmax : BitVec.ofNat 11 (fieldOf m e) ≠ -1#_ := by
    intro heq
    have : fieldOf m e = 2047 := hfield.symm.trans (congrArg BitVec.toNat heq)
    omega
  obtain ⟨pos, hlt53, least, most, normal⟩ := h
  show UnpackedFloat.unpack Format.binary64 (UnpackedFloat.pack Format.binary64 _) = _
  rw [pack_finite _ ⟨pos, hlt53, least, most, normal⟩]
  by_cases hm : 2 ^ 52 ≤ m
  · have hbiased : fieldOf m e = (e + 1075).toNat := if_pos hm
    have hne : BitVec.ofNat 11 (fieldOf m e) ≠ 0#_ := by
      intro heq
      have : fieldOf m e = 0 := hfield.symm.trans (congrArg BitVec.toNat heq)
      omega
    have hmantissa : (1#1 ++ BitVec.ofNat 52 m).toNat = m := by
      rw [BitVec.toNat_append, ← Nat.shiftLeft_add_eq_or_of_lt (BitVec.isLt _), hfraction]
      show 2 ^ 52 + m % 2 ^ 52 = m
      omega
    have hexponent : (fieldOf m e : Int) - (Format.binary64.exponentBias +
        Format.binary64.mantissaBitsWithoutImplicit) = e := by
      show (fieldOf m e : Int) - 1075 = e
      omega
    exact unpack_of_ne_zero (unpackMantissa_packComponents ..) (unpackExponent_packComponents ..)
      (by rw [unpackSign_packComponents, hsign]) hmax hne hmantissa (by rw [hfield, hexponent]) _
  · have hzero : fieldOf m e = 0 := if_neg hm
    have hsame : BitVec.ofNat 11 (fieldOf m e) = 0#_ := by rw [hzero]
    have hmantissa : (BitVec.ofNat 52 m).toNat = m := by omega
    have hne : BitVec.ofNat 52 m ≠ 0#_ := by
      intro heq
      have : m = 0 := hmantissa.symm.trans (congrArg BitVec.toNat heq)
      omega
    have hexponent : (fieldOf m e : Int) - (Format.binary64.exponentBias +
        Format.binary64.mantissaBitsWithoutImplicit) + 1 = e := by
      show (fieldOf m e : Int) - 1075 + 1 = e
      omega
    exact unpack_of_eq_zero (unpackMantissa_packComponents ..) (unpackExponent_packComponents ..)
      (by rw [unpackSign_packComponents, hsign]) hmax hsame hne hmantissa (by rw [hfield, hexponent]) _

/-- The sign of a double is turned by a minus. -/
theorem neg_ofParts {m : Nat} {e : Int} (h : Canonical m e) :
    -ofParts false h = ofParts true h := by
  show Float.ofModel (Float.Model.pack (ofParts false h).toModel.unpack.neg) = _
  rw [unpack_ofParts]
  rfl

/-! ### The parts that are read -/

/-- The bits of a double, and what `exact` makes of them. -/
theorem exists_parts (x : Float) : ∃ (negative : Bool) (field fraction : Nat),
    field < 2048 ∧ fraction < 2 ^ 52 ∧
      x.toBits.toNat = negative.toNat * 2 ^ 63 + field * 2 ^ 52 + fraction ∧
      exact x = if field = 2047 then if fraction = 0 then .infinite negative else .notANumber
        else if field = 0 then .finite negative fraction (-1074)
        else .finite negative (2 ^ 52 + fraction) (field - 1075) := by
  have hlt := x.toBits.toNat_lt
  refine ⟨x.toBits.toNat / 2 ^ 63 % 2 == 1, x.toBits.toNat / 2 ^ 52 % 2048, x.toBits.toNat % 2 ^ 52,
    by omega, by omega, ?_, ?_⟩
  · obtain h | h : x.toBits.toNat / 2 ^ 63 = 0 ∨ x.toBits.toNat / 2 ^ 63 = 1 := by omega
    · rw [h]
      show _ = 0 * 2 ^ 63 + _ + _
      omega
    · rw [h]
      show _ = 1 * 2 ^ 63 + _ + _
      omega
  · unfold exact
    simp only [beq_iff_eq, Int.ofNat_eq_natCast, show Nat.pow 2 63 = 2 ^ 63 from rfl,
      show Nat.pow 2 52 = 2 ^ 52 from rfl]

/-- **A finite double is the one with its parts.** -/
theorem eq_ofParts {x : Float} {negative : Bool} {m : Nat} {e : Int}
    (h : exact x = .finite negative m e) (hm : 0 < m) :
    ∃ hc : Canonical m e, x = ofParts negative hc := by
  obtain ⟨n, field, fraction, hfield, hfraction, hbits, hexact⟩ := exists_parts x
  rw [hexact] at h
  split at h
  · split at h <;> cases h
  · split at h
    · cases h
      refine ⟨⟨hm, by omega, le_refl _, by decide, .inr rfl⟩, eq_of_toBits ?_⟩
      rw [hbits, toBits_ofParts, fieldOf, if_neg (by omega)]
      omega
    · cases h
      have hbig : 2 ^ 52 ≤ 2 ^ 52 + fraction := by omega
      refine ⟨⟨hm, by omega, by omega, by omega, .inl hbig⟩, eq_of_toBits ?_⟩
      rw [hbits, toBits_ofParts, fieldOf, if_pos hbig]
      omega

/-- A zero is positive or negative. -/
theorem eq_of_exact_zero {x : Float} {negative : Bool} {e : Int}
    (h : exact x = .finite negative 0 e) : x = if negative then -0.0 else 0.0 := by
  obtain ⟨n, field, fraction, -, -, hbits, hexact⟩ := exists_parts x
  apply eq_of_toBits
  rw [hexact] at h
  split at h
  · split at h <;> cases h
  · split at h
    · rename_i hzero
      cases h
      rw [hbits, hzero]
      cases negative <;> decide +kernel
    · injection h
      omega

/-- An infinity is positive or negative. -/
theorem eq_of_exact_infinite {x : Float} {negative : Bool} (h : exact x = .infinite negative) :
    x = infinity negative := by
  obtain ⟨n, field, fraction, -, -, hbits, hexact⟩ := exists_parts x
  apply eq_of_toBits
  rw [hexact] at h
  split at h
  · rename_i hmax
    split at h
    · rename_i hzero
      cases h
      rw [hbits, hmax, hzero]
      cases negative <;> decide +kernel
    · cases h
  · split at h <;> cases h

/-- Only one bit pattern is not a number. -/
theorem eq_of_exact_notANumber {x : Float} (h : exact x = .notANumber) : x = 0.0 / 0.0 := by
  obtain ⟨n, field, fraction, hfield, hfraction, hbits, hexact⟩ := exists_parts x
  rw [hexact] at h
  split at h
  · rename_i hmax
    split at h
    · cases h
    · rename_i hzero
      have hexponent :
          (unpackExponent x.toModel.toBits.toBitVec : BitVec Format.binary64.exponentBits) = -1#_ := by
        apply BitVec.eq_of_toNat_eq
        show x.toBits.toNat >>> 52 % 2 ^ 11 = 2047
        rw [Nat.shiftRight_eq_div_pow]
        omega
      have hmantissa : (unpackMantissa x.toModel.toBits.toBitVec :
          BitVec Format.binary64.mantissaBitsWithoutImplicit) ≠ 0#_ := by
        intro heq
        have : x.toBits.toNat >>> 0 % 2 ^ 52 = 0 := congrArg BitVec.toNat heq
        rw [Nat.shiftRight_zero] at this
        omega
      have hvalid := x.toModel.valid.eq_packedNaN hexponent hmantissa
      apply eq_of_toBits
      refine (congrArg BitVec.toNat hvalid).trans ?_
      decide +kernel
  · split at h <;> cases h

end Decimal
end CardTransfer
