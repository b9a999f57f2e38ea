/-!
# Units of 16 bits

Escapes in texts name characters by units of 16 bits. A character beyond 65535 is a pair of units,
a first half and a second half:

| unit | what it is |
| --- | --- |
| 0 – 55295, 57344 – 65535 | the character with that code point |
| 55296 – 56319 | the first half of a pair |
| 56320 – 57343 | the second half of a pair |

A half that stands alone names no character. It is kept as the character that lies 2 ^ 20 code
points above it, at 1103872 – 1105919 in the last private plane, so that it is written as the same
unit again.
-/

namespace CardTransfer
namespace Text

/-- First halves of pairs. -/
def isFirstHalf (unit : Nat) : Bool := 55296 ≤ unit && unit < 56320

/-- Second halves of pairs. -/
def isSecondHalf (unit : Nat) : Bool := 56320 ≤ unit && unit < 57344

/-- The character of a pair. -/
def charOfPair (first second : Nat) : Char :=
  Char.ofNat (65536 + (first - 55296) * 1024 + (second - 56320))

/-- How far above itself a half that stands alone is kept. -/
def halfOffset : Nat := 1048576

/-- The character that stands for a unit on its own. -/
def charOfUnit (unit : Nat) : Char :=
  if isFirstHalf unit || isSecondHalf unit then Char.ofNat (unit + halfOffset) else Char.ofNat unit

/-- The half that a character stands for. -/
def half? (c : Char) : Option Nat :=
  if 1103872 ≤ c.toNat ∧ c.toNat < 1105920 then some (c.toNat - halfOffset) else none

/-- The units of a character: one, or a pair. -/
def unitsOf (c : Char) : List Nat :=
  match half? c with
  | some unit => [unit]
  | none =>
    if c.toNat < 65536 then [c.toNat]
    else
      let n := c.toNat - 65536
      [55296 + n / 1024, 56320 + n % 1024]

theorem toNat_ofNat_of_valid {n : Nat} (h : n.isValidChar) : (Char.ofNat n).toNat = n := by
  unfold Char.ofNat
  rw [dif_pos h]
  rfl

theorem half?_eq_some_iff {c : Char} {unit : Nat} :
    half? c = some unit ↔ 55296 ≤ unit ∧ unit < 57344 ∧ c.toNat = unit + halfOffset := by
  unfold half?
  rw [Option.ite_none_right_eq_some, Option.some.injEq]
  unfold halfOffset
  omega

/-- A half that stands alone is kept. -/
theorem half?_charOfUnit {unit : Nat} (h : (isFirstHalf unit || isSecondHalf unit) = true) :
    half? (charOfUnit unit) = some unit := by
  have hb : 55296 ≤ unit ∧ unit < 57344 := by
    simp only [isFirstHalf, isSecondHalf, Bool.or_eq_true, Bool.and_eq_true,
      decide_eq_true_eq] at h
    omega
  have hv : (unit + halfOffset).isValidChar := by
    unfold halfOffset Nat.isValidChar
    omega
  have hc : charOfUnit unit = Char.ofNat (unit + halfOffset) := if_pos h
  rw [half?_eq_some_iff, hc, toNat_ofNat_of_valid hv]
  exact ⟨hb.1, hb.2, rfl⟩

end Text
end CardTransfer
