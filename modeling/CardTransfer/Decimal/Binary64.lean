/-!
# Doubles as exact numbers

A double is not a number, an infinity, or `± m · 2 ^ e` with whole `m` and `e`. This module reads
that form off the bit pattern, compares doubles with whole numbers exactly, and rounds a decimal
`m · 10 ^ e` to the nearest double.

| bits | field | meaning |
| --- | --- | --- |
| 63 | sign | 1 for negative |
| 62 – 52 | exponent `x` | 0: `m = f`, `e = -1074`; 2047: infinity or not a number |
| 51 – 0 | fraction `f` | otherwise `m = 2 ^ 52 + f`, `e = x - 1075` |
-/

namespace CardTransfer
namespace Decimal

/-- What a double stands for. -/
inductive Exact where
  | notANumber
  | infinite (negative : Bool)
  | finite (negative : Bool) (mantissa : Nat) (exponent : Int)
  deriving DecidableEq, Repr

/-- The number that a double stands for. -/
def exact (x : Float) : Exact :=
  let bits := x.toBits.toNat
  let negative := bits / Nat.pow 2 63 % 2 == 1
  let field := bits / Nat.pow 2 52 % 2048
  let fraction := bits % Nat.pow 2 52
  if field == 2047 then
    if fraction == 0 then .infinite negative else .notANumber
  else if field == 0 then .finite negative fraction (-1074)
  else .finite negative (Nat.pow 2 52 + fraction) (Int.ofNat field - 1075)

/-- `m` with its sign. -/
def signed (negative : Bool) (m : Nat) : Int := if negative then -(Int.ofNat m) else Int.ofNat m

/-- Order of a whole number and a double, exact at every size; none if the double is not a
number. -/
def compareInt (n : Int) (x : Float) : Option Ordering :=
  match exact x with
  | .notANumber => none
  | .infinite negative => some (if negative then .gt else .lt)
  | .finite negative m e =>
    let v := signed negative m
    some <| if e ≥ 0 then compare n (v * Int.pow 2 e.toNat) else compare (n * Int.pow 2 (-e).toNat) v

/-- Order of two doubles; none if one of them is not a number. -/
def compareFloat (x y : Float) : Option Ordering :=
  if x < y then some .lt else if x == y then some .eq else if y < x then some .gt else none

/-- The whole part of a finite double, toward zero. -/
def truncate? (x : Float) : Option Int :=
  match exact x with
  | .finite negative m e =>
    some (signed negative (if e ≥ 0 then m * Nat.pow 2 e.toNat else m / Nat.pow 2 (-e).toNat))
  | _ => none

/-- The least whole number that is not below a finite double. -/
def ceiling? (x : Float) : Option Int :=
  match exact x with
  | .finite negative m e =>
    let v := signed negative m
    some (if e ≥ 0 then v * Int.pow 2 e.toNat else -((-v) / Int.pow 2 (-e).toNat))
  | _ => none

/-- The infinity of a sign. -/
def infinity (negative : Bool) : Float := if negative then -1.0 / 0.0 else 1.0 / 0.0

/-- The double nearest to `± m · 10 ^ e`. Beyond 400 places the answer is infinity or zero,
whatever the digits. -/
def nearest (negative : Bool) (m : Nat) (e : Int) : Float :=
  let places : Int := Int.ofNat (Nat.toDigits 10 m).length + e
  let magnitude : Float :=
    if m == 0 then 0.0
    else if places > 400 then 1.0 / 0.0
    else if places < -400 then 0.0
    else if e ≥ 0 then Float.ofScientific m false e.toNat
    else Float.ofScientific m true (-e).toNat
  if negative then -magnitude else magnitude

/-- The double nearest to a whole number; none if it is too large to be finite. -/
def ofInt? (n : Int) : Option Float :=
  let x := nearest (n < 0) n.natAbs 0
  match exact x with
  | .finite .. => some (if n == 0 then 0.0 else x)
  | _ => none

end Decimal
end CardTransfer

/-!
## Whole percentages

A share is shown as a whole percentage: the double is multiplied by 100, as doubles are, and the
exact value of the product is rounded to a whole number, a half to the even neighbour.
-/

namespace CardTransfer
namespace Decimal

/-- `num / den` rounded to a whole number, a half to the even neighbour. -/
def roundHalfEven (num den : Nat) : Nat :=
  let q := num / den
  let twice := 2 * (num % den)
  if twice < den then q else if den < twice then q + 1 else if q % 2 == 0 then q else q + 1

/-- Rounding moves a quotient by at most a half. -/
theorem roundHalfEven_near (num : Nat) {den : Nat} (h : 0 < den) :
    2 * num ≤ 2 * (roundHalfEven num den * den) + den ∧
      2 * (roundHalfEven num den * den) ≤ 2 * num + den := by
  have split := Nat.div_add_mod num den
  have comm : num / den * den = den * (num / den) := Nat.mul_comm _ _
  have small := Nat.mod_lt num h
  unfold roundHalfEven
  simp only []
  split
  · omega
  · split
    · rw [Nat.add_mul]; omega
    · split
      · omega
      · rw [Nat.add_mul]; omega

/-- A share as a whole percentage. -/
def percent (share : Float) : String :=
  match exact (share * 100.0) with
  | .notANumber => "nan%"
  | .infinite negative => if negative then "-inf%" else "inf%"
  | .finite negative m e =>
    let whole := if e ≥ 0 then m * Nat.pow 2 e.toNat else roundHalfEven m (Nat.pow 2 (-e).toNat)
    (if negative then "-" else "") ++ String.ofList (Nat.toDigits 10 whole) ++ "%"

end Decimal
end CardTransfer
