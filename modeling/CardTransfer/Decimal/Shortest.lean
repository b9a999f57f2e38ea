import CardTransfer.Decimal.Binary64

/-!
# The shortest decimal that reads back

Among the decimals that round to a double, the text of the double has the fewest digits; of
several with that many digits it is the one nearest to the double, and of two equally near the one
with an even last digit.

The reals that round to `m · 2 ^ e` are an interval around it: half a step up, and half a step
down, or a quarter where `m` is a power of two and the step below is half as wide. The ends belong
to it exactly when `m` is even. A grid of decimals meets the interval only if one of the two grid
points around the double does, so for each number of digits two candidates are tried.

The digits are then laid out by a `Layout`.
-/

namespace CardTransfer
namespace Decimal

/-- A positive number `digits · 10 ^ exponent`. -/
structure Scaled where
  digits : Nat
  exponent : Int
  deriving DecidableEq, Repr

/-- `num / den < 10 ^ k`. -/
def belowPower (num den : Nat) (k : Int) : Bool :=
  if k ≥ 0 then num < den * Nat.pow 10 k.toNat else num * Nat.pow 10 (-k).toNat < den

/-- The least `k` from `start` on with `num / den < 10 ^ k`, searched over `steps` values. -/
def magnitudeFrom (num den : Nat) : Nat → Int → Int
  | 0, k => k
  | steps + 1, k => if belowPower num den k then k else magnitudeFrom num den steps (k + 1)

/-- Of the two decimals with `n` digits around `num / den`, the one that lies in the interval from
`low / den` to `high / den`; the nearer one if both do. `k` is the magnitude of `num / den`. -/
def candidate (num den low high : Nat) (closed : Bool) (k : Int) (n : Nat) : Option Scaled :=
  let e : Int := k - Int.ofNat n
  -- all four numbers in units of 10 ^ e
  let up : Nat := if e ≥ 0 then 1 else Nat.pow 10 (-e).toNat
  let unit : Nat := if e ≥ 0 then den * Nat.pow 10 e.toNat else den
  let (num, low, high) := (num * up, low * up, high * up)
  let d := num / unit
  let inside (d : Nat) : Bool :=
    let v := d * unit
    if closed then low ≤ v && v ≤ high else low < v && v < high
  let below := num - d * unit
  let above := (d + 1) * unit - num
  match inside d, inside (d + 1) with
  | true, true =>
    if below < above || (below == above && d % 2 == 0) then some ⟨d, e⟩ else some ⟨d + 1, e⟩
  | true, false => some ⟨d, e⟩
  | false, true => some ⟨d + 1, e⟩
  | false, false => none

/-- The shortest decimal for `m · 2 ^ e`, where `m > 0`. -/
def shortestOf (m : Nat) (e : Int) : Scaled :=
  let narrow := m == Nat.pow 2 52 && e > -1074
  -- the value and the ends of its interval over one denominator, in quarter steps
  let scale : Nat := if e ≥ 2 then Nat.pow 2 (e - 2).toNat else 1
  let den : Nat := if e ≥ 2 then 1 else Nat.pow 2 (2 - e).toNat
  let num := 4 * m * scale
  let low := (4 * m - if narrow then 1 else 2) * scale
  let high := (4 * m + 2) * scale
  let k := magnitudeFrom num den 700 (-330)
  match (List.range 17).findSome? fun n => candidate num den low high (m % 2 == 0) k (n + 1) with
  | some s => s
  | none => ⟨m, 0⟩

/-- Digits without the zeros at their end. -/
def Scaled.normal (s : Scaled) : List Char × Int :=
  let digits := Nat.toDigits 10 s.digits
  let kept := (digits.reverse.dropWhile (· == '0')).reverse
  (kept, s.exponent + Int.ofNat (digits.length - kept.length))

/-- How the digits of a number are set out. -/
structure Layout where
  /-- Least power of ten of the first digit that is written without an exponent. -/
  firstPositional : Int
  /-- Largest power of ten of the first digit that is written without an exponent. -/
  lastPositional : Int
  /-- Least number of digits of an exponent. -/
  exponentWidth : Nat
  /-- What a whole number ends with. -/
  wholeMark : String
  infinite : String
  notANumber : String

/-- Digits of an exponent, with its sign. -/
def exponentText (width : Nat) (p : Int) : String :=
  let digits := Nat.toDigits 10 p.natAbs
  let padded := List.replicate (width - digits.length) '0' ++ digits
  (if p < 0 then "e-" else "e+") ++ String.ofList padded

/-- The digits `ds`, the first of which counts powers of ten `p`, set out. -/
def Layout.place (l : Layout) (ds : List Char) (p : Int) : String :=
  if l.firstPositional ≤ p && p ≤ l.lastPositional then
    if p < 0 then
      "0." ++ String.ofList (List.replicate (-p - 1).toNat '0' ++ ds)
    else
      let whole := p.toNat + 1
      if ds.length ≤ whole then
        String.ofList (ds ++ List.replicate (whole - ds.length) '0') ++ l.wholeMark
      else
        String.ofList (ds.take whole) ++ "." ++ String.ofList (ds.drop whole)
  else
    let tail := ds.drop 1
    String.ofList (ds.take 1) ++ (if tail.isEmpty then "" else "." ++ String.ofList tail) ++
      exponentText l.exponentWidth p

/-- The text of a double. -/
def Layout.write (l : Layout) (x : Float) : String :=
  match exact x with
  | .notANumber => l.notANumber
  | .infinite negative => (if negative then "-" else "") ++ l.infinite
  | .finite negative m e =>
    let sign := if negative then "-" else ""
    if m == 0 then sign ++ "0" ++ l.wholeMark
    else
      let (ds, low) := (shortestOf m e).normal
      sign ++ l.place ds (low + Int.ofNat ds.length - 1)

end Decimal
end CardTransfer
