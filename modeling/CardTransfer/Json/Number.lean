import CardTransfer.Decimal.Binary64
import CardTransfer.Json.Basic

/-!
# Numbers in documents

A number is an integer or a double. Integers among themselves are exact; as soon as a double takes
part the result is a double. Comparison is always exact, also between the two kinds.
-/

namespace CardTransfer

/-- An integer or a double. -/
inductive Number where
  | int (n : Int)
  | float (x : Float)
  deriving Inhabited, Repr

namespace Number

/-- The number as a document value. -/
def toJson : Number → Json
  | int n => .int n
  | float x => .float x

/-- The nearest double; an infinity where the integer is out of range. -/
def toFloat : Number → Float
  | int n => (Decimal.ofInt? n).getD (Decimal.infinity (n < 0))
  | float x => x

/-- Sum: exact for integers, rounded where a double takes part. -/
def add : Number → Number → Number
  | int m, int n => int (m + n)
  | a, b => float (a.toFloat + b.toFloat)

/-- Product: exact for integers, rounded where a double takes part. -/
def mul : Number → Number → Number
  | int m, int n => int (m * n)
  | a, b => float (a.toFloat * b.toFloat)

/-- Order of two numbers; none if one of them is not a number. -/
def compare : Number → Number → Option Ordering
  | int m, int n => some (Ord.compare m n)
  | int m, float y => Decimal.compareInt m y
  | float x, int n => (Decimal.compareInt n x).map Ordering.swap
  | float x, float y => Decimal.compareFloat x y

/-- `a < b`. -/
def lt (a b : Number) : Bool := a.compare b == some .lt

/-- `a ≥ b`. -/
def ge (a b : Number) : Bool := a.compare b == some .gt || a.compare b == some .eq

/-- Equal as numbers, so that `1` and `1.0` are the same. -/
def same (a b : Number) : Bool := a.compare b == some .eq

end Number

/-- The number that a value is; `true` and `false` count as 1 and 0. -/
def Json.number? : Json → Option Number
  | .int n => some (.int n)
  | .bool b => some (.int (if b then 1 else 0))
  | .float x => some (.float x)
  | _ => none

end CardTransfer

/-!
## Equality of documents

Two documents are equal when their parts are: numbers by their value however written, with `true`
and `false` counted as 1 and 0, lists item by item, objects key by key whatever the order.
-/

namespace CardTransfer
namespace Json

/-- Whether a value is the number `a`. -/
def sameNumber (a : Number) (w : Json) : Bool :=
  match w.number? with
  | some b => a.same b
  | none => false

mutual

/-- Equality of documents. -/
def same : Json → Json → Bool
  | .null, .null => true
  | .str s, .str t => s == t
  | .arr xs, .arr ys => sameItems xs ys
  | .obj ms, .obj ns => ms.length == ns.length && sameMembers ms ns
  | .bool b, w => sameNumber (.int (if b then 1 else 0)) w
  | .int n, w => sameNumber (.int n) w
  | .float x, w => sameNumber (.float x) w
  | .moment s _, .moment t _ => s == t
  | _, _ => false

/-- Equality of lists, item by item. -/
def sameItems : List Json → List Json → Bool
  | [], [] => true
  | x :: xs, y :: ys => same x y && sameItems xs ys
  | _, _ => false

/-- Whether every member of the first object is a member of the second. -/
def sameMembers : List (String × Json) → List (String × Json) → Bool
  | [], _ => true
  | (k, v) :: ms, ns =>
    (match Members.get? ns k with
      | some w => same v w
      | none => false) && sameMembers ms ns

end

end Json
end CardTransfer
