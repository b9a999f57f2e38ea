/-!
# JSON values

Cards, schemas and stored rows are JSON documents that pass through the tool, most of them
unread. The value type therefore keeps what a document can show: the order of the members of an
object, and whether a number was written as an integer or with a fraction or exponent. Integers
have no bound; all other numbers are doubles.

An object lists its members in the order of their first appearance, each key once.

Settings may hold dates and points in time besides, which have no spelling of their own in JSON.
-/

namespace CardTransfer

/-- A JSON document. -/
inductive Json where
  | null
  | bool (b : Bool)
  | int (n : Int)
  | float (x : Float)
  | str (s : String)
  | arr (items : List Json)
  | obj (members : List (String × Json))
  /-- A date, or a point in time if it is `timed`, by the text that shows it. -/
  | moment (text : String) (timed : Bool)
  deriving Inhabited, Repr

/-- The members of an object in order. -/
abbrev Members := List (String × Json)

namespace Members

/-- The value under a key. -/
def get? (ms : Members) (key : String) : Option Json := ms.lookup key

/-- Puts a value under a key: in place if the key is there, at the end if not. -/
def insert (ms : Members) (key : String) (v : Json) : Members :=
  match ms with
  | [] => [(key, v)]
  | (k, old) :: rest => if k == key then (k, v) :: rest else (k, old) :: insert rest key v

/-- Takes a key out. -/
def erase (ms : Members) (key : String) : Members := ms.filter (·.1 != key)

/-- Members from pairs read in turn, the last value for a key winning. -/
def ofList (pairs : List (String × Json)) : Members :=
  pairs.foldl (fun ms p => ms.insert p.1 p.2) []

/-- The value just put under a key is the one found there. -/
@[simp] theorem get?_insert_self (ms : Members) (key : String) (v : Json) :
    (ms.insert key v).get? key = some v := by
  induction ms with
  | nil => simp [insert, get?]
  | cons m ms ih =>
    obtain ⟨k, old⟩ := m
    unfold get? at ih ⊢
    unfold insert
    by_cases h : k = key
    · simp [h]
    · have hb : (key == k) = false := beq_eq_false_iff_ne.2 (Ne.symm h)
      simp [List.lookup_cons, h, hb, ih]

/-- Other keys keep their values. -/
theorem get?_insert_of_ne (ms : Members) {key other : String} (v : Json) (h : other ≠ key) :
    (ms.insert key v).get? other = ms.get? other := by
  have hb : (other == key) = false := beq_eq_false_iff_ne.2 h
  induction ms with
  | nil => simp [insert, get?, List.lookup_cons, hb]
  | cons m ms ih =>
    obtain ⟨k, old⟩ := m
    unfold get? at ih ⊢
    unfold insert
    by_cases hk : k = key
    · subst hk
      simp [List.lookup_cons, hb]
    · simp [List.lookup_cons, hk, ih]

/-- Putting back the value found under a key changes nothing. -/
theorem insert_eq_self {ms : Members} {key : String} {v : Json} (h : ms.get? key = some v) :
    ms.insert key v = ms := by
  induction ms with
  | nil => simp [get?] at h
  | cons m ms ih =>
    obtain ⟨k, w⟩ := m
    unfold get? at ih h
    unfold insert
    by_cases e : k = key
    · subst e
      simpa using h.symm
    · have hb : (key == k) = false := beq_eq_false_iff_ne.2 (Ne.symm e)
      simp only [List.lookup_cons, hb] at h
      simp [e, ih h]

end Members

namespace Json

/-- Whether a condition takes the value for true: not null, false, zero, or empty. -/
def truthy : Json → Bool
  | null => false
  | bool b => b
  | int n => n != 0
  | float x => x != 0.0
  | str s => !s.isEmpty
  | arr items => !items.isEmpty
  | obj ms => !ms.isEmpty
  | moment .. => true

/-- The members of an object; none for any other value. -/
def members? : Json → Option Members
  | obj ms => some ms
  | _ => none

/-- The value itself unless a condition takes it for false. -/
def orElse (v fallback : Json) : Json := if v.truthy then v else fallback

/-- Null for nothing. -/
def ofOption : Option Json → Json
  | some v => v
  | none => null

/-- Nothing for null. -/
def toOption : Json → Option Json
  | null => none
  | v => some v

/-- The integer that a value is; `true` and `false` count as 1 and 0. -/
def int? : Json → Option Int
  | int n => some n
  | bool b => some (if b then 1 else 0)
  | _ => none

/-- Whether a value is an integer, `true` and `false` included. -/
def isInt (v : Json) : Bool := v.int?.isSome

/-- The text that a value is. -/
def str? : Json → Option String
  | str s => some s
  | _ => none

/-- Lists and objects have parts; they cannot serve as ids. -/
def isCompound : Json → Bool
  | arr _ => true
  | obj _ => true
  | _ => false

end Json
end CardTransfer
