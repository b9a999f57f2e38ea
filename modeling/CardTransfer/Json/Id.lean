import CardTransfer.Json.Number
import CardTransfer.Sorting

/-!
# Ids

Cards, tables, fields and databases are named by ids. An id is a value of a document, nearly always
an integer, and two ids are the same when they are equal as numbers or as texts: `5`, `5.0` name
one thing, and so do `1` and `true`. `Json.key` is what an id is, apart from how it is written;
lists, sets and maps of ids compare keys and keep the spelling that came first.
-/

namespace CardTransfer

/-- What an id is, apart from how it is written. -/
inductive Key where
  | null
  | whole (n : Int)
  | fraction (bits : Nat)
  | text (s : String)
  | moment (s : String)
  | compound
  deriving DecidableEq, Repr

namespace Json

/-- The key of an id: whole numbers by their value, however written. -/
def key : Json → Key
  | null => .null
  | bool b => .whole (if b then 1 else 0)
  | int n => .whole n
  | float x =>
    match Decimal.truncate? x with
    | some n => if Decimal.compareInt n x == some .eq then .whole n else .fraction x.toBits.toNat
    | none => .fraction x.toBits.toNat
  | str s => .text s
  | arr _ => .compound
  | obj _ => .compound
  | moment s _ => .moment s

/-- Two ids that name the same thing. -/
def sameId (a b : Json) : Bool := a.key == b.key

theorem sameId_iff (a b : Json) : a.sameId b = true ↔ a.key = b.key := by simp [sameId]

@[simp] theorem sameId_refl (a : Json) : a.sameId a = true := by simp [sameId]

@[simp] theorem key_int (n : Int) : (Json.int n).key = .whole n := rfl

end Json

/-- Ids in the order of their first appearance. -/
abbrev Ids := List Json

namespace Ids

/-- Whether the thing is among those named. -/
def has (ids : Ids) (a : Json) : Bool := ids.any (·.sameId a)

/-- Adds an id at the end unless its thing is named already. -/
def add (ids : Ids) (a : Json) : Ids := if ids.has a then ids else ids ++ [a]

/-- The ids in turn, each thing once, by its first spelling. -/
def distinct (ids : Ids) : Ids := ids.foldl add []

/-- The ids whose things are not named in `others`. -/
def without (ids others : Ids) : Ids := ids.filter fun a => !others.has a

/-- Whether every thing named here is named there too. -/
def within (ids others : Ids) : Bool := ids.all others.has

theorem has_iff (ids : Ids) (a : Json) : ids.has a = true ↔ ∃ b ∈ ids, b.key = a.key := by
  simp [has, Json.sameId]

theorem has_add (ids : Ids) (a b : Json) : (ids.add a).has b = (ids.has b || a.sameId b) := by
  unfold add
  by_cases h : ids.has a = true
  · rw [if_pos h]
    by_cases e : a.sameId b = true
    · rw [e, Bool.or_true]
      obtain ⟨c, hc, hk⟩ := (has_iff ids a).1 h
      exact (has_iff ids b).2 ⟨c, hc, hk.trans ((Json.sameId_iff a b).1 e)⟩
    · simp [e]
  · rw [if_neg h]
    simp [has, List.any_append]

mutual

/-- The order of ids: numbers by size, texts character by character, lists item by item; none
between other ids. -/
def order? : Json → Json → Option Ordering
  | .str s, .str t => some (compare s t)
  | .arr as, .arr bs => orderItems? as bs
  | a, b => do (← a.number?).compare (← b.number?)

/-- The order of lists: that of the first items that differ; a list comes before a longer one that
starts with it. -/
def orderItems? : List Json → List Json → Option Ordering
  | [], [] => some .eq
  | [], _ :: _ => some .lt
  | _ :: _, [] => some .gt
  | a :: as, b :: bs => if a.same b then orderItems? as bs else order? a b

end

/-- Whether a list of ids has an order: at most one, or all of them numbers, or all texts. -/
def sortable (ids : Ids) : Bool :=
  ids.length ≤ 1 || ids.all (·.number?.isSome) || ids.all (·.str?.isSome)

/-- `a` does not come after `b`. -/
def le (a b : Json) : Bool := order? a b != some .gt

/-- The ids in increasing order, for ids that have one. -/
def sorted (ids : Ids) : Ids := Sorting.sort le ids

theorem mem_sorted {ids : Ids} {a : Json} : a ∈ ids.sorted ↔ a ∈ ids :=
  Sorting.mem_sort

@[simp] theorem length_sorted (ids : Ids) : ids.sorted.length = ids.length :=
  Sorting.length_sort le ids

end Ids

/-- A map keyed by ids, in the order in which its keys first appeared. -/
abbrev IdMap (α : Type) := List (Json × α)

namespace IdMap

variable {α : Type}

/-- The value for an id. -/
def get? (m : IdMap α) (a : Json) : Option α := (m.find? (·.1.sameId a)).map (·.2)

/-- Whether an id has a value. -/
def has (m : IdMap α) (a : Json) : Bool := (m.get? a).isSome

/-- The ids that have a value. -/
def ids (m : IdMap α) : Ids := m.map (·.1)

/-- Gives an id a value: in place if it has one, at the end if not. -/
def insert (m : IdMap α) (a : Json) (v : α) : IdMap α :=
  match m with
  | [] => [(a, v)]
  | (b, old) :: rest => if b.sameId a then (b, v) :: rest else (b, old) :: insert rest a v

/-- Takes the value of an id away. -/
def erase (m : IdMap α) (a : Json) : IdMap α := m.filter fun p => !p.1.sameId a

/-- The map of pairs read in turn, the last value for an id winning. -/
def ofList (pairs : List (Json × α)) : IdMap α :=
  pairs.foldl (fun m p => insert m p.1 p.2) []

@[simp] theorem get?_nil (a : Json) : get? ([] : IdMap α) a = none := rfl

/-- After an insertion the id has the new value and every other id what it had. -/
theorem get?_insert (m : IdMap α) (a b : Json) (v : α) :
    (insert m a v).get? b = if a.sameId b then some v else m.get? b := by
  induction m with
  | nil =>
    unfold insert get?
    by_cases h : a.sameId b = true <;> simp [h]
  | cons p m ih =>
    obtain ⟨c, old⟩ := p
    unfold insert
    unfold get? at ih ⊢
    by_cases h : c.sameId a = true
    · have hc : c.sameId b = a.sameId b := by
        have hk := (Json.sameId_iff c a).1 h
        simp only [Json.sameId, hk]
      by_cases hb : a.sameId b = true <;> simp [h, hb, hc]
    · have hf : c.sameId a = false := by simpa using h
      by_cases hb : c.sameId b = true
      · have hne : a.sameId b = false := by
          rw [Bool.eq_false_iff]
          intro e
          apply h
          rw [Json.sameId_iff] at hb e ⊢
          rw [hb, e]
        simp [hf, hb, hne]
      · have hbf : c.sameId b = false := by simpa using hb
        simp only [hf, hbf, Bool.false_eq_true, ↓reduceIte, List.find?_cons]
        exact ih

end IdMap
end CardTransfer
