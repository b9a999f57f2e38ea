import CardTransfer.Json.Access

/-!
# Clauses

The clauses of a structured query are lists that name an operation and its arguments, such as
`["and", ["=", ["field", 55, null], 5], …]`. A clause is read as a tree:

| document | clause |
| --- | --- |
| a list from `"field"` or `"field-id"` on, whose next item is neither a list nor an object | a field |
| any other list from a text on | an operation with its arguments |
| any other list | a list of clauses |
| anything else | a literal |

A field may carry options, an object right after its id; among them `source-field` names another
field. `toJson` writes the document that was read (`toJson_ofJson`).
-/

namespace CardTransfer

/-- The two operations that name a field. -/
inductive FieldOp where
  | field
  | fieldId
  deriving DecidableEq, Repr

namespace FieldOp

/-- The operation in a document. -/
def text : FieldOp → String
  | field => "field"
  | fieldId => "field-id"

/-- The operation of a name. -/
def ofText? (s : String) : Option FieldOp :=
  if s = "field" then some field else if s = "field-id" then some fieldId else none

/-- An operation is found under its own name only. -/
theorem eq_text_of_ofText? {s : String} {op : FieldOp} (h : ofText? s = some op) : op.text = s := by
  unfold ofText? at h
  split at h
  · rename_i hs
    cases h
    exact hs.symm
  · split at h
    · rename_i hs
      cases h
      exact hs.symm
    · cases h

end FieldOp

/-- A clause of a structured query. -/
inductive Clause where
  | literal (value : Json)
  | field (op : FieldOp) (id : Json) (rest : List Json)
  | operation (name : String) (args : List Clause)
  | list (items : List Clause)
  deriving Inhabited

namespace Clause

/-- The field that a list from a text on names. -/
def fieldOf? (name : String) (args : List Json) : Option (FieldOp × Json × List Json) :=
  match FieldOp.ofText? name, args with
  | some op, id :: rest => if id.isCompound then none else some (op, id, rest)
  | _, _ => none

mutual

/-- The clause that a document describes. -/
def ofJson : Json → Clause
  | .arr (.str name :: args) =>
    match fieldOf? name args with
    | some (op, id, rest) => .field op id rest
    | none => .operation name (ofItems args)
  | .arr items => .list (ofItems items)
  | v => .literal v

/-- The clauses that the items of a list describe. -/
def ofItems : List Json → List Clause
  | [] => []
  | v :: vs => ofJson v :: ofItems vs

end

mutual

/-- A clause as a document. -/
def toJson : Clause → Json
  | literal v => v
  | field op id rest => .arr (.str op.text :: id :: rest)
  | operation name args => .arr (.str name :: toItems args)
  | list items => .arr (toItems items)

/-- Clauses as the items of a list. -/
def toItems : List Clause → List Json
  | [] => []
  | c :: cs => toJson c :: toItems cs

end

/-- A list that names a field is the list of its parts. -/
theorem eq_of_fieldOf? {name : String} {args rest : List Json} {op : FieldOp} {id : Json}
    (h : fieldOf? name args = some (op, id, rest)) : op.text = name ∧ args = id :: rest := by
  unfold fieldOf? at h
  split at h
  · rename_i ho
    split at h
    · cases h
    · simp only [Option.some.injEq, Prod.mk.injEq] at h
      obtain ⟨rfl, rfl, rfl⟩ := h
      exact ⟨FieldOp.eq_text_of_ofText? ho, rfl⟩
  · cases h

mutual

/-- A clause is written as it was read. -/
theorem toJson_ofJson : ∀ v : Json, toJson (ofJson v) = v
  | .arr (.str name :: args) => by
    unfold ofJson
    split
    · rename_i op id rest h
      obtain ⟨hop, rfl⟩ := eq_of_fieldOf? h
      simp [toJson, hop]
    · simp [toJson, toItems_ofItems args]
  | .arr [] => by simp [ofJson, ofItems, toJson, toItems]
  | .arr (.null :: vs) => by simp [ofJson, ofItems, toJson, toItems, toItems_ofItems vs]
  | .arr (.bool b :: vs) => by simp [ofJson, ofItems, toJson, toItems, toItems_ofItems vs]
  | .arr (.int n :: vs) => by simp [ofJson, ofItems, toJson, toItems, toItems_ofItems vs]
  | .arr (.float x :: vs) => by simp [ofJson, ofItems, toJson, toItems, toItems_ofItems vs]
  | .arr (.arr xs :: vs) => by
    have h := toItems_ofItems (.arr xs :: vs)
    simp [ofJson, toJson, h]
  | .arr (.obj ms :: vs) => by
    have h := toItems_ofItems (.obj ms :: vs)
    simp [ofJson, toJson, h]
  | .arr (.moment s timed :: vs) => by simp [ofJson, ofItems, toJson, toItems, toItems_ofItems vs]
  | .null => by simp [ofJson, toJson]
  | .bool b => by simp [ofJson, toJson]
  | .int n => by simp [ofJson, toJson]
  | .float x => by simp [ofJson, toJson]
  | .str s => by simp [ofJson, toJson]
  | .obj ms => by simp [ofJson, toJson]
  | .moment s timed => by simp [ofJson, toJson]

/-- The items of a list are written as they were read. -/
theorem toItems_ofItems : ∀ vs : List Json, toItems (ofItems vs) = vs
  | [] => by simp [ofItems, toItems]
  | v :: vs => by simp [ofItems, toItems, toJson_ofJson v, toItems_ofItems vs]

end

end Clause
end CardTransfer
