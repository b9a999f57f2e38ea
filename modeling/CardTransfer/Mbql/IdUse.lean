import CardTransfer.Mbql.Query

/-!
# Uses of ids in structured queries

A structured query names tables, cards and fields by id: an integer table or a card as a source, an
integer id of a field clause, and an integer `source-field` in the options of a field clause.
`mapIds` replaces them, each kind by its own function. `idUses` lists them in the order of a visit:
the source, the joins, the clauses, the expressions, and inside each from left to right.
-/

namespace CardTransfer

/-- What an id is used as. -/
inductive IdUse where
  | table (id : Json)
  | card (id : Json)
  | field (id : Json)
  | sourceField (id : Json)
  deriving Repr

/-- What takes the place of each table, card and field. -/
structure IdChange where
  table : Json → Json
  card : Json → Json
  field : Json → Json

namespace Clause

/-- The key of an option that names a field. -/
def sourceFieldKey : String := "source-field"

/-- The field that the options after a field name. -/
def optionField? (rest : List Json) : Option Json :=
  match rest with
  | .obj options :: _ => (Members.get? options sourceFieldKey).filter Json.isInt
  | _ => none

/-- Replaces the field that the options after a field name. -/
def mapOption (f : Json → Json) (rest : List Json) : List Json :=
  match rest, optionField? rest with
  | .obj options :: more, some id => .obj (Members.insert options sourceFieldKey (f id)) :: more
  | _, _ => rest

mutual

/-- Replaces the fields of a clause. -/
def mapFields (f : Json → Json) : Clause → Clause
  | literal v => literal v
  | field op id rest => field op (if id.isInt then f id else id) (mapOption f rest)
  | operation name args => operation name (mapItems f args)
  | list items => list (mapItems f items)

/-- Replaces the fields of clauses. -/
def mapItems (f : Json → Json) : List Clause → List Clause
  | [] => []
  | c :: cs => mapFields f c :: mapItems f cs

end

mutual

/-- The fields that a clause uses. -/
def idUses : Clause → List IdUse
  | literal _ => []
  | field _ id rest =>
    (if id.isInt then [.field id] else []) ++ ((optionField? rest).map IdUse.sourceField).toList
  | operation _ args => itemUses args
  | list items => itemUses items

/-- The fields that clauses use. -/
def itemUses : List Clause → List IdUse
  | [] => []
  | c :: cs => idUses c ++ itemUses cs

end

/-- Replaces the fields of named clauses. -/
def mapNamed (f : Json → Json) (clauses : List (String × Clause)) : List (String × Clause) :=
  clauses.map fun c => (c.1, c.2.mapFields f)

/-- The fields that named clauses use. -/
def namedUses (clauses : List (String × Clause)) : List IdUse := clauses.flatMap fun c => c.2.idUses

mutual

/-- Replacing every field by itself changes nothing. -/
theorem mapFields_id : ∀ c : Clause, c.mapFields id = c
  | literal v => by simp [mapFields]
  | field op i rest => by
    have h : mapOption id rest = rest := by
      unfold mapOption
      split
      · rename_i options more i' h
        simp only [id_eq, List.cons.injEq, Json.obj.injEq, and_true]
        simp only [optionField?, Option.filter_eq_some_iff] at h
        exact Members.insert_eq_self h.1
      · rfl
    simp [mapFields, h]
  | operation name args => by simp [mapFields, mapItems_id args]
  | list items => by simp [mapFields, mapItems_id items]

/-- Replacing every field by itself changes nothing. -/
theorem mapItems_id : ∀ cs : List Clause, mapItems id cs = cs
  | [] => by simp [mapItems]
  | c :: cs => by simp [mapItems, mapFields_id c, mapItems_id cs]

end

end Clause

namespace InnerQuery

mutual

/-- Replaces the ids of an inner query. -/
def mapIds (f : IdChange) : InnerQuery → InnerQuery
  | .mk source joins clauses expressions extra keys =>
    .mk (mapSource f source) (mapJoins f joins) (Clause.mapNamed f.field clauses)
      (Clause.mapNamed f.field expressions) extra keys

/-- Replaces the ids of a source. -/
def mapSource (f : IdChange) : Source → Source
  | .absent => .absent
  | .table id => .table (if id.isInt then f.table id else id)
  | .card id => .card (f.card id)
  | .query inner => .query (mapIds f inner)

/-- Replaces the ids of joins. -/
def mapJoins (f : IdChange) : List InnerQuery → List InnerQuery
  | [] => []
  | q :: qs => mapIds f q :: mapJoins f qs

end

mutual

/-- The ids that an inner query uses. -/
def idUses : InnerQuery → List IdUse
  | .mk source joins clauses expressions _ _ =>
    sourceUses source ++ joinUses joins ++ Clause.namedUses clauses ++ Clause.namedUses expressions

/-- The ids that a source uses. -/
def sourceUses : Source → List IdUse
  | .absent => []
  | .table id => if id.isInt then [.table id] else []
  | .card id => [.card id]
  | .query inner => idUses inner

/-- The ids that joins use. -/
def joinUses : List InnerQuery → List IdUse
  | [] => []
  | q :: qs => idUses q ++ joinUses qs

end

end InnerQuery
end CardTransfer
