import CardTransfer.Catalog.Basic
import CardTransfer.Catalog.Mapping

/-!
# The correspondence of two catalogs

A correspondence says which table and which field of the target takes the place of each table and
field of the source. The first of these that applies decides; nothing is guessed:

1. a mapping that counts;
2. for a table, the table of the same schema and name; for a field, the field of the same name in
   the table that corresponds to its own;
3. the only table, or field of that table, whose name is the same in lower case without blanks and
   underscores.

What has no counterpart is unmatched, except for the fields of a table that has none itself. Fields
with a mapping that counts need no table.

The mappings may be unreadable, or name things that are no ids, and names need not be texts; a
correspondence is then built as far as it goes.
-/

namespace CardTransfer

/-- A table of the source without counterpart. -/
structure UnmatchedTable where
  id : Json
  name : Json
  schema : Json

/-- A field of the source without counterpart. -/
structure UnmatchedField where
  id : Json
  name : Json
  tableName : Json
  table : Json

/-- Which tables and fields of the target take the place of those of the source. -/
structure Correspondence where
  source : Catalog
  target : Catalog
  tables : IdMap Json
  fields : IdMap Json
  unmatchedTables : List UnmatchedTable
  unmatchedFields : List UnmatchedField
  deriving Inhabited

namespace Catalog

/-- The last table with an id. -/
def tableById? (c : Catalog) (id : Json) : Option Table := c.tables.reverse.find? (·.id.sameId id)

/-- The last field with an id. -/
def fieldById? (c : Catalog) (id : Json) : Option Field := c.fields.reverse.find? (·.id.sameId id)

/-- Whether all ids of a catalog can be looked up. -/
def checkIds (c : Catalog) : Except Fault Unit := do
  for t in c.tables do let _ ← t.id.asKey
  for f in c.fields do let _ ← f.id.asKey

end Catalog

/-- The only item of a list. -/
def only? {α : Type} : List α → Option α
  | [a] => some a
  | _ => none

/-- The only item of a list whose name is, in lower case without blanks and underscores, that of
`name`. -/
def loneNamesake? {α : Type} (nameOf : α → Json) (name : Json) (items : List α) :
    Except Fault (Option α) := do
  let key ← Naming.normalized name
  let named ← items.mapM fun a => return (a, ← Naming.normalized (nameOf a))
  return only? ((named.filter (·.2 == key)).map (·.1))

/-- The table of a catalog that a table corresponds to by its name. -/
def matchTable? (target : Catalog) (t : Table) : Except Fault (Option Table) :=
  match target.tables.find? fun u => u.schema.same t.schema && u.name.same t.name with
  | some u => .ok (some u)
  | none => loneNamesake? Table.name t.name target.tables

/-- The field of a table that a field corresponds to by its name. -/
def matchField? (target : Table) (f : Field) : Except Fault (Option Field) :=
  match target.fields.find? fun g => g.name.same f.name with
  | some g => .ok (some g)
  | none => loneNamesake? Field.name f.name target.fields

/-- Takes the items of a list in turn, up to the first fault; what was done before it stays. -/
def sweep {σ α : Type} (f : σ → α → σ × Except Fault Unit) : σ → List α → σ × Except Fault Unit
  | s, [] => (s, .ok ())
  | s, a :: as =>
    match f s a with
    | (s, .ok ()) => sweep f s as
    | (s, .error e) => (s, .error e)

/-- The next state, or the last one where there is a fault. -/
def orLast {σ : Type} (s : σ) (r : Except Fault σ) : σ × Except Fault Unit :=
  match r with
  | .ok s => (s, .ok ())
  | .error e => (s, .error e)

/-- Without faults a list is taken to its end. -/
theorem sweep_orLast_ok {σ α : Type} (f : σ → α → σ) (s : σ) (as : List α) :
    sweep (fun s a => orLast s (.ok (f s a))) s as = (as.foldl f s, .ok ()) := by
  induction as generalizing s with
  | nil => rfl
  | cons a as ih => simp only [sweep, orLast, List.foldl_cons] at ih ⊢; exact ih _

namespace Correspondence

/-- The correspondence of two catalogs before anything has been matched. -/
def start (source target : Catalog) : Except Fault Correspondence := do
  source.checkIds
  target.checkIds
  return ⟨source, target, [], [], [], []⟩

/-- The targets of the mappings that count, from pairs of source ids and targets. -/
def settled (pairs : List (Json × Option Json)) : IdMap Json × Except Fault Unit :=
  sweep (fun m p => orLast m (match p.2 with
    | none => .ok m
    | some target => do return IdMap.insert m (← p.1.asKey) target)) [] pairs

/-- Tables that have been matched, and those without counterpart. -/
abbrev PlacedTables := IdMap Json × List UnmatchedTable

/-- Matches a table by its name, unless it has a counterpart already. -/
def placeTable (target : Catalog) (s : PlacedTables) (t : Table) : Except Fault PlacedTables :=
  if IdMap.has s.1 t.id then .ok s
  else do
    match ← matchTable? target t with
    | some u => return (IdMap.insert s.1 t.id u.id, s.2)
    | none => return (s.1, s.2 ++ [⟨t.id, t.name, t.schema⟩])

/-- Fields that have been matched, and those without counterpart. -/
abbrev PlacedFields := IdMap Json × List UnmatchedField

/-- Matches a field by a mapping, or else by its name if its table has a counterpart. -/
def placeField (confirmed : IdMap Json) (t : Table) (counterpart : Option Table)
    (s : PlacedFields) (f : Field) : Except Fault PlacedFields :=
  match IdMap.get? confirmed f.id, counterpart with
  | some target, _ => .ok (IdMap.insert s.1 f.id target, s.2)
  | none, none => .ok s
  | none, some u => do
    match ← matchField? u f with
    | some g => return (IdMap.insert s.1 f.id g.id, s.2)
    | none => return (s.1, s.2 ++ [⟨f.id, f.name, t.qualifiedName, t.id⟩])

/-- Matches the fields of a table. -/
def placeFields (target : Catalog) (tables confirmed : IdMap Json) (s : PlacedFields) (t : Table) :
    PlacedFields × Except Fault Unit :=
  match ((IdMap.get? tables t.id).getD .null).asKey with
  | .error f => (s, .error f)
  | .ok id =>
    sweep (fun s f => orLast s (placeField confirmed t (target.tableById? id) s f)) s t.fields

/-- The correspondence with its tables matched. -/
def withTables (c : Correspondence) (rows : List TableMapping) :
    Correspondence × Except Fault Unit :=
  let (confirmed, r) := settled (rows.map fun m => (m.source, m.settled?))
  match r with
  | .error f => ({ c with tables := confirmed }, .error f)
  | .ok () =>
    let (placed, r) :=
      sweep (fun s t => orLast s (placeTable c.target s t)) (confirmed, []) c.source.tables
    ({ c with tables := placed.1, unmatchedTables := placed.2 }, r)

/-- The correspondence with its fields matched, after its tables. -/
def withFields (c : Correspondence) (rows : List FieldMapping) :
    Correspondence × Except Fault Unit :=
  let (confirmed, r) := settled (rows.map fun m => (m.source, m.settled?))
  match r with
  | .error f => (c, .error f)
  | .ok () =>
    let (placed, r) := sweep (placeFields c.target c.tables confirmed) ([], []) c.source.tables
    ({ c with fields := placed.1, unmatchedFields := placed.2 }, r)

/-- Builds the correspondence anew from the mappings, as far as it goes. -/
def rebuild (c : Correspondence) (tableRows : Except Fault (List TableMapping))
    (fieldRows : Except Fault (List FieldMapping)) : Correspondence × Except Fault Unit :=
  let c : Correspondence := ⟨c.source, c.target, [], [], [], []⟩
  match tableRows with
  | .error f => (c, .error f)
  | .ok rows =>
    match c.withTables rows with
    | (c, .error f) => (c, .error f)
    | (c, .ok ()) =>
      match fieldRows with
      | .error f => (c, .error f)
      | .ok rows => c.withFields rows

/-- Rebuilding keeps the catalogs. -/
theorem rebuild_catalogs (c : Correspondence) (tableRows : Except Fault (List TableMapping))
    (fieldRows : Except Fault (List FieldMapping)) :
    (c.rebuild tableRows fieldRows).1.source = c.source ∧
      (c.rebuild tableRows fieldRows).1.target = c.target := by
  unfold rebuild withTables withFields
  repeat' split
  all_goals simp_all <;> grind

/-- The table that takes the place of a table. -/
def resolveTable (c : Correspondence) (id : Json) : Option Json :=
  (IdMap.get? c.tables id).bind Json.toOption

/-- The field that takes the place of a field. -/
def resolveField (c : Correspondence) (id : Json) : Option Json :=
  (IdMap.get? c.fields id).bind Json.toOption

end Correspondence
end CardTransfer
