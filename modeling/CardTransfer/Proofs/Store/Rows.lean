import CardTransfer.Proofs.Json.IdMap
import CardTransfer.Proofs.Store.Place

/-!
# What a list of rows stands for

A list of rows holds things that have a source id each. It stands for the map of these things by their
ids if it has their rows, each with its members in order, in the order of the ids (`RowKind.Holds`).
Storing things puts them into that map (`RowKind.holds_upsert`): rows become a map, the map gets
the new rows, becomes a list again, is written and read back.
-/

namespace CardTransfer

namespace Json

variable {v : Json}

/-- What is found in an object in order is what was found there, in order; there are no other keys. -/
theorem get?_inOrder {ms : Members} (h : Lasting (obj ms)) : ∃ ns, (obj ms).inOrder = obj ns ∧
    (∀ key, Members.get? ns key = (Members.get? ms key).map inOrder) ∧
      ∀ m ∈ ns, m.1 ∈ ms.map (·.1) := by
  cases h with
  | obj once _ _ =>
    refine ⟨_, inOrder_obj ms, fun key => ?_, ?_⟩
    · rw [Members.get?_map, Members.get?_perm once (arrange_perm .file ms).symm]
    · exact List.forall_mem_map.2 fun m hm => List.mem_map.2 ⟨m, mem_arrange.1 hm, rfl⟩

theorem require_inOrder (h : Lasting v) (key : String) :
    v.inOrder.require key = (v.require key).map inOrder := by
  cases v with
  | obj ms =>
    obtain ⟨ns, hns, hget, -⟩ := get?_inOrder h
    rw [hns, require, require, hget]
    cases Members.get? ms key <;> rfl
  | arr vs =>
    rw [inOrder_arr]
    rfl
  | _ => rfl

end Json

namespace Store

open Directory (parents)

variable {d d' : Directory} {file : RowFile} {α : Type}

/-- Things that a list of rows holds: each has a source id and a row, which lasts and has the id. -/
structure RowKind (file : RowFile) (α : Type) where
  source : α → Int
  row : α → Json
  lasting : ∀ a, (row a).Lasting
  keyed : ∀ a, (row a).require file.idKey = .ok (.int (source a))

namespace RowKind

variable {kind : RowKind file α} {f : Int → Option α}

/-- The row of a thing as it is read back. -/
def stored (kind : RowKind file α) (a : α) : Json := (kind.row a).inOrder

theorem require_stored (a : α) : (kind.stored a).require file.idKey = .ok (.int (kind.source a)) := by
  rw [stored, Json.require_inOrder (kind.lasting a), kind.keyed]
  rfl

/-- The stored rows are those of the things in a map, which has each under its own id. -/
structure Holds (kind : RowKind file α) (d : Directory) (f : Int → Option α) : Prop where
  rows : ∃ as, Listed f as ∧ file.rows d = .ok (as.map kind.stored)
  own : ∀ n a, f n = some a → kind.source a = n

/-- Without a file there are no rows. -/
theorem holds_empty (hshort : Directory.isTooLong file.path = false) :
    kind.Holds .empty fun _ => none where
  rows := by
    refine ⟨[], listed_nil, ?_⟩
    rw [RowFile.rows, readJson_empty hshort]
    rfl
  own _ _ h := nomatch h

/-- Rows that each have their id make up a map. -/
theorem exists_index {g : Int → Option Json} {rows : List Json} (h : Listed g rows)
    (hid : ∀ n row, g n = some row → row.require file.idKey = .ok (.int n)) :
    ∃ m, file.index rows = .ok m ∧ m.Tells g := by
  obtain ⟨ps, hsorted, hmem, rfl⟩ := h
  have once : (ps.map (·.1)).Nodup := List.pairwise_map.2 (hsorted.imp ne_of_lt)
  refine ⟨_, ?_, IdMap.tells_of_pairs once hmem⟩
  have hpairs : ∀ p ∈ ps, (do return (← (← p.2.require file.idKey).asKey, p.2)) =
      (.ok (Json.int p.1, p.2) : Except Fault (Json × Json)) := by
    intro p hp
    rw [hid p.1 p.2 ((hmem p.1 p.2).1 hp)]
    rfl
  rw [RowFile.index, List.mapM_map]
  exact congrArg (· >>= fun pairs => pure (IdMap.ofList pairs)) (mapM_eq_ok_map hpairs)

/-- Rows are put into a map under their ids. -/
theorem exists_merge {m : IdMap Json} {g : Int → Option Json} (h : m.Tells g)
    (us : List (Int × Json)) : ∃ m', RowFile.merge m (us.map fun u => (.int u.1, u.2)) = .ok m' ∧
      m'.Tells (putAll g us) := by
  induction us generalizing m g with
  | nil => exact ⟨m, rfl, h⟩
  | cons u us ih => exact ih (h.insert u.1 u.2)

/-- **Storing things puts them into the map**: a document is written, and once it is, the rows stand for
the map with the things in it. -/
theorem holds_upsert (h : kind.Holds d f) (as : List α) (hparent : file.path ∉ parents file.path) :
    ∃ v, file.upsert d (as.map fun a => (.int (kind.source a), kind.row a)) =
        d.writeJson file.path v ∧
      ∀ d', d.writeJson file.path v = .ok d' →
        kind.Holds d' (putAll f (as.map fun a => (kind.source a, a))) := by
  obtain ⟨bs, hlisted, hrows⟩ := h.rows
  obtain ⟨m, hindex, htells⟩ := exists_index (hlisted.map kind.stored) fun n row hrow => by
    obtain ⟨a, ha, rfl⟩ := Option.map_eq_some_iff.1 hrow
    rw [require_stored, h.own n a ha]
  obtain ⟨m', hmerge, htells'⟩ := exists_merge htells (as.map fun a => (kind.source a, kind.row a))
  obtain ⟨vs, hsort, hlisted'⟩ := htells'.sortValues
  refine ⟨.arr vs, ?_, fun d' hwrite => ?_⟩
  · rw [List.map_map] at hmerge
    rw [RowFile.upsert, hrows, ok_bind, hindex, ok_bind]
    rw [show RowFile.merge m (as.map fun a => (.int (kind.source a), kind.row a)) = .ok m' from hmerge,
      ok_bind, hsort, ok_bind]
  have hlasting : ∀ v ∈ vs, v.Lasting := by
    intro v hv
    obtain ⟨n, hn⟩ := hlisted'.mem_iff.1 hv
    rcases putAll_eq_some hn with hmem | hn
    · obtain ⟨a, -, heq⟩ := List.mem_map.1 hmem
      cases heq
      exact kind.lasting a
    · obtain ⟨a, -, rfl⟩ := Option.map_eq_some_iff.1 hn
      exact (kind.lasting a).inOrder
  -- what is read back is the same with all rows in order
  have hstored : (fun n => (putAll (fun n => (f n).map kind.stored)
      (as.map fun a => (kind.source a, kind.row a)) n).map Json.inOrder) =
      fun n => (putAll f (as.map fun a => (kind.source a, a)) n).map kind.stored := by
    have hsame : (fun n => ((f n).map kind.stored).map Json.inOrder) =
        fun n => (f n).map kind.stored := by
      funext n
      rw [Option.map_map]
      exact Option.map_congr fun a _ => (kind.lasting a).inOrder_inOrder
    rw [map_putAll, map_putAll, hsame, List.map_map, List.map_map]
    rfl
  constructor
  · obtain ⟨cs, hcs, heq⟩ := Listed.exists_of_map (hstored ▸ hlisted'.map Json.inOrder)
    refine ⟨cs, hcs, ?_⟩
    rw [RowFile.rows, Directory.readJson_writeJson (.arr hlasting) hwrite hparent, Json.inOrder_arr,
      heq]
    rfl
  · intro n a ha
    rcases putAll_eq_some ha with hmem | ha
    · obtain ⟨b, -, heq⟩ := List.mem_map.1 hmem
      cases heq
      rfl
    · exact h.own n a ha

/-- What the rows are read as, if each is read as it should be. -/
theorem Holds.read {β : Type} (h : kind.Holds d f) {read : Json → Except Fault β} {g : α → β}
    (hread : ∀ a, read (kind.stored a) = .ok (g a)) :
    ∃ bs, (file.rows d >>= fun rows => rows.mapM read) = .ok bs ∧
      Listed (fun n => (f n).map g) bs := by
  obtain ⟨as, hlisted, hrows⟩ := h.rows
  refine ⟨as.map g, ?_, hlisted.map g⟩
  rw [hrows, ok_bind, List.mapM_map]
  exact mapM_eq_ok_map fun a _ => hread a

/-- What the rows stand for depends on what is at their place. -/
theorem Holds.congr (h : kind.Holds d f) (hsame : Directory.SameAt file.path d d') :
    kind.Holds d' f := by
  obtain ⟨as, hlisted, hrows⟩ := h.rows
  refine ⟨⟨as, hlisted, ?_⟩, h.own⟩
  rw [← hrows, RowFile.rows, RowFile.rows, hsame.readJson]

end RowKind
end Store
end CardTransfer

/-!
## Mappings of the kinds that they should be

The ids in a mapping should be integers, the names texts, the degrees doubles. Mappings of these kinds
are what the lists of rows hold (`tableRows`, `fieldRows`): their rows last, and each row is read back
as the mapping that it was made of (`ofRow_tableRows`, `ofRow_fieldRows`). Only a confidence of zero
loses its sign.

The integers have no more digits than can be read, and no two neighbours in a text are the halves of
one character.
-/

namespace CardTransfer

/-- An integer that can be read. -/
abbrev ShortInt := { n : Int // Text.digitCount n ≤ Text.digitLimit }

/-- A text that is read back as it is. -/
abbrev KeptText := { s : String // Json.rereadText s = s }

/-- An integer as a document. -/
def ShortInt.json (n : ShortInt) : Json := .int n.1

/-- A text as a document. -/
def KeptText.json (s : KeptText) : Json := .str s.1

/-- An integer as a document; null for none. -/
def ShortInt.json? (n : Option ShortInt) : Json := .ofOption (n.map json)

theorem ShortInt.lasting (n : ShortInt) : n.json.Lasting := .int n.2

theorem KeptText.lasting (s : KeptText) : s.json.Lasting := .str s.2

theorem ShortInt.lasting? (n : Option ShortInt) : (json? n).Lasting := by
  cases n with
  | none => exact .null
  | some n => exact n.lasting

@[simp] theorem ShortInt.inOrder_json? (n : Option ShortInt) : (json? n).inOrder = json? n := by
  cases n <;> rfl

/-- A confidence as it is read back: zero has no sign. -/
def unsigned (x : Float) : Float := if x != 0.0 then x else 0.0

/-- A possible target of the kinds that it should have. -/
structure TypedCandidate where
  id : ShortInt
  name : KeptText
  score : Float
  reason : KeptText

/-- A mapping of a table of the kinds that it should have. -/
structure TypedTable where
  source : ShortInt
  sourceName : KeptText
  suggested : Option ShortInt
  suggestedName : KeptText
  confidence : Float
  alternatives : List TypedCandidate
  confirmed : Bool
  final : Option ShortInt
  ignored : Bool

/-- A mapping of a field of the kinds that it should have. -/
structure TypedField where
  source : ShortInt
  sourceName : KeptText
  sourceTable : Option ShortInt
  suggested : Option ShortInt
  suggestedName : KeptText
  targetTable : Option ShortInt
  confidence : Float
  method : MappingMethod
  confirmed : Bool
  final : Option ShortInt

/-- The candidate. -/
def TypedCandidate.candidate (c : TypedCandidate) : Candidate where
  id := c.id.json
  name := c.name.json
  score := .float c.score
  reason := c.reason.json

/-- The mapping. -/
def TypedTable.mapping (m : TypedTable) : TableMapping where
  source := m.source.json
  sourceName := m.sourceName.json
  suggested := ShortInt.json? m.suggested
  suggestedName := m.suggestedName.json
  confidence := m.confidence
  alternatives := m.alternatives.map (·.candidate)
  confirmed := m.confirmed
  final := ShortInt.json? m.final
  ignored := m.ignored

/-- The mapping. -/
def TypedField.mapping (m : TypedField) : FieldMapping where
  source := m.source.json
  sourceName := m.sourceName.json
  sourceTable := ShortInt.json? m.sourceTable
  suggested := ShortInt.json? m.suggested
  suggestedName := m.suggestedName.json
  targetTable := ShortInt.json? m.targetTable
  confidence := .float m.confidence
  method := m.method
  confirmed := m.confirmed
  final := ShortInt.json? m.final

/-- The mapping as it is read back. -/
def TypedTable.kept (m : TypedTable) : TableMapping :=
  { m.mapping with confidence := unsigned m.confidence }

/-- The mapping as it is read back. -/
def TypedField.kept (m : TypedField) : FieldMapping :=
  { m.mapping with confidence := .float (unsigned m.confidence) }

namespace Store

open Json (Lasting)

/-- Members under different keys that are read back as they are last if their values do. -/
theorem lasting_obj {ms : Members} (keys : List String) (hms : ms.map (·.1) = keys)
    (once : keys.Nodup) (same : ∀ key ∈ keys, Json.rereadText key = key)
    (values : ∀ m ∈ ms, m.2.Lasting) : (Json.obj ms).Lasting :=
  .obj (hms ▸ once) (fun m hm => same m.1 (hms ▸ List.mem_map_of_mem hm)) values

theorem lasting_candidate (c : TypedCandidate) : c.candidate.toRow.Lasting := by
  refine lasting_obj Candidate.parts rfl (by decide) (by decide +kernel) ?_
  simp only [List.forall_mem_cons]
  exact ⟨c.id.lasting, c.name.lasting, .float _, c.reason.lasting, nofun⟩

/-- A candidate is read back as it was written. -/
theorem ofRow_candidate (c : TypedCandidate) :
    Candidate.ofRow c.candidate.toRow.inOrder = .ok c.candidate := by
  obtain ⟨ns, hns, hget, hkeys⟩ := Json.get?_inOrder (lasting_candidate c)
  have hknown : ns.find? (fun m => !Candidate.parts.contains m.1) = none := by
    rw [List.find?_eq_none]
    intro m hm hnot
    rw [Bool.not_eq_true', List.contains_eq_mem, decide_eq_false_iff_not] at hnot
    exact hnot (hkeys m hm)
  have hrow : c.candidate.toRow.inOrder = .obj ns := hns
  rw [hrow, Candidate.ofRow]
  simp only [hknown, Candidate.need, hget]
  rfl

theorem lasting_table (m : TypedTable) : m.mapping.toRow.Lasting := by
  refine lasting_obj ["source_table_id", "source_table_name", "suggested_target_table_id",
    "suggested_target_table_name", "confidence", "alternatives", "confirmed",
    "final_target_table_id", "ignored"] rfl (by decide) (by decide +kernel) ?_
  simp only [List.forall_mem_cons]
  refine ⟨m.source.lasting, m.sourceName.lasting, ShortInt.lasting? _, m.suggestedName.lasting,
    .float _, .arr fun v hv => ?_, .bool _, ShortInt.lasting? _, .bool _, nofun⟩
  obtain ⟨c, hc, rfl⟩ := List.mem_map.1 hv
  obtain ⟨c, -, rfl⟩ := List.mem_map.1 hc
  exact lasting_candidate c

theorem lasting_field (m : TypedField) : m.mapping.toRow.Lasting := by
  refine lasting_obj ["source_field_id", "source_field_name", "source_table_id",
    "suggested_target_field_id", "suggested_target_field_name", "target_table_id", "confidence",
    "method", "confirmed", "final_target_field_id"] rfl (by decide) (by decide +kernel) ?_
  simp only [List.forall_mem_cons]
  refine ⟨m.source.lasting, m.sourceName.lasting, ShortInt.lasting? _, ShortInt.lasting? _,
    m.suggestedName.lasting, ShortInt.lasting? _, .float _, .str ?_, .bool _,
    ShortInt.lasting? _, nofun⟩
  have hmethod : ∀ method : MappingMethod, Json.rereadText method.text = method.text := by
    rintro (_ | _ | _) <;> decide +kernel
  exact hmethod m.method

/-- The rows of table mappings. -/
def tableRows : RowKind tableFile TypedTable where
  source m := m.source.1
  row m := m.mapping.toRow
  lasting := lasting_table
  keyed _ := rfl

/-- The rows of field mappings. -/
def fieldRows : RowKind fieldFile TypedField where
  source m := m.source.1
  row m := m.mapping.toRow
  lasting := lasting_field
  keyed _ := rfl

/-- A confidence is read back without the sign of zero. -/
theorem toDouble_orElse (x : Float) :
    ((Json.float x).orElse (.float 0.0)).toDouble = .ok (unsigned x) := by
  unfold Json.orElse unsigned
  show (if (x != 0.0) = true then _ else _ : Json).toDouble = _
  split <;> rfl

theorem each_candidates (cs : List Json) :
    ((Json.arr cs).orElse (.arr [])).each = .ok cs := by
  cases cs <;> rfl

/-- A row that has the given members, each value in order. -/
structure RowOf (row : Json) (ms : Members) : Prop where
  find : ∀ {key : String} {v : Json}, Members.get? ms key = some v → row.find key = .ok v.inOrder
  require : ∀ {key : String} {v : Json}, Members.get? ms key = some v → row.require key = .ok v.inOrder
  value : ∀ {key : String} {v fallback : Json}, Members.get? ms key = some v →
    valueIn row key fallback = .ok v.inOrder

theorem row_inOrder {ms : Members} (h : (Json.obj ms).Lasting) : RowOf (Json.obj ms).inOrder ms := by
  obtain ⟨ns, hns, hget, -⟩ := Json.get?_inOrder h
  rw [hns]
  refine ⟨fun {key v} hv => ?_, fun {key v} hv => ?_, fun {key v fallback} hv => ?_⟩
  · show Except.ok (Json.ofOption (Members.get? ns key)) = _
    rw [hget, hv]
    rfl
  · rw [Json.require, hget, hv]
    rfl
  · show Except.ok ((Members.get? ns key).getD fallback) = _
    rw [hget, hv]
    rfl

/-- The candidates in a row. -/
theorem candidates_inOrder (cs : List TypedCandidate) :
    (((Json.arr ((cs.map (·.candidate)).map (·.toRow))).inOrder.orElse (.arr [])).each >>= fun rows =>
      rows.mapM Candidate.ofRow) = .ok (cs.map (·.candidate)) := by
  rw [Json.inOrder_arr, each_candidates, ok_bind, List.map_map, List.map_map, List.mapM_map]
  exact mapM_eq_ok_map fun c _ => ofRow_candidate c

/-- **The row of a table mapping is read back as the mapping.** -/
theorem ofRow_tableRows (m : TypedTable) : TableMapping.ofRow (tableRows.stored m) = .ok m.kept := by
  have row : RowOf (tableRows.stored m) _ := row_inOrder (lasting_table m)
  have hconfidence : ((Json.float m.mapping.confidence).inOrder.orElse (.float 0.0)).toDouble =
      .ok (unsigned m.confidence) := toDouble_orElse _
  have hsuggested : m.mapping.suggested.inOrder = m.mapping.suggested := ShortInt.inOrder_json? _
  have hfinal : m.mapping.final.inOrder = m.mapping.final := ShortInt.inOrder_json? _
  have hcandidates := candidates_inOrder m.alternatives
  unfold TableMapping.ofRow confidenceIn
  rw [row.require rfl, row.value rfl, row.find rfl, row.value rfl, row.find rfl, row.find rfl,
    row.find rfl, row.find rfl, row.find rfl, hsuggested, hfinal]
  simp only [ok_bind, hconfidence, ← bind_assoc]
  rw [show m.mapping.alternatives = m.alternatives.map (·.candidate) from rfl, hcandidates]
  rfl

/-- **The row of a field mapping is read back as the mapping.** -/
theorem ofRow_fieldRows (m : TypedField) : FieldMapping.ofRow (fieldRows.stored m) = .ok m.kept := by
  have row : RowOf (fieldRows.stored m) _ := row_inOrder (lasting_field m)
  have hconfidence : (m.mapping.confidence.inOrder.orElse (.float 0.0)).toDouble =
      .ok (unsigned m.confidence) := toDouble_orElse _
  have hmethod : MappingMethod.ofJson
      ((Json.str m.mapping.method.text).inOrder.orElse (.str "heuristic")) = .ok m.method := by
    show MappingMethod.ofJson ((Json.str m.method.text).orElse (.str "heuristic")) = _
    cases m.method <;> rfl
  unfold FieldMapping.ofRow confidenceIn
  rw [row.require rfl, row.value rfl, row.find rfl, row.find rfl, row.value rfl, row.find rfl,
    row.find rfl, row.find rfl, row.find rfl, row.find rfl]
  simp only [ok_bind, hconfidence, hmethod,
    show m.mapping.sourceTable.inOrder = _ from ShortInt.inOrder_json? _,
    show m.mapping.suggested.inOrder = _ from ShortInt.inOrder_json? _,
    show m.mapping.targetTable.inOrder = _ from ShortInt.inOrder_json? _,
    show m.mapping.final.inOrder = _ from ShortInt.inOrder_json? _]
  rfl

end Store
end CardTransfer
