import CardTransfer.Proofs.Store.Mappings

/-!
# Rows of table mappings, whoever wrote them

The rows in the file of table mappings need not be those that a store writes: they may come in any order,
with their members in any order, and have members that no mapping has. What counts is the row under each
id (`Stands`).

Storing mappings puts their rows under their ids and leaves every other row as it is, up to the order of
members; and since the text that is written depends on nothing else, **storing the same mappings again
changes nothing** (`Stands.upsertTables`).
-/

namespace CardTransfer

/-- A mapping that is read back as it is: its confidence is no zero with a sign. -/
abbrev KeptTable := { m : TypedTable // unsigned m.confidence = m.confidence }

/-- A row that lasts, with the mapping that it is read as. -/
structure StoredTable where
  row : Json
  mapping : KeptTable
  lasting : row.Lasting
  read : TableMapping.ofRow row = .ok mapping.1.mapping

theorem TypedTable.inOrder_mapping (m : TypedTable) : m.mapping.inOrder = m.mapping := by
  have hcandidates : (m.mapping.alternatives.map fun c => c.inOrder) = m.mapping.alternatives := by
    unfold mapping
    rw [List.map_map]
    exact List.map_congr_left fun c _ => rfl
  unfold TableMapping.inOrder
  rw [hcandidates]
  simp only [mapping, ShortInt.inOrder_json?]
  rfl

namespace StoredTable

variable {e : StoredTable}

/-- What the row says. -/
abbrev table (e : StoredTable) : TableMapping := e.mapping.1.mapping

/-- The source id. -/
def id (e : StoredTable) : Int := e.mapping.1.source.1

/-- A row with its members in order, which is read as the same. -/
def inOrder (e : StoredTable) : StoredTable where
  row := e.row.inOrder
  mapping := e.mapping
  lasting := e.lasting.inOrder
  read := by
    rw [TableMapping.ofRow_eq_ok]
    exact e.mapping.1.inOrder_mapping ▸ (TableMapping.ofRow_eq_ok.1 e.read).inOrder e.lasting

theorem inOrder_eq_self (h : e.row.inOrder = e.row) : e.inOrder = e := by
  obtain ⟨row, m, lasting, read⟩ := e
  unfold inOrder
  congr 1

theorem inOrder_inOrder (e : StoredTable) : e.inOrder.inOrder = e.inOrder :=
  inOrder_eq_self e.lasting.inOrder_inOrder

/-- Where each id is there once, a row is found under its id. -/
theorem find?_eq_some_iff {es : List StoredTable} (once : (es.map (·.id)).Nodup) {n : Int} :
    es.find? (fun e => e.id == n) = some e ↔ e ∈ es ∧ e.id = n := by
  constructor
  · intro he
    exact ⟨List.mem_of_find?_eq_some he, by simpa using List.find?_some he⟩
  · rintro ⟨he, rfl⟩
    have hsome : (es.find? fun e' => e'.id == e.id).isSome = true :=
      List.find?_isSome.2 ⟨e, he, beq_self_eq_true e.id⟩
    obtain ⟨e', he'⟩ := Option.isSome_iff_exists.1 hsome
    have hid : e'.id = e.id := by simpa using List.find?_some he'
    rw [he', List.inj_on_of_nodup_map once (List.mem_of_find?_eq_some he') he hid]

/-- A row is read as something plain. -/
theorem fine (e : StoredTable) : Store.tableReader.Fine e.row e.table where
  lasting := e.lasting
  read := e.read
  plain := ⟨rfl, Store.ShortInt.isCompound_json? _, Store.ShortInt.isCompound_json? _⟩

end StoredTable

namespace KeptTable

/-- The row of a mapping as it is read back. -/
def written (m : KeptTable) : StoredTable where
  row := Store.tableRows.stored m.1
  mapping := m
  lasting := (Store.lasting_table m.1).inOrder
  read := by
    rw [Store.ofRow_tableRows, TypedTable.kept, m.2]
    rfl

theorem inOrder_written (m : KeptTable) : m.written.inOrder = m.written :=
  StoredTable.inOrder_eq_self (Store.lasting_table m.1).inOrder_inOrder

/-- The mapping with its suggestion confirmed. -/
def confirm (m : KeptTable) : KeptTable := ⟨{ m.1 with confirmed := true, final := m.1.suggested }, m.2⟩

end KeptTable

namespace Store

open Directory (parents)

variable {d d' : Directory} {f : Int → Option StoredTable} {es : List StoredTable} {us : List KeptTable}

/-- The rows in the file have an id each, and a function has the row of each id, in order. -/
structure RowsAre (d : Directory) (es : List StoredTable) (f : Int → Option StoredTable) : Prop where
  rows : tableFile.rows d = .ok (es.map (·.row))
  once : (es.map (·.id)).Nodup
  under : ∀ n e, f n = some e ↔ ∃ e' ∈ es, e'.id = n ∧ e'.inOrder = e

/-- The stored rows of table mappings stand for a function of their ids. -/
def Stands (d : Directory) (f : Int → Option StoredTable) : Prop := ∃ es, RowsAre d es f

/-- What a function has after mappings have been stored. -/
def withTables (f : Int → Option StoredTable) (us : List KeptTable) : Int → Option StoredTable :=
  putAll f (us.map fun u => (u.1.source.1, u.written))

theorem withTables_of_mem (once : (us.map (·.1.source.1)).Nodup) {u : KeptTable} (hu : u ∈ us) :
    withTables f us u.1.source.1 = some u.written :=
  putAll_of_mem (u := (u.1.source.1, u.written)) (by rwa [List.map_map]) (List.mem_map_of_mem hu)

theorem withTables_of_ne {n : Int} (h : ∀ u ∈ us, u.1.source.1 ≠ n) : withTables f us n = f n := by
  refine putAll_of_notMem fun hn => ?_
  rw [List.map_map] at hn
  obtain ⟨u, hu, rfl⟩ := List.mem_map.1 hn
  exact h u hu rfl

namespace RowsAre

theorem inOrder_of_under (h : RowsAre d es f) {n : Int} {e : StoredTable} (he : f n = some e) :
    e.id = n ∧ e.inOrder = e := by
  obtain ⟨e', -, rfl, rfl⟩ := (h.under n e).1 he
  exact ⟨rfl, e'.inOrder_inOrder⟩

/-- The rows as they are in the file, by their ids. -/
theorem exists_raw (h : RowsAre d es f) : ∃ g : Int → Option StoredTable,
    (∀ n e, g n = some e ↔ e ∈ es ∧ e.id = n) ∧ ∀ n, f n = (g n).map (·.inOrder) := by
  refine ⟨fun n => es.find? fun e => e.id == n, fun n e => StoredTable.find?_eq_some_iff h.once,
    fun n => Option.ext fun e => ?_⟩
  rw [h.under, Option.map_eq_some_iff]
  simp only [StoredTable.find?_eq_some_iff h.once, and_assoc]

/-- What the rows say by their ids. -/
theorem tells {β : Type} {g : Int → Option StoredTable} (h : RowsAre d es f)
    (hg : ∀ n e, g n = some e ↔ e ∈ es ∧ e.id = n) (φ : StoredTable → β) :
    (IdMap.ofList (es.map fun e => (Json.int e.id, φ e))).Tells fun n => (g n).map φ := by
  have honce : ((es.map fun e => (e.id, φ e)).map (·.1)).Nodup := by
    rw [List.map_map]
    exact h.once
  have htells := IdMap.tells_of_pairs (f := fun n => (g n).map φ) honce fun n v => by
    rw [List.mem_map, Option.map_eq_some_iff]
    simp only [hg, Prod.mk.injEq, and_assoc]
  rwa [List.map_map] at htells

/-- The rows are read as their mappings. -/
theorem holds (h : RowsAre d es f) : tableReader.Holds d (es.map (·.table)) := by
  refine ⟨es.map fun e => (e.row, e.table), ?_, ?_, List.forall_mem_map.2 fun e _ => e.fine⟩
  · rw [h.rows, List.map_map]
    rfl
  · rw [List.map_map]
    rfl

/-- Of each source there is one mapping. -/
theorem get?_mappings (h : RowsAre d es f) (n : Int) :
    IdMap.get? (IdMap.ofList ((es.map (·.table)).map fun m => (m.source, m))) (.int n) =
      (f n).map (·.table) := by
  obtain ⟨g, hg, hf⟩ := h.exists_raw
  rw [List.map_map, hf, Option.map_map]
  exact (h.tells hg (·.table)).value n

theorem nodup_keys (h : RowsAre d es f) :
    ((es.map (·.table)).map (·.source.key)).Nodup := by
  rw [List.map_map]
  exact List.pairwise_map.2 ((List.pairwise_map.1 h.once).imp fun hne heq => hne (Key.whole.inj heq))

/-- **What is written for mappings** are the rows under each id, with theirs put in. -/
theorem upsert_eq (h : RowsAre d es f) (us : List KeptTable) : ∃ cs, Listed (withTables f us) cs ∧
    Store.upsertTables d (us.map fun u => u.1.mapping) =
      d.writeJson tableFile.path (.arr (cs.map (·.row))) := by
  obtain ⟨g, hg, hf⟩ := h.exists_raw
  have hindex : tableFile.index (es.map (·.row)) =
      .ok (IdMap.ofList (es.map fun e => (Json.int e.id, e.row))) := by
    have hall := RowReader.index_eq (R := tableReader) (es.map fun e => (e.row, e.table))
      (List.forall_mem_map.2 fun e _ => e.fine)
    rw [List.map_map, List.map_map] at hall
    exact hall
  obtain ⟨m, hmerge, htells⟩ := RowKind.exists_merge (h.tells hg (·.row))
    (us.map fun u => (u.1.source.1, u.1.mapping.toRow))
  obtain ⟨vs, hsort, hlisted⟩ := htells.sortValues
  have hlasting : ∀ v ∈ vs, v.Lasting := by
    intro v hv
    obtain ⟨n, hn⟩ := hlisted.mem_iff.1 hv
    rcases putAll_eq_some hn with hmem | hn
    · obtain ⟨u, -, heq⟩ := List.mem_map.1 hmem
      cases heq
      exact lasting_table u.1
    · obtain ⟨e, -, rfl⟩ := Option.map_eq_some_iff.1 hn
      exact e.lasting
  -- in order, the rows are those of the function
  have hinOrder : (fun n => (putAll (fun n => (g n).map (·.row))
      (us.map fun u => (u.1.source.1, u.1.mapping.toRow)) n).map Json.inOrder) =
      fun n => (withTables f us n).map (·.row) := by
    have hsame : (fun n => ((g n).map (·.row)).map Json.inOrder) = fun n => (f n).map (·.row) := by
      funext n
      rw [hf, Option.map_map, Option.map_map]
      rfl
    unfold withTables
    rw [map_putAll, map_putAll, hsame, List.map_map, List.map_map]
    rfl
  obtain ⟨cs, hcs, heq⟩ := Listed.exists_of_map (hinOrder ▸ hlisted.map Json.inOrder)
  refine ⟨cs, hcs, ?_⟩
  have hrows : ((us.map fun u => u.1.mapping).map fun m => (m.source, m.toRow)) =
      (us.map fun u => (u.1.source.1, u.1.mapping.toRow)).map fun u => (.int u.1, u.2) := by
    rw [List.map_map, List.map_map]
    rfl
  rw [Store.upsertTables, hrows, RowFile.upsert, h.rows, ok_bind, hindex, ok_bind, hmerge, ok_bind, hsort,
    ok_bind, ← heq, ← Json.inOrder_arr]
  exact congrArg (d.write _) (Json.Lasting.arr hlasting).write_inOrder.symm

theorem inOrder_withTables (h : RowsAre d es f) {n : Int} {e : StoredTable}
    (he : withTables f us n = some e) : e.id = n ∧ e.inOrder = e := by
  rcases putAll_eq_some he with hmem | he
  · obtain ⟨u, -, heq⟩ := List.mem_map.1 hmem
    cases heq
    exact ⟨rfl, u.inOrder_written⟩
  · exact h.inOrder_of_under he

/-- Rows that have been written are those that are there. -/
theorem of_write {cs : List StoredTable} (hcs : Listed f cs)
    (hf : ∀ n e, f n = some e → e.id = n ∧ e.inOrder = e)
    (hwrite : d.writeJson tableFile.path (.arr (cs.map (·.row))) = .ok d') : RowsAre d' cs f := by
  have hown : ∀ e ∈ cs, f e.id = some e ∧ e.inOrder = e := by
    intro e he
    obtain ⟨n, hn⟩ := hcs.mem_iff.1 he
    obtain ⟨rfl, hinOrder⟩ := hf n e hn
    exact ⟨hn, hinOrder⟩
  constructor
  case rows =>
    have hlasting : (Json.arr (cs.map (·.row))).Lasting := .arr (List.forall_mem_map.2 fun e _ => e.lasting)
    rw [RowFile.rows, Directory.readJson_writeJson hlasting hwrite (Place.tables.not_mem_parents .tables),
      Json.inOrder_arr, List.map_map]
    refine congrArg Except.ok (List.map_congr_left fun e he => ?_)
    exact congrArg StoredTable.row (hown e he).2
  case once =>
    obtain ⟨ps, hsorted, hmem, rfl⟩ := hcs
    rw [List.map_map]
    refine List.pairwise_map.2 (hsorted.imp_of_mem fun {p q} hp hq hpq heq => ?_)
    have hid : ∀ p ∈ ps, p.2.id = p.1 := fun p hp => (hf p.1 p.2 ((hmem p.1 p.2).1 hp)).1
    change p.2.id = q.2.id at heq
    rw [hid p hp, hid q hq] at heq
    exact absurd heq (ne_of_lt hpq)
  case under =>
    intro n e
    constructor
    · intro he
      exact ⟨e, hcs.mem_iff.2 ⟨n, he⟩, hf n e he⟩
    · rintro ⟨e', he', rfl, rfl⟩
      rw [(hown e' he').2]
      exact (hown e' he').1

end RowsAre

/-- A file whose rows can be read can be written. -/
theorem exists_write_of_rows {rows : List Json} (h : tableFile.rows d = .ok rows) (text : String) :
    ∃ d', d.write tableFile.path text = .ok d' := by
  have hdirectory : d.isDirectory tableFile.path = false := by
    by_contra hdirectory
    unfold RowFile.rows Directory.readJson Directory.readJson? Directory.read? at h
    rw [isTooLong_tables, Bool.of_not_eq_false hdirectory] at h
    cases h
  have hparents : parents tableFile.path = [] := by decide +kernel
  refine ⟨⟨Directory.put d.files tableFile.path text⟩, ?_⟩
  unfold Directory.write Directory.isObstructed
  rw [hparents, isTooLong_tables, hdirectory]
  rfl

/-- Only the file of table mappings is written. -/
theorem lookup_of_upsertTables {ms : List TableMapping} (h : Store.upsertTables d ms = .ok d') {path : String}
    (hne : path ≠ tableFile.path) : d'.files.lookup path = d.files.lookup path := by
  obtain ⟨text, hwrite⟩ := RowFile.exists_write h
  obtain ⟨rfl, -, -⟩ := Directory.eq_put_of_write hwrite
  rw [Directory.lookup_put, if_neg hne.symm]

/-- **Storing mappings** puts their rows under their ids, and storing them again changes nothing. -/
theorem Stands.upsertTables (h : Stands d f) (once : (us.map (·.1.source.1)).Nodup) :
    ∃ d', Store.upsertTables d (us.map fun u => u.1.mapping) = .ok d' ∧ Stands d' (withTables f us) ∧
      Store.upsertTables d' (us.map fun u => u.1.mapping) = .ok d' := by
  obtain ⟨es, h⟩ := h
  obtain ⟨cs, hcs, hup⟩ := h.upsert_eq us
  obtain ⟨d', hwrite⟩ := exists_write_of_rows h.rows ((Json.arr (cs.map (·.row))).write .file)
  have h' := RowsAre.of_write hcs (fun n e => h.inOrder_withTables) hwrite
  refine ⟨d', hup.trans hwrite, ⟨cs, h'⟩, ?_⟩
  obtain ⟨cs', hcs', hup'⟩ := h'.upsert_eq us
  have hagain : withTables (withTables f us) us = withTables f us := putAll_putAll (by rwa [List.map_map])
  rw [hagain] at hcs'
  rw [hup', hcs'.unique hcs]
  exact Directory.write_again hwrite (Place.tables.not_mem_parents .tables)

/-- Without a file there are no rows. -/
theorem stands_empty : Stands .empty fun _ => none := by
  refine ⟨[], ?_, List.nodup_nil, fun n e => ⟨nofun, fun ⟨e', he', _⟩ => absurd he' List.not_mem_nil⟩⟩
  rw [RowFile.rows, readJson_empty isTooLong_tables]
  rfl

end Store
end CardTransfer
