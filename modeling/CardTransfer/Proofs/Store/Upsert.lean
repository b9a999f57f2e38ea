import CardTransfer.Proofs.Store.Rows

/-!
# What storing does to what the rows say

Rows are read one by one. Two rows may have the same source id, and then the last of them counts for
an upsert. What a list of things says of an id is what the last of them with that id does
(`RowReader.verdict`). **Storing things is adding them to the list**, as far as that goes, and afterwards
each id is there only once (`RowReader.exists_upsert`). Nothing is assumed of the order of the rows,
of other members that they have, or of what kind their ids are.

The rows must be read back as they were written, but for the order of members, and what is read must be
plain: its ids are no lists or objects.
-/

namespace CardTransfer

namespace Store

open Directory (parents)

variable {d d' : Directory} {file : RowFile} {α : Type} {row : Json} {a : α}

/-- How the rows of a file are read and written: what is read has a source id and may count, with a
target. It is plain if it holds no lists or objects for ids. -/
structure RowReader (file : RowFile) (α : Type) where
  read : Json → Except Fault α
  write : α → Json
  source : α → Json
  settled? : α → Option Json
  Plain : α → Prop
  source_plain : ∀ {a}, Plain a → (source a).isCompound = false
  target_plain : ∀ {a v}, Plain a → settled? a = some v → v.isCompound = false
  keyed : ∀ {row a}, read row = .ok a → row.require file.idKey = .ok (source a)
  inOrder : ∀ {row a}, row.Lasting → read row = .ok a → Plain a → ∃ b, read row.inOrder = .ok b ∧
    source b = source a ∧ settled? b = settled? a ∧ Plain b

/-- Rows are written to their file. -/
theorem RowFile.exists_write {us : List (Json × Json)} (h : file.upsert d us = .ok d') :
    ∃ text, d.write file.path text = .ok d' := by
  obtain ⟨rows, -, h⟩ := bind_eq_ok.1 h
  obtain ⟨index, -, h⟩ := bind_eq_ok.1 h
  obtain ⟨merged, -, h⟩ := bind_eq_ok.1 h
  obtain ⟨vs, -, h⟩ := bind_eq_ok.1 h
  exact ⟨_, h⟩

namespace RowReader

variable {R : RowReader file α}

/-- A row that lasts and is read as something plain. -/
structure Fine (R : RowReader file α) (row : Json) (a : α) : Prop where
  lasting : row.Lasting
  read : R.read row = .ok a
  plain : R.Plain a

/-- What the stored rows are read as. -/
def Holds (R : RowReader file α) (d : Directory) (as : List α) : Prop :=
  ∃ ps : List (Json × α), file.rows d = .ok (ps.map (·.1)) ∧ as = ps.map (·.2) ∧
    ∀ p ∈ ps, R.Fine p.1 p.2

/-- What things say of an id: nothing, or that it counts or does not. -/
def verdict (R : RowReader file α) (as : List α) (id : Json) : Option (Option Json) :=
  (IdMap.ofList (as.map fun a => (R.source a, R.settled? a))).get? id

/-- Rows with what they are read as, the last one of each id. -/
def latest (R : RowReader file α) (ps : List (Json × α)) : IdMap (Json × α) :=
  IdMap.ofList (ps.map fun p => (R.source p.2, p))

/-- Something that can be stored: its row is read as the same, as far as that goes. -/
def Fit (R : RowReader file α) (u : α) : Prop :=
  ∃ b, R.Fine (R.write u) b ∧ R.source b = R.source u ∧ R.settled? b = R.settled? u

theorem asKey_source (h : R.Plain a) : (R.source a).asKey = .ok (R.source a) := by
  rw [Json.asKey, R.source_plain h]
  rfl

/-- The rows by their ids. -/
theorem index_eq (ps : List (Json × α)) (h : ∀ p ∈ ps, R.Fine p.1 p.2) :
    file.index (ps.map (·.1)) = .ok (IdMap.ofList (ps.map fun p => (R.source p.2, p.1))) := by
  have hpairs : ∀ p ∈ ps, (do return (← (← p.1.require file.idKey).asKey, p.1)) =
      (.ok (R.source p.2, p.1) : Except Fault (Json × Json)) := by
    intro p hp
    rw [R.keyed (h p hp).read, ok_bind, asKey_source (h p hp).plain]
    rfl
  rw [RowFile.index, List.mapM_map]
  exact congrArg (· >>= fun pairs => pure (IdMap.ofList pairs)) (mapM_eq_ok_map hpairs)

/-- Rows are put in one after the other. -/
theorem merge_eq {m : IdMap Json} {ps : List (Json × α)} (h : ∀ p ∈ ps, R.Fine p.1 p.2) :
    RowFile.merge m (ps.map fun p => (R.source p.2, p.1)) =
      .ok ((ps.map fun p => (R.source p.2, p.1)).foldl (fun m p => IdMap.insert m p.1 p.2) m) := by
  induction ps generalizing m with
  | nil => rfl
  | cons p ps ih =>
    rw [List.forall_mem_cons] at h
    rw [List.map_cons, RowFile.merge, List.foldlM_cons, asKey_source h.1.plain]
    exact ih h.2

/-- The last thing decides. -/
theorem verdict_append_singleton (as : List α) (u : α) (id : Json) :
    R.verdict (as ++ [u]) id =
      if (R.source u).sameId id then some (R.settled? u) else R.verdict as id := by
  rw [verdict, List.map_append]
  exact IdMap.get?_ofList_append_singleton

/-- Things that do not count change nothing where none has counted. -/
theorem join_verdict_append {as us : List α} (h : ∀ u ∈ us, R.settled? u = none ∧
    (R.verdict as (R.source u)).join = none) (id : Json) :
    (R.verdict (as ++ us) id).join = (R.verdict as id).join := by
  induction us using List.reverseRecOn with
  | nil => rw [List.append_nil]
  | append_singleton us u ih =>
    obtain ⟨hus, hu⟩ := List.forall_mem_append.1 h
    obtain ⟨hnone, hbefore⟩ := List.forall_mem_singleton.1 hu
    rw [← List.append_assoc, verdict_append_singleton, hnone]
    split
    · rename_i hsame
      have hid : R.verdict as (R.source u) = R.verdict as id :=
        IdMap.get?_congr ((Json.sameId_iff _ _).1 hsame)
      exact hbefore.symm.trans (congrArg Option.join hid)
    · exact ih hus

/-- No thing that counts is followed by one of the same id that does not. -/
def Steady (R : RowReader file α) (as : List α) : Prop := as.Pairwise fun a b =>
  (R.source a).sameId (R.source b) = true → (R.settled? a).isSome = true →
    (R.settled? b).isSome = true

/-- Things of different ids are steady. -/
theorem steady_of_nodup {as : List α} (h : (as.map fun a => (R.source a).key).Nodup) :
    R.Steady as := by
  refine (List.pairwise_map.1 (List.nodup_iff_pairwise_ne.1 h)).imp fun hne hsame => ?_
  exact absurd ((Json.sameId_iff _ _).1 hsame) hne

/-- What things say if others take their places that are the same, as far as that goes. -/
theorem verdict_map {β : Type} {bs : List β} {f g : β → α}
    (h : ∀ b ∈ bs, R.source (f b) = R.source (g b) ∧ R.settled? (f b) = R.settled? (g b)) (as : List α)
    (id : Json) : R.verdict (as ++ bs.map f) id = R.verdict (as ++ bs.map g) id := by
  unfold verdict
  rw [List.map_append, List.map_append, List.map_map, List.map_map]
  congr 3
  refine List.map_congr_left fun b hb => ?_
  rw [Function.comp_apply, Function.comp_apply, (h b hb).1, (h b hb).2]

/-- What things say of an id is what the last of them with that id says. -/
theorem verdict_eq_latest (ps : List (Json × α)) (id : Json) :
    R.verdict (ps.map (·.2)) id = ((R.latest ps).get? id).map fun p => R.settled? p.2 := by
  have hall : (ps.map (·.2)).map (fun a => (R.source a, R.settled? a)) =
      (ps.map fun p => (R.source p.2, p)).map fun p => (p.1, R.settled? p.2.2) := by
    rw [List.map_map, List.map_map]
    rfl
  rw [verdict, hall, IdMap.ofList_map fun p : Json × α => R.settled? p.2,
    IdMap.get?_map fun p : Json × α => R.settled? p.2]
  rfl

/-- **Of each id, the last row is written.** -/
theorem exists_written {ps : List (Json × α)} {vs : List Json}
    (h : Ids.sortValues (IdMap.ofList (ps.map fun p => (R.source p.2, p.1))) = .ok vs) :
    ∃ qs : List (Json × α), (∀ q ∈ qs, q ∈ ps) ∧ vs = qs.map (·.1) ∧ (qs.map fun q => (R.source q.2).key).Nodup ∧
      ∀ id, (R.latest qs).get? id = (R.latest ps).get? id := by
  let m := R.latest ps
  have once : m.keys.Nodup := IdMap.nodup_ofList
  have hm : ∀ q ∈ m, q.2 ∈ ps ∧ (R.source q.2.2).key = q.1.key := by
    intro q hq
    obtain ⟨q', hq', hkey, hvalue⟩ := IdMap.exists_of_mem_ofList hq
    obtain ⟨p, hp, rfl⟩ := List.mem_map.1 hq'
    rw [hkey, hvalue]
    exact ⟨hp, rfl⟩
  have hrows : IdMap.ofList (ps.map fun p => (R.source p.2, p.1)) = m.map fun q => (q.1, q.2.1) := by
    show _ = (IdMap.ofList _).map _
    rw [← IdMap.ofList_map fun p : Json × α => p.1, List.map_map]
    rfl
  rw [hrows] at h
  obtain ⟨ids, hids, hvs⟩ := bind_eq_ok.1 h
  have hperm : ids.Perm m.ids := by
    have hsame : IdMap.ids (m.map fun q => (q.1, q.2.1)) = m.ids := List.map_map
    rw [Ids.eq_of_sort hids, ← hsame]
    exact Sorting.sort_perm _ _
  refine ⟨ids.filterMap m.get?, fun q hq => ?_, ?_, ?_, fun id => ?_⟩
  · obtain ⟨id, -, hget⟩ := List.mem_filterMap.1 hq
    obtain ⟨p, hp, -, rfl⟩ := IdMap.exists_mem_of_get? hget
    exact (hm p hp).1
  · rw [← Except.ok.inj hvs, List.map_filterMap]
    exact List.filterMap_congr fun id _ => IdMap.get?_map ..
  · exact IdMap.nodup_values once (fun q hq => (hm q hq).2) hperm
  · exact (IdMap.get?_ofList_values once (fun q hq => (hm q hq).2) hperm (fun p => p) id).trans
      Option.map_id'

/-- **Rows that are written hold what they held**, each with its members in order. -/
theorem exists_holds {qs : List (Json × α)} (h : ∀ q ∈ qs, R.Fine q.1 q.2)
    (hparent : file.path ∉ parents file.path)
    (hwrite : d.writeJson file.path (.arr (qs.map (·.1))) = .ok d') :
    ∃ later : Json × α → α, R.Holds d' (qs.map later) ∧ ∀ q ∈ qs, R.read q.1.inOrder = .ok (later q) ∧
      R.source (later q) = R.source q.2 ∧ R.settled? (later q) = R.settled? q.2 := by
  have hinOrder : ∀ q : Json × α, ∃ b, q ∈ qs → R.read q.1.inOrder = .ok b ∧
      R.source b = R.source q.2 ∧ R.settled? b = R.settled? q.2 ∧ R.Plain b := by
    intro q
    by_cases hq : q ∈ qs
    · obtain ⟨b, hb⟩ := R.inOrder (h q hq).lasting (h q hq).read (h q hq).plain
      exact ⟨b, fun _ => hb⟩
    · exact ⟨q.2, fun h => absurd h hq⟩
  choose later hlater using hinOrder
  refine ⟨later, ⟨qs.map fun q => (q.1.inOrder, later q), ?_, ?_, ?_⟩, fun q hq =>
    ⟨(hlater q hq).1, (hlater q hq).2.1, (hlater q hq).2.2.1⟩⟩
  · have hlasting : (Json.arr (qs.map (·.1))).Lasting :=
      .arr (List.forall_mem_map.2 fun q hq => (h q hq).lasting)
    rw [RowFile.rows, Directory.readJson_writeJson hlasting hwrite hparent, Json.inOrder_arr,
      List.map_map, List.map_map]
    rfl
  · rw [List.map_map]
    rfl
  · refine List.forall_mem_map.2 fun q hq => ?_
    obtain ⟨hread, -, -, hplain⟩ := hlater q hq
    exact ⟨(h q hq).lasting.inOrder, hread, hplain⟩

/-- **Storing rows leaves the last row of each id**, and it is read with its members in order. -/
theorem exists_latest {ps us : List (Json × α)} (hrows : file.rows d = .ok (ps.map (·.1)))
    (hps : ∀ p ∈ ps, R.Fine p.1 p.2) (hus : ∀ u ∈ us, R.Fine u.1 u.2)
    (hparent : file.path ∉ parents file.path)
    (hup : file.upsert d (us.map fun u => (R.source u.2, u.1)) = .ok d') :
    ∃ (qs : List (Json × α)) (later : Json × α → α), R.Holds d' (qs.map later) ∧
      (qs.map fun q => (R.source q.2).key).Nodup ∧ (∀ q ∈ qs, q ∈ ps ++ us) ∧
      (∀ id, (R.latest qs).get? id = (R.latest (ps ++ us)).get? id) ∧
      ∀ q ∈ qs, R.read q.1.inOrder = .ok (later q) ∧ R.source (later q) = R.source q.2 ∧
        R.settled? (later q) = R.settled? q.2 := by
  have hall : ∀ p ∈ ps ++ us, R.Fine p.1 p.2 := List.forall_mem_append.2 ⟨hps, hus⟩
  rw [RowFile.upsert, hrows, ok_bind, index_eq _ hps, ok_bind, merge_eq hus, ← IdMap.ofList_append,
    ← List.map_append, ok_bind] at hup
  obtain ⟨vs, hsort, hwrite⟩ := bind_eq_ok.1 hup
  obtain ⟨qs, hqs, rfl, once, hlatest⟩ := exists_written hsort
  obtain ⟨later, hholds, hlater⟩ := exists_holds (fun q hq => hall q (hqs q hq)) hparent hwrite
  exact ⟨qs, later, hholds, once, hqs, hlatest, hlater⟩

/-- **Storing things is adding them**, as far as what is said of an id goes. -/
theorem exists_upsert {as us : List α} (h : R.Holds d as) (hus : ∀ u ∈ us, R.Fit u)
    (hparent : file.path ∉ parents file.path)
    (hup : file.upsert d (us.map fun u => (R.source u, R.write u)) = .ok d') :
    ∃ as', R.Holds d' as' ∧ R.Steady as' ∧ ∀ id, R.verdict as' id = R.verdict (as ++ us) id := by
  obtain ⟨ps, hrows, rfl, hps⟩ := h
  -- the rows that are added, with what they are read as
  have hread : ∀ u, ∃ b, u ∈ us → R.Fine (R.write u) b ∧ R.source b = R.source u ∧
      R.settled? b = R.settled? u := by
    intro u
    by_cases hu : u ∈ us
    · obtain ⟨b, hb⟩ := hus u hu
      exact ⟨b, fun _ => hb⟩
    · exact ⟨u, fun h => absurd h hu⟩
  choose readBack hreadBack using hread
  have hadded : (us.map fun u => (R.source u, R.write u)) =
      (us.map fun u => (R.write u, readBack u)).map fun p => (R.source p.2, p.1) := by
    rw [List.map_map]
    refine List.map_congr_left fun u hu => ?_
    rw [Function.comp_apply, (hreadBack u hu).2.1]
  rw [hadded] at hup
  obtain ⟨qs, later, hholds, once, -, hlatest, hlater⟩ := exists_latest hrows hps
    (List.forall_mem_map.2 fun u hu => (hreadBack u hu).1) hparent hup
  refine ⟨qs.map later, hholds, steady_of_nodup ?_, fun id => ?_⟩
  · have hkeys : ((qs.map later).map fun a => (R.source a).key) =
        qs.map fun q => (R.source q.2).key := by
      rw [List.map_map]
      exact List.map_congr_left fun q hq => congrArg Json.key (hlater q hq).2.1
    rwa [hkeys]
  · have hwritten : R.verdict (qs.map later) id = R.verdict (qs.map (·.2)) id :=
      verdict_map (fun q hq => (hlater q hq).2) [] id
    have hall : (ps ++ us.map fun u => (R.write u, readBack u)).map (·.2) =
        ps.map (·.2) ++ us.map readBack := by
      rw [List.map_append, List.map_map]
      rfl
    have hread := verdict_map (g := fun u => u) (fun u hu => (hreadBack u hu).2) (ps.map (·.2)) id
    rw [List.map_id'] at hread
    rw [hwritten, verdict_eq_latest, hlatest, ← verdict_eq_latest, hall, hread]

end RowReader
end Store
end CardTransfer
