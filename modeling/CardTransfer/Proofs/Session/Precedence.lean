import CardTransfer.Proofs.Session.Reload

/-!
# What decides a correspondence

A correspondence is built in sweeps, and what it comes to can be told without them: a mapping that
counts decides, then the very same name, then the only name that is the same in lower case without
blanks and underscores, and otherwise nothing does (`Precedence`). That holds after every rebuild
(`rebuild_follows_precedence`), in catalogs where ids tell tables and fields apart and names the
tables of the target and the fields of each.
-/

namespace CardTransfer

open IdMap (Hashable)

/-! ### Catalogs that tell their tables and fields apart -/

/-- A value that may serve as an id. -/
structure Json.IsId (a : Json) : Prop where
  isCompound : a.isCompound = false
  ne_null : a ≠ .null

/-- A catalog whose tables and fields are told by their ids, with texts for names and schemas. -/
structure Catalog.Proper (c : Catalog) : Prop where
  tableId : ∀ t ∈ c.tables, t.id.IsId
  fieldId : ∀ f ∈ c.fields, f.id.IsId
  tableName : ∀ t ∈ c.tables, ∃ s, t.name = .str s
  schema : ∀ t ∈ c.tables, ∃ s, t.schema = .str s
  fieldName : ∀ f ∈ c.fields, ∃ s, f.name = .str s
  tablesOnce : (c.tables.map (·.id.key)).Nodup
  fieldsOnce : (c.fields.map (·.id.key)).Nodup

/-- A catalog where schema and name tell a table, and its name a field of a table. -/
structure Catalog.Named (c : Catalog) : Prop where
  tables : (c.tables.map fun t => (t.schema, t.name)).Nodup
  fields : ∀ t ∈ c.tables, (t.fields.map Field.name).Nodup

/-! ### What a name designates -/

/-- What a name designates among items: the one that has this very name, or else the only one that has
a name like it. -/
inductive Designated {α : Type} (exact alike : α → Prop) (items : List α) (a : α) : Prop where
  | exact (mem : a ∈ items) (same : exact a)
  | lone (other : ∀ b ∈ items, ¬exact b) (mem : a ∈ items) (like : alike a)
      (only : ∀ b ∈ items, alike b → b = a)

/-- The table of a catalog that the name of a table designates. -/
def Catalog.Designates (target : Catalog) (t u : Table) : Prop :=
  Designated (fun u => u.schema = t.schema ∧ u.name = t.name)
    (fun u => Naming.normalized u.name = Naming.normalized t.name) target.tables u

/-- The field of a table that the name of a field designates. -/
def Table.Designates (target : Table) (f g : Field) : Prop :=
  Designated (fun g => g.name = f.name)
    (fun g => Naming.normalized g.name = Naming.normalized f.name) target.fields g

section

variable {α : Type} {items : List α} {nameOf : α → Json} {name : Json}

theorem Designated.mem {exact alike : α → Prop} {a : α} (h : Designated exact alike items a) : a ∈ items := by
  cases h with
  | exact mem _ => exact mem
  | lone _ mem _ _ => exact mem

theorem only?_eq_some_iff {a : α} (h : items.Nodup) :
    only? items = some a ↔ a ∈ items ∧ ∀ b ∈ items, b = a := by
  constructor
  · intro ha
    unfold only? at ha
    split at ha
    · cases ha
      exact ⟨List.mem_singleton_self _, fun b hb => List.mem_singleton.1 hb⟩
    · cases ha
  · rintro ⟨ha, hall⟩
    have hsingle : items = [a] := by
      refine List.perm_singleton.1 ((List.perm_ext_iff_of_nodup h (List.nodup_singleton a)).2 fun b => ?_)
      rw [List.mem_singleton]
      exact ⟨hall b, fun hb => hb ▸ ha⟩
    rw [hsingle]
    rfl

/-- A text can be compared. -/
theorem exists_normalized (h : ∃ s, name = .str s) : ∃ cs, Naming.normalized name = .ok cs := by
  obtain ⟨s, rfl⟩ := h
  unfold Naming.normalized Naming.textOf Json.orElse
  split
  · exact ⟨_, rfl⟩
  · exact ⟨_, rfl⟩

/-- **The only item with a name like that of another.** -/
theorem exists_loneNamesake?_iff (hname : ∃ s, name = .str s)
    (hitems : ∀ a ∈ items, ∃ s, nameOf a = .str s) (hnodup : items.Nodup) :
    ∃ r, loneNamesake? nameOf name items = .ok r ∧ ∀ a, r = some a ↔ a ∈ items ∧
      Naming.normalized (nameOf a) = Naming.normalized name ∧
      ∀ b ∈ items, Naming.normalized (nameOf b) = Naming.normalized name → b = a := by
  let keyOf (a : α) : List Char := (Naming.normalized (nameOf a)).toOption.getD []
  have hkeyOf : ∀ a ∈ items, Naming.normalized (nameOf a) = .ok (keyOf a) := by
    intro a ha
    obtain ⟨cs, hcs⟩ := exists_normalized (hitems a ha)
    show _ = Except.ok ((Naming.normalized (nameOf a)).toOption.getD [])
    rw [hcs]
    rfl
  obtain ⟨key, hkey⟩ := exists_normalized hname
  have hlike : ∀ a ∈ items, (keyOf a == key) = true ↔
      Naming.normalized (nameOf a) = Naming.normalized name := by
    intro a ha
    rw [hkeyOf a ha, hkey, Except.ok.injEq, beq_iff_eq]
  have hlone : loneNamesake? nameOf name items = .ok (only? (items.filter fun a => keyOf a == key)) := by
    have hnamed : items.mapM (fun a => do return (a, ← Naming.normalized (nameOf a))) =
        (.ok (items.map fun a => (a, keyOf a)) : Except Fault _) :=
      mapM_eq_ok_map fun a ha => by rw [hkeyOf a ha, ok_bind]; rfl
    unfold loneNamesake?
    rw [hkey, ok_bind, hnamed, ok_bind, List.filter_map, List.map_map]
    exact congrArg (fun l => Except.ok (only? l)) (List.map_id _)
  refine ⟨_, hlone, fun a => ?_⟩
  rw [only?_eq_some_iff (hnodup.filter _)]
  simp only [List.mem_filter]
  constructor
  · rintro ⟨⟨ha, hsame⟩, honly⟩
    exact ⟨ha, (hlike a ha).1 hsame, fun b hb h => honly b ⟨hb, (hlike b hb).2 h⟩⟩
  · rintro ⟨ha, hsame, honly⟩
    exact ⟨⟨ha, (hlike a ha).2 hsame⟩, fun b hb => honly b hb.1 ((hlike b hb.1).1 hb.2)⟩

/-- **What a name designates is found** by looking for the very same name first, where only one item may
have it. -/
theorem exists_designated {exact : α → Prop} {x : Except Fault (Option α)} (isExact : α → Bool)
    (hname : ∃ s, name = .str s) (hitems : ∀ a ∈ items, ∃ s, nameOf a = .str s)
    (hnodup : items.Nodup) (hexact : ∀ a ∈ items, isExact a = true ↔ exact a)
    (hone : ∀ a ∈ items, ∀ b ∈ items, exact a → exact b → a = b)
    (hfound : ∀ a, items.find? isExact = some a → x = .ok (some a))
    (hnone : items.find? isExact = none → x = loneNamesake? nameOf name items) :
    ∃ r, x = .ok r ∧ ∀ a, r = some a ↔
      Designated exact (fun a => Naming.normalized (nameOf a) = Naming.normalized name) items a := by
  cases hfind : items.find? isExact with
  | some u =>
    have hmem : u ∈ items := List.mem_of_find?_eq_some hfind
    have hu : exact u := (hexact u hmem).1 (List.find?_some hfind)
    refine ⟨some u, hfound u hfind, fun a => ⟨?_, ?_⟩⟩
    · rintro ⟨⟩
      exact .exact hmem hu
    · rintro (⟨ha, hsame⟩ | ⟨hother, -, -, -⟩)
      · rw [hone a ha u hmem hsame hu]
      · exact absurd hu (hother u hmem)
  | none =>
    have hother : ∀ b ∈ items, ¬exact b := fun b hb hsame =>
      List.find?_eq_none.1 hfind b hb ((hexact b hb).2 hsame)
    obtain ⟨r, hr, hiff⟩ := exists_loneNamesake?_iff hname hitems hnodup
    refine ⟨r, (hnone hfind).trans hr, fun a => (hiff a).trans ⟨?_, ?_⟩⟩
    · rintro ⟨ha, hlike, honly⟩
      exact .lone hother ha hlike honly
    · rintro (⟨ha, hsame⟩ | ⟨-, ha, hlike, honly⟩)
      · exact absurd hsame (hother a ha)
      · exact ⟨ha, hlike, honly⟩

end

section

variable {source target : Catalog} {t u : Table} {f : Field}

theorem Json.same_str_iff {v w : Json} (hv : ∃ s, v = .str s) (hw : ∃ s, w = .str s) :
    v.same w = true ↔ v = w := by
  obtain ⟨s, rfl⟩ := hv
  obtain ⟨s', rfl⟩ := hw
  rw [Json.same, beq_iff_eq, Json.str.injEq]

theorem Catalog.Proper.nodup_tables (h : target.Proper) : target.tables.Nodup := h.tablesOnce.of_map _

theorem Catalog.mem_fields (ht : t ∈ source.tables) (hf : f ∈ t.fields) : f ∈ source.fields :=
  List.mem_flatMap.2 ⟨t, ht, hf⟩

theorem Catalog.Proper.nodup_fields (h : target.Proper) (hu : u ∈ target.tables) : u.fields.Nodup := by
  have hall : (target.tables.flatMap Table.fields).Nodup := h.fieldsOnce.of_map _
  exact (List.nodup_flatMap.1 hall).1 u hu

/-- A table is matched to the one that its name designates. -/
theorem exists_matchTable?_iff (hsource : source.Proper) (htarget : target.Proper)
    (hnamed : target.Named) (ht : t ∈ source.tables) :
    ∃ r, matchTable? target t = .ok r ∧ ∀ u, r = some u ↔ target.Designates t u := by
  refine exists_designated (fun u => u.schema.same t.schema && u.name.same t.name)
    (hsource.tableName t ht) htarget.tableName htarget.nodup_tables ?_ ?_
    (fun u hu => by rw [matchTable?, hu]) (fun hnone => by rw [matchTable?, hnone])
  · intro u hu
    rw [Bool.and_eq_true, Json.same_str_iff (htarget.schema u hu) (hsource.schema t ht),
      Json.same_str_iff (htarget.tableName u hu) (hsource.tableName t ht)]
  · rintro u hu v hv ⟨hschema, hname⟩ ⟨hschema', hname'⟩
    refine List.inj_on_of_nodup_map hnamed.tables hu hv ?_
    rw [hschema, hname, hschema', hname']

/-- A field is matched to the one that its name designates. -/
theorem exists_matchField?_iff (hsource : source.Proper) (htarget : target.Proper)
    (hnamed : target.Named) (hf : f ∈ source.fields) (hu : u ∈ target.tables) :
    ∃ r, matchField? u f = .ok r ∧ ∀ g, r = some g ↔ u.Designates f g := by
  have hname : ∀ g ∈ u.fields, ∃ s, g.name = .str s := fun g hg =>
    htarget.fieldName g (Catalog.mem_fields hu hg)
  refine exists_designated (fun g => g.name.same f.name)
    (hsource.fieldName f hf) hname (htarget.nodup_fields hu) ?_ ?_
    (fun g hg => by rw [matchField?, hg]) (fun hnone => by rw [matchField?, hnone])
  · intro g hg
    rw [Json.same_str_iff (hname g hg) (hsource.fieldName f hf)]
  · intro g hg g' hg' h h'
    exact List.inj_on_of_nodup_map (hnamed.fields u hu) hg hg' (h.trans h'.symm)

end

/-! ### Sweeps -/

theorem sweep_append {σ α : Type} (f : σ → α → σ × Except Fault Unit) (s : σ) (as bs : List α) :
    sweep f s (as ++ bs) = match sweep f s as with
      | (s, .ok ()) => sweep f s bs
      | (s, .error e) => (s, .error e) := by
  induction as generalizing s with
  | nil => rfl
  | cons a as ih =>
    rw [List.cons_append, sweep, sweep]
    split
    · exact ih _
    · rfl

theorem sweep_map {σ α β : Type} (f : σ → β → σ × Except Fault Unit) (g : α → β) (s : σ) (as : List α) :
    sweep f s (as.map g) = sweep (fun s a => f s (g a)) s as := by
  induction as generalizing s with
  | nil => rfl
  | cons a as ih =>
    rw [List.map_cons, sweep, sweep]
    split
    · exact ih _
    · rfl

/-- Sweeps of parts make one sweep. -/
theorem sweep_flatMap {σ α β : Type} {f : σ → α → σ × Except Fault Unit}
    {g : σ → β → σ × Except Fault Unit} {parts : α → List β} {as : List α}
    (h : ∀ a ∈ as, ∀ s, f s a = sweep g s (parts a)) (s : σ) :
    sweep f s as = sweep g s (as.flatMap parts) := by
  induction as generalizing s with
  | nil => rfl
  | cons a as ih =>
    rw [List.forall_mem_cons] at h
    rw [List.flatMap_cons, sweep_append, sweep, h.1]
    obtain ⟨s', r⟩ := sweep g s (parts a)
    cases r with
    | ok _ => exact ih h.2 s'
    | error e => rfl

section

variable {β U : Type} {m : IdMap Json} {idOf : β → Json} {value : β → Option Json}
  {missing : β → Option U} {done : List β} {b : β} {s s' : IdMap Json × List U}

/-- What a step does to things that have been placed and a list of what has no counterpart: it gives a
thing its value, or leaves it what it had and lists it if it is missing. -/
inductive Places (m : IdMap Json) (idOf : β → Json) (value : β → Option Json) (missing : β → Option U)
    (b : β) (s s' : IdMap Json × List U) : Prop where
  | given (v : Json) (hvalue : value b = some v) (hmissing : missing b = none)
      (heq : s' = (IdMap.insert s.1 (idOf b) v, s.2))
  | left (hvalue : value b = m.get? (idOf b)) (heq : s' = (s.1, s.2 ++ (missing b).toList))

/-- Things that have been placed in addition to those of a map. -/
structure Placed (m : IdMap Json) (idOf : β → Json) (value : β → Option Json) (missing : β → Option U)
    (done : List β) (s : IdMap Json × List U) : Prop where
  own : ∀ b ∈ done, s.1.get? (idOf b) = value b
  others : ∀ id, (∀ b ∈ done, (idOf b).sameId id = false) → s.1.get? id = m.get? id
  missing : s.2 = done.filterMap missing

/-- One more thing, with an id of its own. -/
theorem Placed.step (h : Placed m idOf value missing done s)
    (hnew : ∀ b' ∈ done, (idOf b').sameId (idOf b) = false) (hb : Places m idOf value missing b s s') :
    Placed m idOf value missing (done ++ [b]) s' := by
  have hothers {id : Json} (hid : ∀ b' ∈ done ++ [b], (idOf b').sameId id = false) :
      (∀ b' ∈ done, (idOf b').sameId id = false) ∧ (idOf b).sameId id = false :=
    ⟨fun b' hb' => hid b' (List.mem_append_left _ hb'),
      hid b (List.mem_append_right _ (List.mem_singleton_self b))⟩
  cases hb with
  | given v hvalue hmissing heq =>
    subst heq
    refine ⟨fun b' hb' => ?_, fun id hid => ?_, ?_⟩
    · rw [IdMap.get?_insert]
      rcases List.mem_append.1 hb' with hb' | hb'
      · have hne : (idOf b).sameId (idOf b') = false := by
          rw [Json.sameId, Bool.beq_comm]
          exact hnew b' hb'
        rw [hne, if_neg Bool.false_ne_true, h.own b' hb']
      · rw [List.mem_singleton.1 hb', Json.sameId_refl, if_pos rfl, hvalue]
    · rw [IdMap.get?_insert, (hothers hid).2, if_neg Bool.false_ne_true, h.others id (hothers hid).1]
    · rw [List.filterMap_append, ← h.missing, List.filterMap_cons_none hmissing]
      exact (List.append_nil _).symm
  | left hvalue heq =>
    subst heq
    refine ⟨fun b' hb' => ?_, fun id hid => h.others id (hothers hid).1, ?_⟩
    · rcases List.mem_append.1 hb' with hb' | hb'
      · exact h.own b' hb'
      · rw [List.mem_singleton.1 hb', hvalue]
        exact h.others _ hnew
    · rw [List.filterMap_append, ← h.missing]
      cases hmissing : missing b <;> simp [hmissing]

/-- What an id has is what a thing of this id got, or what the map has. -/
theorem Placed.get?_cases (h : Placed m idOf value missing done s) (id : Json) :
    (∃ b ∈ done, (idOf b).sameId id = true ∧ s.1.get? id = value b) ∨
      (∀ b ∈ done, (idOf b).sameId id = false) ∧ s.1.get? id = m.get? id := by
  by_cases hb : ∃ b ∈ done, (idOf b).sameId id = true
  · obtain ⟨b, hb, hsame⟩ := hb
    refine .inl ⟨b, hb, hsame, ?_⟩
    rw [← IdMap.get?_congr ((Json.sameId_iff _ _).1 hsame), h.own b hb]
  · have hnone : ∀ b ∈ done, (idOf b).sameId id = false := fun b hmem =>
      Bool.eq_false_iff.2 fun hsame => hb ⟨b, hmem, hsame⟩
    exact .inr ⟨hnone, h.others id hnone⟩

/-- **All things are placed**, each with an id of its own. -/
theorem exists_placed {place : IdMap Json × List U → β → Except Fault (IdMap Json × List U)}
    {items : List β} (honce : (items.map fun b => (idOf b).key).Nodup)
    (hstep : ∀ b ∈ items, ∀ s : IdMap Json × List U, s.1.get? (idOf b) = m.get? (idOf b) →
      ∃ s', place s b = .ok s' ∧ Places m idOf value missing b s s') :
    ∃ r, sweep (fun s b => orLast s (place s b)) (m, []) items = (r, .ok ()) ∧
      Placed m idOf value missing items r := by
  refine sweep_ok (fun done b s hpre h => ?_) ⟨nofun, fun _ _ => rfl, rfl⟩
  have hne := List.pairwise_map.1 (List.nodup_iff_pairwise_ne.1 honce)
  have hnew : ∀ b' ∈ done, (idOf b').sameId (idOf b) = false := by
    intro b' hb'
    rw [Bool.eq_false_iff, Ne, Json.sameId_iff]
    exact (List.pairwise_append.1 (hne.sublist hpre.sublist)).2.2 b' hb' b (List.mem_singleton_self b)
  obtain ⟨s', hs', hplaces⟩ := hstep b (hpre.subset (List.mem_append_right _ (List.mem_singleton_self b)))
    s (h.others _ hnew)
  exact ⟨s', by rw [hs']; rfl, h.step hnew hplaces⟩

end

namespace Correspondence

variable {source target : Catalog} {m n tables : IdMap Json}

/-! ### Mappings that name each source once -/

/-- Sources of mappings, each with its target if the mapping counts; all are told by their ids, and no
source is named twice. -/
structure Once (pairs : List (Json × Option Json)) : Prop where
  sources : ∀ p ∈ pairs, p.1.isCompound = false
  targets : ∀ p ∈ pairs, ∀ v, p.2 = some v → v.isCompound = false
  distinct : (pairs.map (·.1.key)).Nodup

theorem Once.sound {pairs : List (Json × Option Json)} (h : Once pairs) : Sound pairs where
  ids := h.sources
  targets := h.targets
  steady := by
    have hne := List.pairwise_map.1 (List.nodup_iff_pairwise_ne.1 h.distinct)
    exact hne.imp fun hkey hsame => absurd ((Json.sameId_iff _ _).1 hsame) hkey

/-- **What mappings settle**, where no source is named twice. -/
theorem Once.exists_settled {α : Type} {source : α → Json} {settled? : α → Option Json} {as : List α}
    (h : Once (as.map fun a => (source a, settled? a))) :
    ∃ m, settled (as.map fun a => (source a, settled? a)) = (m, .ok ()) ∧ Hashable m ∧
      (∀ id v, m.get? id = some v ↔ ∃ a ∈ as, (source a).sameId id = true ∧ settled? a = some v) ∧
      ∀ id, m.get? id = none ↔ ∀ a ∈ as, (source a).sameId id = true → settled? a = none := by
  obtain ⟨m, hm, hhash, hget⟩ := Correspondence.exists_settled h.sound
  have hsome : ∀ id v, m.get? id = some v ↔
      ∃ a ∈ as, (source a).sameId id = true ∧ settled? a = some v := by
    intro id v
    rw [hget, IdMap.ofList_eq_self h.distinct, Option.join_eq_some_iff]
    constructor
    · intro hv
      obtain ⟨p, hp, hsame, hvalue⟩ := IdMap.exists_mem_of_get? hv
      obtain ⟨a, ha, rfl⟩ := List.mem_map.1 hp
      exact ⟨a, ha, hsame, hvalue⟩
    · rintro ⟨a, ha, hsame, hvalue⟩
      have hmem := List.mem_map_of_mem (f := fun a => (source a, settled? a)) ha
      rw [← IdMap.get?_congr ((Json.sameId_iff _ _).1 hsame), IdMap.get?_of_mem h.distinct hmem, hvalue]
  refine ⟨m, hm, hhash, hsome, fun id => ?_⟩
  rw [Option.eq_none_iff_forall_ne_some]
  constructor
  · intro hnone a ha hsame
    rw [Option.eq_none_iff_forall_ne_some]
    exact fun v hv => hnone v ((hsome id v).2 ⟨a, ha, hsame, hv⟩)
  · intro hnone v hv
    obtain ⟨a, ha, hsame, hvalue⟩ := (hsome id v).1 hv
    rw [hnone a ha hsame] at hvalue
    cases hvalue

/-! ### Tables and fields as they are placed -/

/-- The target of a table: that of the map, or else the id of what is found for it. -/
def tableTarget? (m : IdMap Json) (found : Table → Option Table) (t : Table) : Option Json :=
  (m.get? t.id).or ((found t).map Table.id)

/-- What is listed of a table without target. -/
def missingTable? (m : IdMap Json) (found : Table → Option Table) (t : Table) : Option UnmatchedTable :=
  if (tableTarget? m found t).isNone then some ⟨t.id, t.name, t.schema⟩ else none

theorem missingTable?_eq_some_iff {found : Table → Option Table} {t : Table} {w : UnmatchedTable} :
    missingTable? m found t = some w ↔ tableTarget? m found t = none ∧ w = ⟨t.id, t.name, t.schema⟩ := by
  unfold missingTable?
  rw [Option.ite_none_right_eq_some, Option.isNone_iff_eq_none, Option.some_inj, eq_comm (a := w)]

/-- **The tables are placed** by the map and what is found. -/
theorem exists_placedTables {found : Table → Option Table} {ts : List Table}
    (honce : (ts.map (·.id.key)).Nodup) (hfound : ∀ t ∈ ts, matchTable? target t = .ok (found t)) :
    ∃ r, sweep (fun s t => orLast s (placeTable target s t)) (m, []) ts = (r, .ok ()) ∧
      Placed m Table.id (tableTarget? m found) (missingTable? m found) ts r := by
  refine exists_placed honce fun t ht s hs => ?_
  unfold placeTable IdMap.has
  rw [hs, hfound t ht]
  cases hget : IdMap.get? m t.id with
  | some v =>
    have hvalue : tableTarget? m found t = IdMap.get? m t.id := by rw [tableTarget?, hget]; rfl
    refine ⟨s, rfl, .left hvalue ?_⟩
    rw [missingTable?, hvalue, hget]
    exact Prod.ext rfl (List.append_nil _).symm
  | none =>
    have hvalue : tableTarget? m found t = (found t).map Table.id := by rw [tableTarget?, hget]; rfl
    cases hu : found t with
    | some u =>
      rw [hu] at hvalue
      exact ⟨_, rfl, .given u.id hvalue (by rw [missingTable?, hvalue]; rfl) rfl⟩
    | none =>
      rw [hu] at hvalue
      exact ⟨_, rfl, .left (hvalue.trans hget.symm) (by rw [missingTable?, hvalue]; rfl)⟩

/-- The target of a field: that of the map, or else the id of what is found for it in the counterpart of
its table. -/
def fieldTarget? (n : IdMap Json) (counterpart : Table → Option Table)
    (found : Table → Field → Option Field) (p : Table × Field) : Option Json :=
  (n.get? p.2.id).or ((counterpart p.1).bind fun u => (found u p.2).map Field.id)

/-- What is listed of a field without target in a table with a counterpart. -/
def missingField? (n : IdMap Json) (counterpart : Table → Option Table)
    (found : Table → Field → Option Field) (p : Table × Field) : Option UnmatchedField :=
  if (counterpart p.1).isSome && (fieldTarget? n counterpart found p).isNone then
    some ⟨p.2.id, p.2.name, p.1.qualifiedName, p.1.id⟩
  else none

section

variable {counterpart : Table → Option Table} {found : Table → Field → Option Field} {p : Table × Field}

theorem fieldTarget?_eq_some_iff {x : Json} : fieldTarget? n counterpart found p = some x ↔
    n.get? p.2.id = some x ∨ n.get? p.2.id = none ∧
      ∃ u, counterpart p.1 = some u ∧ ∃ g, found u p.2 = some g ∧ x = g.id := by
  unfold fieldTarget?
  simp only [Option.or_eq_some_iff, Option.bind_eq_some_iff, Option.map_eq_some_iff, eq_comm (a := x)]

theorem missingField?_eq_some_iff {w : UnmatchedField} : missingField? n counterpart found p = some w ↔
    (counterpart p.1).isSome = true ∧ fieldTarget? n counterpart found p = none ∧
      w = ⟨p.2.id, p.2.name, p.1.qualifiedName, p.1.id⟩ := by
  unfold missingField?
  rw [Option.ite_none_right_eq_some, Bool.and_eq_true, Option.isNone_iff_eq_none, Option.some_inj,
    and_assoc, eq_comm (a := w)]

end

/-- The fields of tables, with their tables. -/
def tableFields (ts : List Table) : List (Table × Field) :=
  ts.flatMap fun t => t.fields.map fun f => (t, f)

theorem mem_tableFields {ts : List Table} {p : Table × Field} :
    p ∈ tableFields ts ↔ p.1 ∈ ts ∧ p.2 ∈ p.1.fields := by
  unfold tableFields
  simp only [List.mem_flatMap, List.mem_map]
  constructor
  · rintro ⟨t, ht, f, hf, rfl⟩
    exact ⟨ht, hf⟩
  · rintro ⟨ht, hf⟩
    exact ⟨p.1, ht, p.2, hf, rfl⟩

theorem map_snd_tableFields (ts : List Table) : (tableFields ts).map Prod.snd = ts.flatMap Table.fields := by
  unfold tableFields
  rw [List.map_flatMap]
  refine List.flatMap_congr fun t _ => ?_
  rw [List.map_map]
  exact List.map_id _

/-- The table with the target of a table as its id. -/
def counterpart? (target : Catalog) (tables : IdMap Json) (t : Table) : Option Table :=
  target.tableById? ((tables.get? t.id).getD .null)

/-- **The fields are placed** by the map and what is found. -/
theorem exists_placedFields {found : Table → Field → Option Field} {ts : List Table}
    (hhash : Hashable tables) (honce : ((ts.flatMap Table.fields).map (·.id.key)).Nodup)
    (hfound : ∀ t ∈ ts, ∀ f ∈ t.fields, ∀ u, counterpart? target tables t = some u →
      matchField? u f = .ok (found u f)) :
    ∃ r, sweep (placeFields target tables n) ([], []) ts = (r, .ok ()) ∧
      Placed [] (fun p => p.2.id) (fieldTarget? n (counterpart? target tables) found)
        (missingField? n (counterpart? target tables) found) (tableFields ts) r := by
  let place (s : PlacedFields) (p : Table × Field) : Except Fault PlacedFields :=
    placeField n p.1 (counterpart? target tables p.1) s p.2
  have hsweep : ∀ t ∈ ts, ∀ s, placeFields target tables n s t =
      sweep (fun s p => orLast s (place s p)) s (t.fields.map fun f => (t, f)) := by
    intro t _ s
    have hkey : ((tables.get? t.id).getD .null).asKey = .ok ((tables.get? t.id).getD .null) := by
      cases hget : tables.get? t.id with
      | none => rfl
      | some v =>
        rw [Option.getD_some, Json.asKey, hhash _ _ hget]
        rfl
    unfold placeFields
    rw [hkey, sweep_map]
    rfl
  rw [sweep_flatMap hsweep]
  refine exists_placed ?_ fun p hp s hs => ?_
  · rw [← map_snd_tableFields, List.map_map] at honce
    exact honce
  obtain ⟨ht, hf⟩ := mem_tableFields.1 hp
  show ∃ s', placeField n p.1 (counterpart? target tables p.1) s p.2 = .ok s' ∧ _
  unfold placeField
  cases hget : n.get? p.2.id with
  | some v =>
    have hvalue : fieldTarget? n (counterpart? target tables) found p = some v := by
      rw [fieldTarget?, hget]
      rfl
    exact ⟨_, rfl, .given v hvalue (by rw [missingField?, hvalue, Option.isNone_some, Bool.and_false]; rfl) rfl⟩
  | none =>
    cases hu : counterpart? target tables p.1 with
    | none =>
      have hvalue : fieldTarget? n (counterpart? target tables) found p = none := by
        rw [fieldTarget?, hget, hu]
        rfl
      refine ⟨s, rfl, .left hvalue ?_⟩
      rw [missingField?, hu]
      exact Prod.ext rfl (List.append_nil _).symm
    | some u =>
      have hvalue : fieldTarget? n (counterpart? target tables) found p = (found u p.2).map Field.id := by
        rw [fieldTarget?, hget, hu]
        rfl
      simp only [hfound p.1 ht p.2 hf u hu, ok_bind]
      cases hg : found u p.2 with
      | some g =>
        rw [hg] at hvalue
        exact ⟨_, rfl, .given g.id hvalue (by rw [missingField?, hvalue, Option.map_some,
          Option.isNone_some, Bool.and_false]; rfl) rfl⟩
      | none =>
        rw [hg] at hvalue
        exact ⟨_, rfl, .left hvalue (by rw [missingField?, hu, hvalue]; rfl)⟩

/-! ### Precedence -/

/-- The table of the target that a table of the source corresponds to. -/
def Counterpart (c : Correspondence) (t u : Table) : Prop :=
  u ∈ c.target.tables ∧ ∃ x, c.resolveTable t.id = some x ∧ u.id.sameId x = true

/-- What decides a correspondence. A mapping that counts decides first; then the name does, for a table
among the tables of the target and for a field among those of the counterpart of its table. A table has a
target or is listed as unmatched, and so is a field in a table with a counterpart. -/
structure Precedence (c : Correspondence) (ts : List TableMapping) (fs : List FieldMapping) : Prop where
  tables : ∀ id x, c.resolveTable id = some x ↔
    (∃ m ∈ ts, m.source.sameId id = true ∧ m.settled? = some x) ∨
    (∀ m ∈ ts, m.source.sameId id = true → m.settled? = none) ∧
      ∃ t ∈ c.source.tables, t.id.sameId id = true ∧ ∃ u, c.target.Designates t u ∧ x = u.id
  fields : ∀ t ∈ c.source.tables, ∀ f ∈ t.fields, ∀ x, c.resolveField f.id = some x ↔
    (∃ m ∈ fs, m.source.sameId f.id = true ∧ m.settled? = some x) ∨
    (∀ m ∈ fs, m.source.sameId f.id = true → m.settled? = none) ∧
      ∃ u, Counterpart c t u ∧ ∃ g, u.Designates f g ∧ x = g.id
  otherFields : ∀ id, (∀ f ∈ c.source.fields, f.id.sameId id = false) → c.resolveField id = none
  unmatchedTables : ∀ w, w ∈ c.unmatchedTables ↔
    ∃ t ∈ c.source.tables, c.resolveTable t.id = none ∧ w = ⟨t.id, t.name, t.schema⟩
  unmatchedFields : ∀ w, w ∈ c.unmatchedFields ↔ ∃ t ∈ c.source.tables, ∃ f ∈ t.fields,
    (∃ u, Counterpart c t u) ∧ c.resolveField f.id = none ∧ w = ⟨f.id, f.name, t.qualifiedName, t.id⟩
  eitherTable : ∀ t ∈ c.source.tables, Xor (∃ x, c.resolveTable t.id = some x)
    (∃ w ∈ c.unmatchedTables, w.id.sameId t.id = true)

theorem bind_toOption {o : Option Json} (h : ∀ v, o = some v → v ≠ .null) : o.bind Json.toOption = o := by
  cases o with
  | none => rfl
  | some v =>
    cases v with
    | null => exact absurd rfl (h .null rfl)
    | _ => rfl

theorem ne_null_of_toOption {v w : Json} (h : v.toOption = some w) : w ≠ .null := by
  rintro rfl
  cases v <;> cases h

theorem ne_null_of_table {a : TableMapping} {v : Json} (h : a.settled? = some v) : v ≠ .null := by
  unfold TableMapping.settled? at h
  split at h
  · exact ne_null_of_toOption h
  · cases h

theorem ne_null_of_field {a : FieldMapping} {v : Json} (h : a.settled? = some v) : v ≠ .null := by
  unfold FieldMapping.settled? at h
  split at h
  · exact ne_null_of_toOption h
  · cases h

/-- The only table with an id. -/
theorem tableById?_eq_some_iff (htarget : target.Proper) {id : Json} {u : Table} :
    target.tableById? id = some u ↔ u ∈ target.tables ∧ u.id.sameId id = true := by
  refine ⟨fun h => ⟨mem_of_tableById? h, sameId_of_tableById? h⟩, fun ⟨hu, hsame⟩ => ?_⟩
  have hsome : (target.tableById? id).isSome = true :=
    List.find?_isSome.2 ⟨u, List.mem_reverse.2 hu, hsame⟩
  obtain ⟨v, hv⟩ := Option.isSome_iff_exists.1 hsome
  have hsame' := sameId_of_tableById? hv
  rw [Json.sameId_iff] at hsame hsame'
  rw [hv, List.inj_on_of_nodup_map htarget.tablesOnce (mem_of_tableById? hv) hu (hsame'.trans hsame.symm)]

theorem key_eq_null {v : Json} (h : v.key = .null) : v = .null := by
  cases v with
  | null => rfl
  | float x =>
    simp only [Json.key] at h
    split at h
    · split at h <;> cases h
    · cases h
  | _ => cases h

section

variable {found : Table → Option Table} {ts : List Table} {s : PlacedTables}

/-- Tables that have been placed have what the map or their names give them. -/
theorem get?_placedTables (h : Placed m Table.id (tableTarget? m found) (missingTable? m found) ts s)
    (honce : (ts.map (·.id.key)).Nodup) (id x : Json) : s.1.get? id = some x ↔ m.get? id = some x ∨
      m.get? id = none ∧ ∃ t ∈ ts, t.id.sameId id = true ∧ ∃ u, found t = some u ∧ x = u.id := by
  rcases h.get?_cases id with ⟨t, ht, hsame, hget⟩ | ⟨hnone, hget⟩
  · rw [hget, tableTarget?, IdMap.get?_congr ((Json.sameId_iff _ _).1 hsame), Option.or_eq_some_iff,
      Option.map_eq_some_iff]
    refine or_congr_right (and_congr_right fun _ => ⟨?_, ?_⟩)
    · rintro ⟨u, hu, rfl⟩
      exact ⟨t, ht, hsame, u, hu, rfl⟩
    · rintro ⟨t', ht', hsame', u, hu, rfl⟩
      rw [List.inj_on_of_nodup_map honce ht' ht
        (((Json.sameId_iff _ _).1 hsame').trans ((Json.sameId_iff _ _).1 hsame).symm)] at hu
      exact ⟨u, hu, rfl⟩
  · rw [hget]
    refine ⟨.inl, ?_⟩
    rintro (hm | ⟨-, t, ht, hsame, -⟩)
    · exact hm
    · rw [hnone t ht] at hsame
      cases hsame

end

section

variable {c : Correspondence} {ts : List TableMapping} {fs : List FieldMapping}

/-- The counterpart of a table is looked up by its target. -/
theorem counterpart?_eq_some_iff (htarget : target.Proper) {t u : Table} : counterpart? target tables t = some u ↔
      u ∈ target.tables ∧ ∃ x, tables.get? t.id = some x ∧ u.id.sameId x = true := by
  unfold counterpart?
  rw [tableById?_eq_some_iff htarget]
  refine and_congr_right fun hu => ?_
  cases hget : tables.get? t.id with
  | some x => simp
  | none =>
    -- null is no id
    have hnull : u.id.sameId .null = false := by
      rw [Bool.eq_false_iff, Ne, Json.sameId_iff]
      exact fun hk => (htarget.tableId u hu).ne_null (key_eq_null hk)
    simp [hnull]

/-- The tables are placed by the map and by what their names designate. -/
theorem exists_tables (hsource : source.Proper) (htarget : target.Proper) (hnamed : target.Named)
    (m : IdMap Json) : ∃ found r,
      sweep (fun s t => orLast s (placeTable target s t)) (m, []) source.tables = (r, .ok ()) ∧
      Placed m Table.id (tableTarget? m found) (missingTable? m found) source.tables r ∧
      ∀ t ∈ source.tables, ∀ u, found t = some u ↔ target.Designates t u := by
  let found (t : Table) : Option Table := (matchTable? target t).toOption.join
  have hfound : ∀ t ∈ source.tables, matchTable? target t = .ok (found t) ∧
      ∀ u, found t = some u ↔ target.Designates t u := by
    intro t ht
    obtain ⟨r, hr, hiff⟩ := exists_matchTable?_iff hsource htarget hnamed ht
    have heq : found t = r := congrArg (fun x => Option.join (Except.toOption x)) hr
    exact heq ▸ ⟨hr, hiff⟩
  obtain ⟨r, hr, hplaced⟩ := exists_placedTables hsource.tablesOnce fun t ht => (hfound t ht).1
  exact ⟨found, r, hr, hplaced, fun t ht => (hfound t ht).2⟩

/-- The fields are placed by the map and by what their names designate in the counterparts of their
tables. -/
theorem exists_fields (hsource : source.Proper) (htarget : target.Proper) (hnamed : target.Named)
    (hhash : Hashable tables) (n : IdMap Json) : ∃ found r,
      sweep (placeFields target tables n) ([], []) source.tables = (r, .ok ()) ∧
      Placed [] (fun p => p.2.id) (fieldTarget? n (counterpart? target tables) found)
        (missingField? n (counterpart? target tables) found) (tableFields source.tables) r ∧
      ∀ t ∈ source.tables, ∀ f ∈ t.fields, ∀ u ∈ target.tables, ∀ g,
        found u f = some g ↔ u.Designates f g := by
  let found (u : Table) (f : Field) : Option Field := (matchField? u f).toOption.join
  have hfound : ∀ t ∈ source.tables, ∀ f ∈ t.fields, ∀ u ∈ target.tables,
      matchField? u f = .ok (found u f) ∧ ∀ g, found u f = some g ↔ u.Designates f g := by
    intro t ht f hf u hu
    obtain ⟨r, hr, hiff⟩ := exists_matchField?_iff hsource htarget hnamed
      (Catalog.mem_fields ht hf) hu
    have heq : found u f = r := congrArg (fun x => Option.join (Except.toOption x)) hr
    exact heq ▸ ⟨hr, hiff⟩
  obtain ⟨r, hr, hplaced⟩ := exists_placedFields (n := n) hhash hsource.fieldsOnce
    fun t ht f hf u hu => (hfound t ht f hf u (mem_of_tableById? hu)).1
  exact ⟨found, r, hr, hplaced, fun t ht f hf u hu => (hfound t ht f hf u hu).2⟩

/-- Ids of one thing have one target. -/
theorem resolveTable_congr {a b : Json} (h : a.sameId b = true) : c.resolveTable a = c.resolveTable b := by
  unfold resolveTable
  rw [IdMap.get?_congr ((Json.sameId_iff _ _).1 h)]

/-- **A table has a target or is unmatched**, and not both, where those without target are unmatched. -/
theorem either_of_unmatched (h : ∀ w, w ∈ c.unmatchedTables ↔
      ∃ t ∈ source.tables, c.resolveTable t.id = none ∧ w = ⟨t.id, t.name, t.schema⟩)
    {t : Table} (ht : t ∈ source.tables) :
    Xor (∃ x, c.resolveTable t.id = some x) (∃ w ∈ c.unmatchedTables, w.id.sameId t.id = true) := by
  cases hresolve : c.resolveTable t.id with
  | none =>
    refine .inr ⟨⟨⟨t.id, t.name, t.schema⟩, (h _).2 ⟨t, ht, hresolve, rfl⟩, Json.sameId_refl _⟩, ?_⟩
    rintro ⟨x, hx⟩
    cases hx
  | some x =>
    refine .inl ⟨⟨x, rfl⟩, ?_⟩
    rintro ⟨w, hw, hsame⟩
    obtain ⟨t', -, hnone, rfl⟩ := (h w).1 hw
    rw [resolveTable_congr hsame, hresolve] at hnone
    cases hnone

/-- **In catalogs that tell their tables and fields apart, and with mappings that name no source twice, a
correspondence can be built, and precedence decides it.** -/
theorem exists_rebuild_precedence (hsource : source.Proper) (htarget : target.Proper)
    (hnamed : target.Named) (hts : Once (ts.map fun a => (a.source, a.settled?)))
    (hfs : Once (fs.map fun a => (a.source, a.settled?))) {start : Correspondence}
    (hs : start.source = source) (ht : start.target = target) :
    ∃ c, start.rebuild (.ok ts) (.ok fs) = (c, .ok ()) ∧ c.source = source ∧ c.target = target ∧
      Precedence c ts fs := by
  obtain ⟨m, hm, hhash, hmsome, hmnone⟩ := hts.exists_settled
  obtain ⟨n, hn, -, hnsome, hnnone⟩ := hfs.exists_settled
  obtain ⟨found, r, hr, hplaced, hfound⟩ := exists_tables hsource htarget hnamed m
  have hget := get?_placedTables hplaced hsource.tablesOnce
  have hvalues : ∀ id v, r.1.get? id = some v → v.IsId := by
    intro id v hv
    rcases (hget id v).1 hv with hv | ⟨-, t, ht, -, u, hu, rfl⟩
    · obtain ⟨a, -, -, hvalue⟩ := (hmsome id v).1 hv
      exact ⟨hhash id v hv, ne_null_of_table hvalue⟩
    · exact htarget.tableId u ((hfound t ht u).1 hu).mem
  obtain ⟨foundField, q, hq, hplaced', hfoundField⟩ :=
    exists_fields hsource htarget hnamed (fun id v hv => (hvalues id v hv).isCompound) n
  let c : Correspondence := ⟨source, target, r.1, q.1, r.2, q.2⟩
  have hbuilt : Built source target m n c := ⟨rfl, rfl, hr, hq⟩
  have htable (id : Json) : c.resolveTable id = r.1.get? id :=
    bind_toOption fun v hv => (hvalues id v hv).ne_null
  have hown : ∀ t ∈ source.tables, c.resolveTable t.id = tableTarget? m found t := fun t ht =>
    (htable t.id).trans (hplaced.own t ht)
  have hcounterpart {t u : Table} : counterpart? target r.1 t = some u ↔ Counterpart c t u := by
    rw [counterpart?_eq_some_iff htarget, ← htable]
    rfl
  have hfield : ∀ t ∈ source.tables, ∀ f ∈ t.fields, c.resolveField f.id =
      fieldTarget? n (counterpart? target r.1) foundField (t, f) := by
    intro t ht f hf
    have heq := hplaced'.own (t, f) (mem_tableFields.2 ⟨ht, hf⟩)
    refine Eq.trans (bind_toOption fun v hv => ?_) heq
    rw [heq, fieldTarget?_eq_some_iff, hnsome] at hv
    rcases hv with ⟨a, -, -, hvalue⟩ | ⟨-, u, hu, g, hg, rfl⟩
    · exact ne_null_of_field hvalue
    · have hu' := (hcounterpart.1 hu).1
      exact (htarget.fieldId g (Catalog.mem_fields hu'
        ((hfoundField t ht f hf u hu' g).1 hg).mem)).ne_null
  have hunmatched : ∀ w, w ∈ c.unmatchedTables ↔
      ∃ t ∈ source.tables, c.resolveTable t.id = none ∧ w = ⟨t.id, t.name, t.schema⟩ := by
    intro w
    show w ∈ r.2 ↔ _
    rw [hplaced.missing, List.mem_filterMap]
    refine exists_congr fun t => and_congr_right fun ht => ?_
    rw [missingTable?_eq_some_iff, hown t ht]
  refine ⟨c, hbuilt.rebuild hs ht hm hn, rfl, rfl, ?_⟩
  constructor
  case tables =>
    intro id x
    rw [htable, hget, hmsome, hmnone]
    refine or_congr_right (and_congr_right fun _ => exists_congr fun t => and_congr_right fun ht => ?_)
    refine and_congr_right fun _ => exists_congr fun u => ?_
    rw [hfound t ht u]
  case fields =>
    intro t ht f hf x
    rw [hfield t ht f hf, fieldTarget?_eq_some_iff, hnsome, hnnone]
    refine or_congr_right (and_congr_right fun _ => exists_congr fun u => ?_)
    rw [hcounterpart]
    refine and_congr_right fun hu => exists_congr fun g => ?_
    rw [hfoundField t ht f hf u hu.1 g]
  case otherFields =>
    intro id hid
    have hnone : q.1.get? id = none := hplaced'.others id fun p hp =>
      hid p.2 (Catalog.mem_fields (mem_tableFields.1 hp).1 (mem_tableFields.1 hp).2)
    show (q.1.get? id).bind Json.toOption = none
    rw [hnone]
    rfl
  case unmatchedTables => exact hunmatched
  case unmatchedFields =>
    intro w
    show w ∈ q.2 ↔ _
    rw [hplaced'.missing, List.mem_filterMap]
    constructor
    · rintro ⟨p, hp, hw⟩
      obtain ⟨ht, hf⟩ := mem_tableFields.1 hp
      obtain ⟨hcounter, htarget, rfl⟩ := missingField?_eq_some_iff.1 hw
      obtain ⟨u, hu⟩ := Option.isSome_iff_exists.1 hcounter
      exact ⟨p.1, ht, p.2, hf, ⟨u, hcounterpart.1 hu⟩, (hfield p.1 ht p.2 hf).trans htarget, rfl⟩
    · rintro ⟨t, ht, f, hf, ⟨u, hu⟩, hnone, rfl⟩
      refine ⟨(t, f), mem_tableFields.2 ⟨ht, hf⟩, missingField?_eq_some_iff.2 ⟨?_, ?_, rfl⟩⟩
      · exact Option.isSome_iff_exists.2 ⟨u, hcounterpart.2 hu⟩
      · rw [← hfield t ht f hf, hnone]
  case eitherTable => exact fun t ht => either_of_unmatched hunmatched ht

end

end Correspondence

namespace Session

open Correspondence (Once Precedence)
open Store

/-- What a rebuild gives. -/
theorem run_rebuild {s : Session} {d : Directory} {c : Correspondence} {r : Except Fault Unit}
    (h : s.correspondence.rebuild (tableMappings d) (fieldMappings d) = (c, r)) :
    rebuild.run { s with directory := d } =
      (r, { s with directory := d, correspondence := c }) := by
  have hrun : rebuild.run { s with directory := d } =
      ((s.correspondence.rebuild (tableMappings d) (fieldMappings d)).2, { s with
        directory := d
        correspondence := (s.correspondence.rebuild (tableMappings d) (fieldMappings d)).1 }) := rfl
  rw [h] at hrun
  exact hrun

/-- **After a rebuild precedence decides what everything corresponds to**, and nothing is guessed. The ids of
each catalog tell its tables and fields apart, schema and name the tables of the target and names the
fields of each, and the stored mappings name no source twice; then a rebuild does not fail. -/
theorem rebuild_follows_precedence {s : Session} {ts : List TableMapping} {fs : List FieldMapping}
    (hsource : s.correspondence.source.Proper) (htarget : s.correspondence.target.Proper)
    (hnamed : s.correspondence.target.Named) (htables : tableMappings s.directory = .ok ts)
    (hfields : fieldMappings s.directory = .ok fs)
    (hts : Once (ts.map fun m => (m.source, m.settled?)))
    (hfs : Once (fs.map fun m => (m.source, m.settled?))) :
    ∃ c, rebuild.run s = (.ok (), { s with correspondence := c }) ∧
      c.source = s.correspondence.source ∧ c.target = s.correspondence.target ∧ Precedence c ts fs := by
  obtain ⟨c, hrebuild, hs, ht, hprecedence⟩ :=
    Correspondence.exists_rebuild_precedence hsource htarget hnamed hts hfs rfl rfl
  rw [← htables, ← hfields] at hrebuild
  exact ⟨c, run_rebuild hrebuild, hs, ht, hprecedence⟩

/-- There is a store with given mappings of tables, and none of fields. -/
theorem exists_tableMappings (ms : List TypedTable) : ∃ d, Tidy d ∧
    tableMappings d = .ok (ms.map (·.kept)) ∧ fieldMappings d = .ok [] := by
  let rows : List Json := ms.map fun m => m.mapping.toRow
  have hlasting : (Json.arr rows).Lasting := .arr (List.forall_mem_map.2 fun m _ => lasting_table m)
  obtain ⟨d, hwrite, htidy⟩ := (tidy_empty.write .tables ((Json.arr rows).write .file)).2 isTooLong_tables
  have hrows : tableFile.rows d = .ok (ms.map tableRows.stored) := by
    rw [RowFile.rows, Directory.readJson_writeJson hlasting hwrite (Place.tables.not_mem_parents .tables),
      Json.inOrder_arr, List.map_map]
    rfl
  refine ⟨d, htidy, ?_, fieldMappings_of_holds
    (hasMappings_empty.fields.congr (Place.tables.sameAt .fields (by decide) hwrite))⟩
  rw [tableMappings, hrows, ok_bind, List.mapM_map]
  exact mapM_eq_ok_map fun m _ => ofRow_tableRows m

/-- Two tables, of which one has a mapping that counts and the other a name that is like one of the
target. -/
def goodsSession (d : Directory) : Session := { (default : Session) with
  directory := d
  correspondence := ⟨
    ⟨.int 1, [⟨.int 5, .str "order_items", .str "public", .str "", [
        ⟨.int 50, .str "id", .str "", .str "", .int 5⟩, ⟨.int 51, .str "total", .str "", .str "", .int 5⟩]⟩,
      ⟨.int 6, .str "stock", .str "public", .str "", [⟨.int 60, .str "id", .str "", .str "", .int 6⟩]⟩]⟩,
    ⟨.int 2, [⟨.int 7, .str "OrderItems", .str "public", .str "", [
        ⟨.int 70, .str "ID", .str "", .str "", .int 7⟩]⟩,
      ⟨.int 8, .str "goods", .str "public", .str "", [⟨.int 80, .str "id", .str "", .str "", .int 8⟩]⟩]⟩,
    [], [], [], []⟩ }

theorem digitCount_mod_le (n : Nat) : Text.digitCount (n % 100 : Nat) ≤ Text.digitLimit := by
  have hall : ∀ n : Fin 100, Text.digitCount n.1 ≤ Text.digitLimit := by decide
  exact hall ⟨n % 100, Nat.mod_lt _ (by decide)⟩

/-- The last two digits of a number can be read. -/
def smallInt (n : Nat) : ShortInt := ⟨(n % 100 : Nat), digitCount_mod_le n⟩

theorem rereadText_empty : Json.rereadText "" = "" := by decide +kernel

/-- The mapping that counts. -/
def goodsMapping : TypedTable :=
  ⟨smallInt 6, ⟨"", rereadText_empty⟩, some (smallInt 8), ⟨"", rereadText_empty⟩, 1.0, [], true,
    some (smallInt 8), false⟩

theorem isId_int (n : Int) : (Json.int n).IsId := ⟨rfl, nofun⟩

theorem rebuild_follows_precedence_goods : ∃ d, tableMappings d = .ok [goodsMapping.kept] ∧
    fieldMappings d = .ok [] ∧ (goodsSession d).correspondence.source.Proper ∧
    (goodsSession d).correspondence.target.Proper ∧ (goodsSession d).correspondence.target.Named ∧
    Once ([goodsMapping.kept].map fun m => (m.source, m.settled?)) ∧
    Once (([] : List FieldMapping).map fun m => (m.source, m.settled?)) ∧
    ∃ c, rebuild.run (goodsSession d) = (.ok (), { goodsSession d with correspondence := c }) ∧
      c.source = (goodsSession d).correspondence.source ∧
      c.target = (goodsSession d).correspondence.target ∧ Precedence c [goodsMapping.kept] [] := by
  obtain ⟨d, -, htables, hfields⟩ := exists_tableMappings [goodsMapping]
  have hsource : (goodsSession d).correspondence.source.Proper := by
    constructor <;> simp [goodsSession, isId_int, Catalog.fields]
  have htarget : (goodsSession d).correspondence.target.Proper := by
    constructor <;> simp [goodsSession, isId_int, Catalog.fields]
  have hnamed : (goodsSession d).correspondence.target.Named := by
    constructor <;> simp [goodsSession]
  have hts : Once ([goodsMapping.kept].map fun m => (m.source, m.settled?)) := by
    refine ⟨?_, ?_, List.nodup_singleton _⟩
    · rintro p hp
      cases List.mem_singleton.1 hp
      rfl
    · rintro p hp v hv
      cases List.mem_singleton.1 hp
      cases hv
      rfl
  have hfs : Once (([] : List FieldMapping).map fun m => (m.source, m.settled?)) :=
    ⟨nofun, nofun, List.nodup_nil⟩
  exact ⟨d, htables, hfields, hsource, htarget, hnamed, hts, hfs,
    rebuild_follows_precedence hsource htarget hnamed htables hfields hts hfs⟩

end Session
end CardTransfer
