import CardTransfer.Proofs.Catalog.Suggestion
import CardTransfer.Proofs.Session.Maps
import CardTransfer.Session.Mappings

/-!
# What a session has in memory and what it would load

The correspondence in memory should be the one that a fresh load of the same catalogs gives, with the
mappings that are stored by then (`reloaded`). Setting or confirming mappings of tables rebuilds it from
the store. A mapping of a field is entered into it instead, and suggestions are only stored; that this
comes to the same is a matter of what the rows settle before and after (`RowReader.exists_upsert`) and of
what a rebuilt correspondence makes of it (`Built.insert`, `Built.congr`).

Each call keeps both the same (`Current.after`), up to two things that the store allows. A field that is
not in the source has a target in memory once it has been set, and none after a load. And where the store
names an id twice, first with a mapping that counts and then with one that does not, the next writing
drops the one that counts (`field_named_twice_is_forgotten`).
-/

namespace CardTransfer

open IdMap (Same Hashable)
open Correspondence (Built Changed Sound Within settled)

namespace Store

open Directory (SameAt)

variable {file : RowFile} {α : Type} {R : RowReader file α} {d d' : Directory} {as : List α} {a : α}

theorem RowReader.Holds.fine (h : R.Holds d as) (ha : a ∈ as) : ∃ row, R.Fine row a := by
  obtain ⟨ps, -, rfl, hps⟩ := h
  obtain ⟨p, hp, rfl⟩ := List.mem_map.1 ha
  exact ⟨p.1, hps p hp⟩

/-- The rows are read as what they hold. -/
theorem RowReader.Holds.read (h : R.Holds d as) :
    (file.rows d >>= fun rows => rows.mapM R.read) = .ok as := by
  obtain ⟨ps, hrows, rfl, hps⟩ := h
  rw [hrows, ok_bind, List.mapM_map]
  exact mapM_eq_ok_map fun p hp => (hps p hp).read

theorem tableMappings_of_holds {ts : List TableMapping} (h : tableReader.Holds d ts) :
    tableMappings d = .ok ts := h.read

theorem fieldMappings_of_holds {fs : List FieldMapping} (h : fieldReader.Holds d fs) :
    fieldMappings d = .ok fs := h.read

/-- What the rows hold depends on what is at their place. -/
theorem RowReader.Holds.congr (h : R.Holds d as) (hsame : SameAt file.path d d') : R.Holds d' as := by
  obtain ⟨ps, hrows, has, hps⟩ := h
  refine ⟨ps, ?_, has, hps⟩
  rw [← hrows, RowFile.rows, RowFile.rows, hsame.readJson]

/-- The mappings that a store has: they are plain, last, and none that counts is followed by one of the same
source that does not. -/
structure HasMappings (d : Directory) (ts : List TableMapping) (fs : List FieldMapping) : Prop where
  tables : tableReader.Holds d ts
  fields : fieldReader.Holds d fs
  steadyTables : tableReader.Steady ts
  steadyFields : fieldReader.Steady fs

variable {ts us : List TableMapping} {fs : List FieldMapping}

/-- What pairs settle, for rows that are plain and steady. -/
theorem RowReader.Holds.sound (h : R.Holds d as) (steady : R.Steady as) :
    Sound (as.map fun a => (R.source a, R.settled? a)) where
  ids := List.forall_mem_map.2 fun a ha => by
    obtain ⟨row, hfine⟩ := h.fine ha
    exact R.source_plain hfine.plain
  targets := List.forall_mem_map.2 fun a ha v hv => by
    obtain ⟨row, hfine⟩ := h.fine ha
    exact R.target_plain hfine.plain hv
  steady := List.pairwise_map.2 steady

theorem HasMappings.exists_settled (h : HasMappings d ts fs) : ∃ m n,
    settled (ts.map fun t => (t.source, t.settled?)) = (m, .ok ()) ∧
      settled (fs.map fun f => (f.source, f.settled?)) = (n, .ok ()) ∧ Hashable m ∧
      (∀ id, m.get? id = (tableReader.verdict ts id).join) ∧
      ∀ id, n.get? id = (fieldReader.verdict fs id).join := by
  obtain ⟨m, hm, hhash, hget⟩ := Correspondence.exists_settled (h.tables.sound h.steadyTables)
  obtain ⟨n, hn, -, hget'⟩ := Correspondence.exists_settled (h.fields.sound h.steadyFields)
  exact ⟨m, n, hm, hn, hhash, hget, hget'⟩

/-- **Storing table mappings** that can be stored. -/
theorem HasMappings.upsertTables (h : HasMappings d ts fs) (hus : ∀ u ∈ us, tableReader.Fit u)
    (hup : Store.upsertTables d us = .ok d') : ∃ ts', HasMappings d' ts' fs ∧
      ∀ id, tableReader.verdict ts' id = tableReader.verdict (ts ++ us) id := by
  obtain ⟨text, hwrite⟩ := RowFile.exists_write hup
  obtain ⟨ts', hholds, hsteady, hverdict⟩ := RowReader.exists_upsert h.tables hus
    (Place.tables.not_mem_parents .tables) hup
  exact ⟨ts', ⟨hholds, h.fields.congr (Place.tables.sameAt .fields (by decide) hwrite), hsteady,
    h.steadyFields⟩, hverdict⟩

/-- **Storing a field mapping** that can be stored. -/
theorem HasMappings.upsertField (h : HasMappings d ts fs) {u : FieldMapping} (hu : fieldReader.Fit u)
    (hup : Store.upsertField d u = .ok d') : ∃ fs', HasMappings d' ts fs' ∧
      ∀ id, fieldReader.verdict fs' id = fieldReader.verdict (fs ++ [u]) id := by
  obtain ⟨text, hwrite⟩ := RowFile.exists_write hup
  obtain ⟨fs', hholds, hsteady, hverdict⟩ := RowReader.exists_upsert h.fields
    (List.forall_mem_singleton.2 hu) (Place.fields.not_mem_parents .fields) hup
  exact ⟨fs', ⟨h.tables.congr (Place.fields.sameAt .tables (by decide) hwrite), hholds, h.steadyTables,
    hsteady⟩, hverdict⟩

end Store

open Store

namespace Session

/-- The correspondence that a load of the same catalogs gives, with the mappings that are stored now. -/
def reloaded (s : Session) : Except Fault Correspondence := do
  let start ← Correspondence.start s.correspondence.source s.correspondence.target
  let (c, r) := start.rebuild (tableMappings s.directory) (fieldMappings s.directory)
  r
  return c

/-- Agreement of the correspondence in memory with a fresh one, when fields with some ids have been set. -/
structure Agrees (named : Ids) (c fresh : Correspondence) : Prop where
  source : c.source = fresh.source
  target : c.target = fresh.target
  tables : Same c.tables fresh.tables
  unmatchedTables : c.unmatchedTables = fresh.unmatchedTables
  fields : ∀ f ∈ c.source.fields, c.fields.get? f.id = fresh.fields.get? f.id
  unmatchedFields : c.unmatchedFields = fresh.unmatchedFields
  absent : Within c.source.fields fresh.fields
  outside : ∀ id, c.fields.has id = true →
    (∃ f ∈ c.source.fields, f.id.sameId id = true) ∨ named.has id = true

/-- A session whose correspondence agrees with the one that the stored mappings give. -/
structure Current (source target : Catalog) (named : Ids) (s : Session) : Prop where
  exists_fresh : ∃ ts fs m n fresh, HasMappings s.directory ts fs ∧
    settled (ts.map fun t => (t.source, t.settled?)) = (m, .ok ()) ∧
    settled (fs.map fun f => (f.source, f.settled?)) = (n, .ok ()) ∧
    Built source target m n fresh ∧ Agrees named s.correspondence fresh

variable {s : Session} {source target : Catalog} {named : Ids} {d : Directory}
  {ts : List TableMapping} {fs : List FieldMapping}

/-- Fields that are set may be more. -/
theorem Agrees.mono {more : Ids} {c fresh : Correspondence} (h : Agrees named c fresh) :
    Agrees (named ++ more) c fresh := by
  refine { h with outside := fun id hid => (h.outside id hid).imp_right fun hnamed => ?_ }
  rw [Ids.has_append, hnamed, Bool.true_or]

/-- **A correspondence that has been rebuilt agrees with a fresh one.** -/
theorem exists_rebuilt (hsource : source.Typed) (htarget : target.Typed) (h : HasMappings d ts fs)
    {c : Correspondence} (hs : c.source = source) (ht : c.target = target) (named : Ids) (s : Session) :
    Current source target named { s with
      directory := d
      correspondence := (c.rebuild (tableMappings d) (fieldMappings d)).1 } := by
  obtain ⟨m, n, hm, hn, hhash, -, -⟩ := h.exists_settled
  obtain ⟨fresh, hbuilt, hwithin⟩ := Correspondence.exists_built hsource htarget hhash n
  have hwithin' : Within fresh.source.fields fresh.fields := hbuilt.source_eq.symm ▸ hwithin
  rw [tableMappings_of_holds h.tables, fieldMappings_of_holds h.fields, hbuilt.rebuild hs ht hm hn]
  exact ⟨ts, fs, m, n, fresh, h, hm, hn, hbuilt, rfl, rfl, fun _ => rfl, rfl, fun _ _ => rfl, rfl, hwithin',
    fun id hid => .inl (hwithin' id hid)⟩

/-! ### One call -/

/-- What comes of writing to the store and going on. -/
theorem state_writeStore_bind {α : Type} (write : Directory → Except Fault Directory)
    (next : Unit → Action α) (s : Session) : ((writeStore write >>= next).run s).2 =
      match write s.directory with
      | .ok d => ((next ()).run { s with directory := d }).2
      | .error _ => s := by
  unfold writeStore
  simp only [Steps.run_bind, Steps.run_get, Steps.run_ofExcept]
  cases write s.directory <;> rfl

/-- What comes of building the correspondence anew. -/
theorem state_rebuild_bind_pure {α : Type} (a : α) (s : Session) :
    ((rebuild >>= fun _ => pure a : Action α).run s).2 = { s with
      correspondence := (s.correspondence.rebuild (tableMappings s.directory)
        (fieldMappings s.directory)).1 } := by
  rw [Steps.run_bind_pure]
  rfl

/-- **Table mappings that are stored and followed by a rebuild.** -/
theorem Current.store_rebuild {α : Type} (h : Current source target named s) (hsource : source.Typed)
    (htarget : target.Typed) {us : List TableMapping} (hus : ∀ u ∈ us, tableReader.Fit u) (a : α) :
    Current source target named
      ((do writeStore (upsertTables · us); rebuild; return a : Action α).run s).2 := by
  obtain ⟨ts, fs, m, n, fresh, hmappings, hm, hn, hbuilt, hagrees⟩ := h
  rw [state_writeStore_bind]
  cases hup : upsertTables s.directory us with
  | error f => exact ⟨ts, fs, m, n, fresh, hmappings, hm, hn, hbuilt, hagrees⟩
  | ok d =>
    obtain ⟨ts', hmappings', -⟩ := hmappings.upsertTables hus hup
    show Current _ _ _ ((rebuild >>= fun _ => pure a : Action α).run { s with directory := d }).2
    rw [state_rebuild_bind_pure]
    exact exists_rebuilt hsource htarget hmappings' (hagrees.source.trans hbuilt.source_eq)
      (hagrees.target.trans hbuilt.target_eq) named s

theorem asKey_json (n : ShortInt) : n.json.asKey = .ok n.json := rfl

theorem Current.setTable (h : Current source target named s) (hsource : source.Typed)
    (htarget : target.Typed) (a b : ShortInt) :
    Current source target named ((Session.setTable a.json b.json).run s).2 := by
  obtain ⟨ts, fs, m, n, fresh, hmappings, hm, hn, hbuilt, hagrees⟩ := h
  have hs : s.correspondence.source = source := hagrees.source.trans hbuilt.source_eq
  have ht : s.correspondence.target = target := hagrees.target.trans hbuilt.target_eq
  have hrun : ((Session.setTable a.json b.json).run s).2 =
      ((do
        writeStore (upsertTables · [s.correspondence.manualTable a.json b.json ts])
        rebuild
        return s.correspondence.manualTable a.json b.json ts : Action TableMapping).run s).2 := by
    unfold Session.setTable readStore
    simp only [asKey_json, Steps.run_bind, Steps.run_get, Steps.run_ofExcept,
      tableMappings_of_holds hmappings.tables]
  rw [hrun]
  refine Current.store_rebuild ⟨ts, fs, m, n, fresh, hmappings, hm, hn, hbuilt, hagrees⟩ hsource htarget
    (List.forall_mem_singleton.2 ?_) _
  refine Correspondence.fit_manualTable (hs ▸ hsource) (ht ▸ htarget) (fun u hu => ?_) a b
  obtain ⟨row, hrow⟩ := hmappings.tables.fine hu
  exact lasts_of_fine hrow

theorem Current.autoConfirm (h : Current source target named s) (hsource : source.Typed)
    (htarget : target.Typed) (threshold : Json) :
    Current source target named ((Session.autoConfirm threshold).run s).2 := by
  have hcurrent := h
  obtain ⟨ts, fs, m, n, fresh, hmappings, hm, hn, hbuilt, hagrees⟩ := h
  unfold Session.autoConfirm readStore
  simp only [Steps.run_bind, Steps.run_get, Steps.run_ofExcept,
    tableMappings_of_holds hmappings.tables]
  cases hconfirmed : TableMapping.autoConfirmed threshold ts with
  | error f => exact hcurrent
  | ok us =>
    have hus : ∀ u ∈ us, tableReader.Fit u := by
      intro u hu
      obtain ⟨m, hm, rfl⟩ := TableMapping.exists_of_autoConfirmed hconfirmed hu
      obtain ⟨row, hrow⟩ := hmappings.tables.fine hm
      exact TableMapping.fit_confirm hrow
    cases us with
    | nil => exact hcurrent
    | cons u us => exact hcurrent.store_rebuild hsource htarget hus (u :: us)

/-- Suggestions are stored for tables only whose mappings do not count, and so nothing has to be rebuilt. -/
theorem Current.suggestTables (h : Current source target named s) (hsource : source.Typed)
    (htarget : target.Typed) : Current source target named (Session.suggestTables.run s).2 := by
  have hcurrent := h
  obtain ⟨ts, fs, m, n, fresh, hmappings, hm, hn, hbuilt, hagrees⟩ := h
  have hs : s.correspondence.source = source := hagrees.source.trans hbuilt.source_eq
  have ht : s.correspondence.target = target := hagrees.target.trans hbuilt.target_eq
  unfold Session.suggestTables readStore
  simp only [Steps.run_bind, Steps.run_get, Steps.run_ofExcept,
    tableMappings_of_holds hmappings.tables]
  cases hsuggest : s.correspondence.suggestTables ts with
  | error f => exact hcurrent
  | ok us =>
    have hus := fun u => Correspondence.of_suggestTables (m := u) (hs ▸ hsource) (ht ▸ htarget) hsuggest
    cases us with
    | nil => exact hcurrent
    | cons u us =>
      show Current _ _ _ ((do writeStore (upsertTables · (u :: us)); return u :: us : Action _).run s).2
      rw [state_writeStore_bind]
      cases hup : upsertTables s.directory (u :: us) with
      | error f => exact hcurrent
      | ok d =>
        obtain ⟨ts', hmappings', hverdict⟩ := hmappings.upsertTables (fun u hu => (hus u hu).1) hup
        obtain ⟨m₁, -, hm₁, -, hhash, hget, -⟩ := hmappings.exists_settled
        obtain ⟨m', n', hm', hn', -, hget', -⟩ := hmappings'.exists_settled
        cases hm₁.symm.trans hm
        cases hn'.symm.trans hn
        have hsame : Same m m' := by
          intro id
          rw [hget, hget', hverdict]
          exact (RowReader.join_verdict_append (fun u hu => (hus u hu).2) id).symm
        obtain ⟨fresh', hbuilt', htables, hunmatched, hfields, hunmatched'⟩ :=
          hbuilt.congr hsource htarget hhash hsame (fun _ => rfl)
        refine ⟨ts', fs, m', n, fresh', hmappings', hm', hn, hbuilt', ?_⟩
        exact ⟨hs.trans hbuilt'.source_eq.symm, ht.trans hbuilt'.target_eq.symm,
          fun id => (hagrees.tables id).trans (htables id), hagrees.unmatchedTables.trans hunmatched.symm,
          hfields ▸ hagrees.fields, hagrees.unmatchedFields.trans hunmatched'.symm,
          hfields ▸ hagrees.absent, hagrees.outside⟩

/-- What comes of setting a field. -/
theorem state_setField (a b : ShortInt) (method : MappingMethod) (confidence : Json) (s : Session) :
    ((Session.setField a.json b.json method confidence).run s).2 =
      match upsertField s.directory (s.correspondence.confirmedField a.json b.json method confidence) with
      | .ok d => { s with
          directory := d
          correspondence := s.correspondence.withField a.json b.json }
      | .error _ => s := by
  unfold Session.setField writeStore
  simp only [asKey_json, Steps.run_bind, Steps.run_get, Steps.run_ofExcept]
  cases upsertField s.directory (s.correspondence.confirmedField a.json b.json method confidence) <;>
    rfl

/-- A target that is entered in memory agrees with one that a fresh correspondence has besides. -/
theorem Agrees.withField {c fresh fresh' : Correspondence} (h : Agrees named c fresh) {a v : Json}
    (hsource : c.source = fresh'.source) (htarget : c.target = fresh'.target)
    (htables : Same fresh.tables fresh'.tables)
    (hunmatched : fresh.unmatchedTables = fresh'.unmatchedTables)
    (hchanged : Changed a v c.source.fields (fresh.fields, fresh.unmatchedFields)
      (fresh'.fields, fresh'.unmatchedFields)) (habsent : Within c.source.fields fresh'.fields) :
    Agrees (named ++ [a]) (c.withField a v) fresh' where
  source := hsource
  target := htarget
  tables id := (h.tables id).trans (htables id)
  unmatchedTables := h.unmatchedTables.trans hunmatched
  fields f hf := by
    change f ∈ c.source.fields at hf
    have hfresh := hchanged.fields f.id
    show (IdMap.insert c.fields a v).get? f.id = fresh'.fields.get? f.id
    rw [IdMap.get?_insert, hfresh, h.fields f hf]
    cases hid : a.sameId f.id with
    | false => rfl
    | true =>
      have hany : c.source.fields.any (·.id.sameId a) = true := by
        refine List.any_eq_true.2 ⟨f, hf, ?_⟩
        rw [Json.sameId_iff] at hid ⊢
        exact hid.symm
      rw [hany]
      rfl
  unmatchedFields := by
    show c.unmatchedFields.filter _ = _
    rw [h.unmatchedFields]
    exact hchanged.unmatched.symm
  absent := habsent
  outside id hid := by
    change (IdMap.insert c.fields a v).has id = true at hid
    unfold IdMap.has at hid
    rw [IdMap.get?_insert] at hid
    split at hid
    · rename_i hsame
      refine .inr ?_
      rw [Ids.has_append, Ids.has_cons, hsame, Bool.true_or, Bool.or_true]
    · exact h.mono.outside id hid

/-- **A field that is set** gets its target in memory, and in the store. -/
theorem Current.setField (h : Current source target named s) (hsource : source.Typed)
    (htarget : target.Typed) (a b : ShortInt) (method : MappingMethod) (confidence : Float) :
    Current source target (named ++ [a.json])
      ((Session.setField a.json b.json method (.float confidence)).run s).2 := by
  obtain ⟨ts, fs, m, n, fresh, hmappings, hm, hn, hbuilt, hagrees⟩ := h
  have hs : s.correspondence.source = source := hagrees.source.trans hbuilt.source_eq
  have ht : s.correspondence.target = target := hagrees.target.trans hbuilt.target_eq
  obtain ⟨u, hu⟩ := Correspondence.exists_typedField (hs ▸ hsource) (ht ▸ htarget) a b method confidence
  rw [state_setField, ← hu]
  cases hup : upsertField s.directory u.mapping with
  | error f => exact ⟨ts, fs, m, n, fresh, hmappings, hm, hn, hbuilt, hagrees.mono⟩
  | ok d =>
    obtain ⟨fs', hmappings', hverdict⟩ := hmappings.upsertField (fit_field u) hup
    obtain ⟨m₁, n₁, hm₁, hn₁, hhash, -, hget⟩ := hmappings.exists_settled
    obtain ⟨m', n', hm', hn', -, -, hget'⟩ := hmappings'.exists_settled
    cases hm₁.symm.trans hm
    cases hn₁.symm.trans hn
    cases hm'.symm.trans hm
    have hsource' : u.mapping.source = a.json := congrArg FieldMapping.source hu
    have hsettled : u.mapping.settled? = some b.json := congrArg FieldMapping.settled? hu
    have hsame : Same (IdMap.insert n a.json b.json) n' := by
      intro id
      rw [IdMap.get?_insert, hget, hget', hverdict, RowReader.verdict_append_singleton]
      show _ = Option.join (if u.mapping.source.sameId id then some u.mapping.settled? else _)
      rw [hsource', hsettled]
      split <;> rfl
    obtain ⟨c₁, hbuilt₁, htables₁, hunmatched₁, hchanged⟩ :=
      hbuilt.insert hsource htarget hhash a.json b.json
    obtain ⟨c₂, hbuilt₂, htables₂, hunmatched₂, hfields₂, hfields₂'⟩ :=
      hbuilt₁.congr hsource htarget hhash (fun _ => rfl) hsame
    have hwithin := hbuilt₂.within hsource htarget hhash
    rw [← hs] at hchanged hwithin
    rw [← hfields₂, ← hfields₂'] at hchanged
    exact ⟨ts, fs', m, n', c₂, hmappings', hm, hn', hbuilt₂,
      hagrees.withField (hs.trans hbuilt₂.source_eq.symm) (ht.trans hbuilt₂.target_eq.symm)
        (htables₁ ▸ htables₂) (hunmatched₁.symm.trans hunmatched₂.symm) hchanged hwithin⟩

/-! ### Any number of calls -/

/-- A call that sets or suggests mappings. -/
inductive MappingCall where
  | setTable (source target : ShortInt)
  | setField (source target : ShortInt) (method : MappingMethod) (confidence : Float)
  | suggestTables
  | autoConfirm (threshold : Json)

namespace MappingCall

/-- The session after a call, whatever it answers. -/
def after (s : Session) : MappingCall → Session
  | setTable source target => ((Session.setTable source.json target.json).run s).2
  | setField source target method confidence =>
    ((Session.setField source.json target.json method (.float confidence)).run s).2
  | suggestTables => (Session.suggestTables.run s).2
  | autoConfirm threshold => ((Session.autoConfirm threshold).run s).2

/-- The session after calls. -/
def afterAll (s : Session) (calls : List MappingCall) : Session := calls.foldl after s

/-- The field that a call sets. -/
def field? : MappingCall → Option Json
  | setField source .. => some source.json
  | _ => none

end MappingCall

open MappingCall (afterAll)

/-- **One call** keeps memory and store together. -/
theorem Current.after (h : Current source target named s) (hsource : source.Typed)
    (htarget : target.Typed) (call : MappingCall) :
    Current source target (named ++ call.field?.toList) (call.after s) := by
  cases call with
  | setTable a b =>
    show Current source target (named ++ []) _
    rw [List.append_nil]
    exact h.setTable hsource htarget a b
  | setField a b method confidence => exact h.setField hsource htarget a b method confidence
  | suggestTables =>
    show Current source target (named ++ []) _
    rw [List.append_nil]
    exact h.suggestTables hsource htarget
  | autoConfirm threshold =>
    show Current source target (named ++ []) _
    rw [List.append_nil]
    exact h.autoConfirm hsource htarget threshold

theorem Current.afterAll (h : Current source target named s) (hsource : source.Typed)
    (htarget : target.Typed) (calls : List MappingCall) :
    Current source target (named ++ calls.filterMap MappingCall.field?) (afterAll s calls) := by
  induction calls generalizing s named with
  | nil => exact (List.append_nil named).symm ▸ h
  | cons call calls ih =>
    have hnext := ih (h.after hsource htarget call)
    have hnamed : named ++ (call :: calls).filterMap MappingCall.field? =
        named ++ call.field?.toList ++ calls.filterMap MappingCall.field? := by
      rw [List.append_assoc, List.filterMap_cons]
      cases call.field? <;> rfl
    exact hnamed ▸ hnext

/-- A session that has been loaded, from catalogs of the kinds that they should be and a store whose rows
can be read and name no id of a mapping that counts a second time with one that does not. -/
structure Loaded (s : Session) : Prop where
  source : s.correspondence.source.Typed
  target : s.correspondence.target.Typed
  mappings : ∃ ts fs, HasMappings s.directory ts fs
  loaded : reloaded s = .ok s.correspondence

/-- What a load gives, where it is known which mappings there are. -/
theorem reloaded_of_holds (hts : tableReader.Holds s.directory ts)
    (hfs : fieldReader.Holds s.directory fs) : reloaded s = (do
      let start ← Correspondence.start s.correspondence.source s.correspondence.target
      let (c, r) := start.rebuild (.ok ts) (.ok fs)
      r
      return c) := by
  rw [reloaded, tableMappings_of_holds hts, fieldMappings_of_holds hfs]

/-- What a load gives. -/
theorem reloaded_eq {start fresh : Correspondence} {m n : IdMap Json}
    (hstart : Correspondence.start s.correspondence.source s.correspondence.target = .ok start)
    (hmappings : HasMappings s.directory ts fs)
    (hm : settled (ts.map fun t => (t.source, t.settled?)) = (m, .ok ()))
    (hn : settled (fs.map fun f => (f.source, f.settled?)) = (n, .ok ()))
    (hbuilt : Built s.correspondence.source s.correspondence.target m n fresh) :
    reloaded s = .ok fresh := by
  obtain ⟨hs, ht⟩ : start.source = s.correspondence.source ∧ start.target = s.correspondence.target := by
    obtain ⟨_, -, hstart⟩ := bind_eq_ok.1 hstart
    obtain ⟨_, -, hstart⟩ := bind_eq_ok.1 hstart
    cases hstart
    exact ⟨rfl, rfl⟩
  rw [reloaded_of_holds hmappings.tables hmappings.fields, hstart, ok_bind, hbuilt.rebuild hs ht hm hn]
  rfl

/-- What has been loaded is current. -/
theorem Loaded.current (h : Loaded s) : (∃ start, Correspondence.start s.correspondence.source
    s.correspondence.target = .ok start) ∧
      Current s.correspondence.source s.correspondence.target [] s := by
  obtain ⟨ts, fs, hmappings⟩ := h.mappings
  obtain ⟨start, hstart, -⟩ := bind_eq_ok.1 h.loaded
  obtain ⟨m, n, hm, hn, hhash, -, -⟩ := hmappings.exists_settled
  obtain ⟨fresh, hbuilt, hwithin⟩ := Correspondence.exists_built h.source h.target hhash n
  have hfresh := reloaded_eq hstart hmappings hm hn hbuilt
  rw [h.loaded] at hfresh
  cases hfresh
  exact ⟨⟨start, hstart⟩, ts, fs, m, n, _, hmappings, hm, hn, hbuilt, rfl, rfl, fun _ => rfl, rfl,
    fun _ _ => rfl, rfl, hwithin, fun id hid => .inl (hwithin id hid)⟩

/-- After calls there is a fresh correspondence, which the one in memory agrees with. -/
theorem Loaded.exists_reloaded (h : Loaded s) (calls : List MappingCall) :
    ∃ fresh, reloaded (afterAll s calls) = .ok fresh ∧ fresh.source = s.correspondence.source ∧
      fresh.target = s.correspondence.target ∧
      Agrees (calls.filterMap MappingCall.field?) (afterAll s calls).correspondence fresh := by
  obtain ⟨⟨start, hstart⟩, hcurrent⟩ := h.current
  obtain ⟨ts, fs, m, n, fresh, hmappings, hm, hn, hbuilt, hagrees⟩ :=
    hcurrent.afterAll h.source h.target calls
  have hs := hagrees.source.trans hbuilt.source_eq
  have ht := hagrees.target.trans hbuilt.target_eq
  rw [← hs, ← ht] at hstart hbuilt
  exact ⟨fresh, reloaded_eq hstart hmappings hm hn hbuilt, hbuilt.source_eq.trans hs,
    hbuilt.target_eq.trans ht, hagrees⟩

/-- Whether a catalog has a field. -/
def HasField (c : Catalog) (id : Json) : Prop := ∃ f ∈ c.fields, f.id.sameId id = true

/-- The correspondence in memory gives the answers of a fresh one, but for fields that the source does not
have: those have no target in a fresh one, and none in memory unless they have been set. -/
structure UpToDate (calls : List MappingCall) (c fresh : Correspondence) : Prop where
  tables : ∀ id, c.resolveTable id = fresh.resolveTable id
  fields : ∀ id, HasField fresh.source id → c.resolveField id = fresh.resolveField id
  unmatchedTables : c.unmatchedTables = fresh.unmatchedTables
  unmatchedFields : c.unmatchedFields = fresh.unmatchedFields
  absent : ∀ id, ¬HasField fresh.source id → fresh.resolveField id = none
  named : ∀ id, ¬HasField fresh.source id → c.resolveField id ≠ none →
    ∃ call ∈ calls, ∃ a, call.field? = some a ∧ a.sameId id = true

/-- **What is in memory is what a load would give**, after any calls and whatever they answer, up to fields
that the source does not have. -/
theorem memory_is_what_loads (h : Loaded s) (calls : List MappingCall) :
    ∃ fresh, reloaded (afterAll s calls) = .ok fresh ∧ fresh.source = s.correspondence.source ∧
      fresh.target = s.correspondence.target ∧
      UpToDate calls (afterAll s calls).correspondence fresh := by
  obtain ⟨fresh, hfresh, hs, ht, hagrees⟩ := h.exists_reloaded calls
  refine ⟨fresh, hfresh, hs, ht, fun id => ?_, fun id hid => ?_, hagrees.unmatchedTables,
    hagrees.unmatchedFields, fun id hid => ?_, fun id hid hsome => ?_⟩
  · exact congrArg (Option.bind · Json.toOption) (hagrees.tables id)
  · obtain ⟨f, hf, hsame⟩ := hid
    have hfield := hagrees.fields f (hagrees.source ▸ hf)
    rw [Json.sameId_iff] at hsame
    rw [IdMap.get?_congr hsame, IdMap.get?_congr hsame] at hfield
    exact congrArg (Option.bind · Json.toOption) hfield
  · have hnone : fresh.fields.get? id = none := by
      rw [← Option.not_isSome_iff_eq_none]
      intro hsome
      exact hid (hagrees.source ▸ hagrees.absent id hsome)
    unfold Correspondence.resolveField
    rw [hnone]
    rfl
  · have hhas : IdMap.has (afterAll s calls).correspondence.fields id = true := by
      unfold IdMap.has
      cases hget : IdMap.get? (afterAll s calls).correspondence.fields id with
      | some v => rfl
      | none =>
        unfold Correspondence.resolveField at hsome
        rw [hget] at hsome
        exact absurd rfl hsome
    rcases hagrees.outside id hhas with hfield | hnamed
    · exact absurd (hagrees.source ▸ hfield) hid
    · obtain ⟨a, ha, hkey⟩ := (Ids.has_iff _ _).1 hnamed
      obtain ⟨call, hcall, hfield⟩ := List.mem_filterMap.1 ha
      exact ⟨call, hcall, a, hfield, (Json.sameId_iff _ _).2 hkey⟩

/-- A catalog with one table, which has one field. -/
def ordersCatalog (database table field : Int) : Catalog := ⟨.int database, [⟨.int table, .str "orders",
  .str "public", .str "", [⟨.int field, .str "id", .str "", .str "", .int table⟩]⟩]⟩

/-- A session with two such catalogs, loaded from an empty store. -/
def ordersSession : Session := { (default : Session) with
  directory := .empty
  correspondence := ⟨ordersCatalog 1 5 50, ordersCatalog 2 7 70, [(.int 5, .int 7)],
    [(.int 50, .int 70)], [], []⟩ }

theorem typed_ordersCatalog (database table field : Int)
    (htable : Text.digitCount table ≤ Text.digitLimit)
    (hfield : Text.digitCount field ≤ Text.digitLimit) :
    (ordersCatalog database table field).Typed := by
  refine List.forall_mem_singleton.2 ⟨⟨⟨table, htable⟩, rfl⟩, ⟨⟨"orders", by decide +kernel⟩, rfl⟩,
    ⟨⟨"public", by decide +kernel⟩, rfl⟩, List.forall_mem_singleton.2 ?_⟩
  exact ⟨⟨⟨field, hfield⟩, rfl⟩, ⟨⟨"id", by decide +kernel⟩, rfl⟩, ⟨⟨table, htable⟩, rfl⟩⟩

theorem hasMappings_empty : HasMappings .empty [] [] := by
  refine ⟨⟨[], ?_, rfl, nofun⟩, ⟨[], ?_, rfl, nofun⟩, .nil, .nil⟩
  · rw [RowFile.rows, readJson_empty isTooLong_tables]
    rfl
  · rw [RowFile.rows, readJson_empty isTooLong_fields]
    rfl

theorem loaded_ordersSession : Loaded ordersSession where
  source := typed_ordersCatalog 1 5 50 (by decide) (by decide)
  target := typed_ordersCatalog 2 7 70 (by decide) (by decide)
  mappings := ⟨[], [], hasMappings_empty⟩
  loaded := by
    rw [reloaded_of_holds hasMappings_empty.tables hasMappings_empty.fields]
    rfl

/-- A call of each kind. -/
def ordersCalls : List MappingCall := [.suggestTables, .setField ⟨50, by decide⟩ ⟨70, by decide⟩ .manual 1.0,
  .setTable ⟨5, by decide⟩ ⟨7, by decide⟩, .autoConfirm (.float 0.94)]

theorem memory_is_what_loads_ordersCalls : Loaded ordersSession ∧
    ∃ fresh, reloaded (afterAll ordersSession ordersCalls) = .ok fresh ∧
      fresh.source = ordersCatalog 1 5 50 ∧ fresh.target = ordersCatalog 2 7 70 ∧
      UpToDate ordersCalls (afterAll ordersSession ordersCalls).correspondence fresh :=
  ⟨loaded_ordersSession, memory_is_what_loads loaded_ordersSession ordersCalls⟩

/-- Sets a field that the source does not have. -/
def strayCall : MappingCall := .setField ⟨999, by decide⟩ ⟨560, by decide⟩ .manual 1.0

/-- A field that the source does not have keeps its target until the next load. -/
theorem stray_field_is_forgotten : Loaded ordersSession ∧
    (afterAll ordersSession [strayCall]).correspondence.resolveField (.int 999) = some (.int 560) ∧
    ∃ fresh, reloaded (afterAll ordersSession [strayCall]) = .ok fresh ∧
      fresh.resolveField (.int 999) = none := by
  refine ⟨loaded_ordersSession, ?_, ?_⟩
  · obtain ⟨u, hu⟩ := Correspondence.exists_typedField loaded_ordersSession.source
      loaded_ordersSession.target ⟨999, by decide⟩ ⟨560, by decide⟩ .manual 1.0
    obtain ⟨d, hd, -⟩ := refines_empty.upsertField u
    show Correspondence.resolveField (Session.correspondence (Steps.run _ ordersSession).2) _ = _
    rw [state_setField, ← hu, show ordersSession.directory = .empty from rfl, hd]
    rfl
  · obtain ⟨fresh, hfresh, hs, -, hagrees⟩ := loaded_ordersSession.exists_reloaded [strayCall]
    refine ⟨fresh, hfresh, ?_⟩
    have hnone : fresh.fields.get? (.int 999) = none := by
      rw [← Option.not_isSome_iff_eq_none]
      intro hsome
      obtain ⟨f, hf, hsame⟩ := hagrees.absent _ hsome
      rw [hagrees.source, hs] at hf
      cases List.mem_singleton.1 hf
      cases (Json.sameId_iff _ _).1 hsame
    unfold Correspondence.resolveField
    rw [hnone]
    rfl

/-- A mapping of the field 50, which counts or does not. -/
def fieldMapping (confirmed : Bool) : TypedField :=
  ⟨⟨50, by decide⟩, ⟨"", by decide +kernel⟩, none, some ⟨70, by decide⟩, ⟨"", by decide +kernel⟩, none, 1.0,
    .manual, confirmed, some ⟨70, by decide⟩⟩

/-- Two rows of the field 50, of which the first counts. -/
def twoRows : List Json := [fieldRows.stored (fieldMapping true), fieldRows.stored (fieldMapping false)]

/-- A session without tables in the target, loaded from a store. -/
def lonelySession (d : Directory) : Session := { (default : Session) with
  directory := d
  correspondence := ⟨ordersCatalog 1 5 50, ⟨.int 2, []⟩, [], [(.int 50, .int 70)],
    [⟨.int 5, .str "orders", .str "public"⟩], []⟩ }

/-- Sets another field. -/
def otherCall : MappingCall := .setField ⟨51, by decide⟩ ⟨71, by decide⟩ .manual 1.0

theorem fine_fieldMapping (b : Bool) :
    fieldReader.Fine (fieldRows.stored (fieldMapping b)) (fieldMapping b).kept :=
  ⟨(lasting_field _).inOrder, ofRow_fieldRows _, rfl, rfl, rfl⟩

/-- There is a store with these two rows. -/
theorem exists_twoRows : ∃ d, Tidy d ∧ fieldFile.rows d = .ok twoRows ∧ tableReader.Holds d [] ∧
    fieldReader.Holds d [(fieldMapping true).kept, (fieldMapping false).kept] := by
  let rows : List Json := [(fieldMapping true).mapping.toRow, (fieldMapping false).mapping.toRow]
  have hlasting : (Json.arr rows).Lasting := by
    refine .arr fun v hv => ?_
    rcases List.mem_pair.1 hv with rfl | rfl
    · exact lasting_field _
    · exact lasting_field _
  obtain ⟨d, hwrite, htidy⟩ := (tidy_empty.write .fields ((Json.arr rows).write .file)).2 isTooLong_fields
  have hrows : fieldFile.rows d = .ok twoRows := by
    rw [RowFile.rows, Directory.readJson_writeJson hlasting hwrite (Place.fields.not_mem_parents .fields),
      Json.inOrder_arr]
    rfl
  exact ⟨d, htidy, hrows,
    hasMappings_empty.tables.congr (Place.fields.sameAt .tables (by decide) hwrite),
    [(fieldRows.stored (fieldMapping true), (fieldMapping true).kept),
      (fieldRows.stored (fieldMapping false), (fieldMapping false).kept)], hrows, rfl,
    List.forall_mem_cons.2 ⟨fine_fieldMapping true,
      List.forall_mem_singleton.2 (fine_fieldMapping false)⟩⟩

/-- Storing a mapping of another field replaces the two rows by the second one. -/
theorem upsertField_twoRows (hrows : fieldFile.rows d = .ok twoRows) {u : TypedField}
    (hu : u.mapping.source = .int 51) : upsertField d u.mapping = d.writeJson fieldFile.path
      (.arr [fieldRows.stored (fieldMapping false), u.mapping.toRow]) := by
  have hindex : fieldFile.index twoRows = .ok [(.int 50, fieldRows.stored (fieldMapping false))] :=
    RowReader.index_eq (R := fieldReader)
      ([true, false].map fun b => (fieldRows.stored (fieldMapping b), (fieldMapping b).kept))
      (List.forall_mem_map.2 fun b _ => fine_fieldMapping b)
  rw [upsertField, RowFile.upsert, hrows, ok_bind, hindex, ok_bind, hu]
  rfl

/-- Where a field is named twice, a mapping that counts is dropped from the store as soon as another field
is set. -/
theorem field_named_twice_is_forgotten : ∃ d, fieldFile.rows d = .ok twoRows ∧
    reloaded (lonelySession d) = .ok (lonelySession d).correspondence ∧
    (afterAll (lonelySession d) [otherCall]).correspondence.resolveField (.int 50) = some (.int 70) ∧
    ∃ fresh, reloaded (afterAll (lonelySession d) [otherCall]) = .ok fresh ∧
      fresh.resolveField (.int 50) = none := by
  obtain ⟨d, htidy, hrows, htables, hfields⟩ := exists_twoRows
  have hsource := typed_ordersCatalog 1 5 50 (by decide) (by decide)
  have htarget : Catalog.Typed ⟨.int 2, []⟩ := nofun
  obtain ⟨u, hu⟩ := Correspondence.exists_typedField (c := (lonelySession d).correspondence) hsource
    htarget ⟨51, by decide⟩ ⟨71, by decide⟩ .manual 1.0
  have hv := upsertField_twoRows hrows (u := u) (congrArg FieldMapping.source hu)
  obtain ⟨d', hwrite, -⟩ := (htidy.write .fields ((Json.arr
    [fieldRows.stored (fieldMapping false), u.mapping.toRow]).write .file)).2 isTooLong_fields
  have hup : upsertField d u.mapping = .ok d' := hv.trans hwrite
  have hstate : afterAll (lonelySession d) [otherCall] = { lonelySession d with
      directory := d'
      correspondence := (lonelySession d).correspondence.withField (.int 51) (.int 71) } := by
    show (Steps.run _ (lonelySession d)).2 = _
    rw [state_setField, ← hu, show (lonelySession d).directory = d from rfl, hup]
    rfl
  refine ⟨d, hrows, ?_, ?_, ?_⟩
  · rw [reloaded_of_holds (s := lonelySession d) htables hfields]
    rfl
  · rw [hstate]
    rfl
  · obtain ⟨fs, hholds, hsteady, hverdict⟩ := RowReader.exists_upsert hfields
      (List.forall_mem_singleton.2 (fit_field u)) (Place.fields.not_mem_parents .fields) hup
    have hmappings : HasMappings d' [] fs := ⟨htables.congr (Place.fields.sameAt .tables (by decide) hwrite),
      hholds, .nil, hsteady⟩
    obtain ⟨m, n, hm, hn, hhash, -, hget⟩ := hmappings.exists_settled
    obtain ⟨fresh, hbuilt, -⟩ := Correspondence.exists_built hsource htarget hhash n
    rw [hstate]
    refine ⟨fresh, reloaded_eq rfl hmappings hm hn hbuilt, ?_⟩
    -- the field has no target of its own, and its table has none
    cases hm
    have hnone : n.get? (.int 50) = none := by
      rw [hget, hverdict, RowReader.verdict_append_singleton]
      show Option.join (if u.mapping.source.sameId _ then _ else _) = none
      rw [hu]
      rfl
    have htables : fresh.tables = [] := (congrArg (·.1.1) hbuilt.tables_eq).symm
    have hfields := hbuilt.fields_eq
    rw [htables] at hfields
    have hsweep : sweep (Correspondence.placeFields ⟨.int 2, []⟩ [] n) ([], [])
        (ordersCatalog 1 5 50).tables = (([], []), .ok ()) := by
      simp [ordersCatalog, sweep, Correspondence.placeFields, Correspondence.placeField, hnone, orLast,
        Json.asKey, Json.isCompound, Catalog.tableById?]
    have hnofields : fresh.fields = [] := (congrArg (·.1.1) (hsweep.symm.trans hfields)).symm
    unfold Correspondence.resolveField
    rw [hnofields]
    rfl

end Session
end CardTransfer
