import CardTransfer.Catalog.Correspondence
import CardTransfer.Proofs.Store.Rows

/-!
# How a correspondence depends on the mappings

A correspondence is built by sweeping over the tables and the fields of the source (`Built`). What it is
depends on the mappings only by the targets that they settle: maps that have the same targets give the
same (`Built.congr`), and a further target for a field changes that field alone (`Built.update`). Two
sweeps are compared step by step (`sweep_rel`), by a relation that may look at what has been swept.

In catalogs whose names are texts nothing fails, as long as all ids can be looked up (`exists_built`).
-/

namespace CardTransfer

/-- **Two sweeps side by side** without faults: what relates the states stays true. -/
theorem sweep_rel {σ τ α : Type} {f : σ → α → σ × Except Fault Unit}
    {g : τ → α → τ × Except Fault Unit} {R : List α → σ → τ → Prop} (as : List α) {s : σ} {t : τ}
    (hstep : ∀ done a s t, done ++ [a] <+: as → R done s t →
      ∃ s' t', f s a = (s', .ok ()) ∧ g t a = (t', .ok ()) ∧ R (done ++ [a]) s' t')
    (h : R [] s t) : ∃ s' t', sweep f s as = (s', .ok ()) ∧ sweep g t as = (t', .ok ()) ∧ R as s' t' := by
  have hfrom : ∀ rest done s t, done ++ rest = as → R done s t →
      ∃ s' t', sweep f s rest = (s', .ok ()) ∧ sweep g t rest = (t', .ok ()) ∧ R as s' t' := by
    intro rest
    induction rest with
    | nil =>
      intro done s t hdone h
      rw [List.append_nil] at hdone
      exact ⟨s, t, rfl, rfl, hdone ▸ h⟩
    | cons a rest ih =>
      intro done s t hdone h
      rw [List.append_cons] at hdone
      obtain ⟨s', t', hs, ht, h'⟩ := hstep done a s t ⟨rest, hdone⟩ h
      rw [sweep, sweep, hs, ht]
      exact ih _ s' t' hdone h'
  exact hfrom as [] s t rfl h

/-- A sweep without faults keeps what each step keeps. -/
theorem sweep_ok {σ α : Type} {f : σ → α → σ × Except Fault Unit} {R : List α → σ → Prop} {as : List α}
    {s : σ} (hstep : ∀ done a s, done ++ [a] <+: as → R done s →
      ∃ s', f s a = (s', .ok ()) ∧ R (done ++ [a]) s')
    (h : R [] s) : ∃ s', sweep f s as = (s', .ok ()) ∧ R as s' := by
  have hsame : ∀ done a s t, done ++ [a] <+: as → s = t ∧ R done s → ∃ s' t', f s a = (s', .ok ()) ∧
      f t a = (t', .ok ()) ∧ s' = t' ∧ R (done ++ [a]) s' := by
    rintro done a s _ ha ⟨rfl, h⟩
    obtain ⟨s', hs, h'⟩ := hstep done a s ha h
    exact ⟨s', s', hs, hs, rfl, h'⟩
  obtain ⟨s', t', hs, -, -, h'⟩ := sweep_rel _ (R := fun done s t => s = t ∧ R done s) hsame ⟨rfl, h⟩
  exact ⟨s', hs, h'⟩

namespace IdMap

variable {α : Type}

/-- Maps with the same values. -/
def Same (m n : IdMap α) : Prop := ∀ id, m.get? id = n.get? id

theorem Same.has {m n : IdMap α} (h : Same m n) (id : Json) : m.has id = n.has id :=
  congrArg Option.isSome (h id)

theorem Same.insert {m n : IdMap α} (h : Same m n) (id : Json) (v : α) :
    Same (IdMap.insert m id v) (IdMap.insert n id v) := by
  intro other
  rw [get?_insert, get?_insert, h]

/-- All values of a map can be looked up. -/
def Hashable (m : IdMap Json) : Prop := ∀ id v, m.get? id = some v → v.isCompound = false

theorem Hashable.insert {m : IdMap Json} (h : Hashable m) {id v : Json} (hv : v.isCompound = false) :
    Hashable (IdMap.insert m id v) := by
  intro other w hw
  rw [get?_insert] at hw
  split at hw
  · cases hw
    exact hv
  · exact h other w hw

end IdMap

open IdMap (Same Hashable)

/-! ### Catalogs of the kinds that they should be -/

/-- A field with ids and a name of the kinds that they should be. -/
structure Field.Typed (f : Field) : Prop where
  id : ∃ n : ShortInt, f.id = n.json
  name : ∃ s : KeptText, f.name = s.json
  table : ∃ n : ShortInt, f.table = n.json

/-- A table with id, name and schema of the kinds that they should be. -/
structure Table.Typed (t : Table) : Prop where
  id : ∃ n : ShortInt, t.id = n.json
  name : ∃ s : KeptText, t.name = s.json
  schema : ∃ s : KeptText, t.schema = s.json
  fields : ∀ f ∈ t.fields, f.Typed

/-- A catalog with ids, names and schemas of the kinds that they should be. -/
def Catalog.Typed (c : Catalog) : Prop := ∀ t ∈ c.tables, t.Typed

section

variable {target : Catalog} {t u : Table} {f g : Field}

/-- Among texts, the only item of a name can be looked for. -/
theorem exists_loneNamesake? {α : Type} {nameOf : α → Json} {name : Json} {items : List α}
    (hname : ∃ s, name = .str s) (hitems : ∀ a ∈ items, ∃ s, nameOf a = .str s) :
    ∃ r, loneNamesake? nameOf name items = .ok r := by
  have hnormalized {v : Json} (h : ∃ s, v = .str s) : ∃ cs, Naming.normalized v = .ok cs := by
    obtain ⟨s, rfl⟩ := h
    unfold Naming.normalized Naming.textOf Json.orElse
    split
    · exact ⟨_, rfl⟩
    · exact ⟨_, rfl⟩
  obtain ⟨key, hkey⟩ := hnormalized hname
  obtain ⟨named, hnamed⟩ : ∃ named, items.mapM (fun a => do
      return (a, ← Naming.normalized (nameOf a))) = (.ok named : Except Fault _) := by
    refine mapM_isOk fun a ha => ?_
    obtain ⟨cs, hcs⟩ := hnormalized (hitems a ha)
    exact ⟨(a, cs), by rw [hcs]; rfl⟩
  exact ⟨_, bind_eq_ok.2 ⟨key, hkey, bind_eq_ok.2 ⟨named, hnamed, rfl⟩⟩⟩

theorem mem_of_only? {α : Type} {as : List α} {a : α} (h : only? as = some a) : a ∈ as := by
  unfold only? at h
  split at h
  · cases h
    exact List.mem_singleton_self _
  · cases h

theorem mem_of_loneNamesake? {α : Type} {nameOf : α → Json} {name : Json} {items : List α} {a : α}
    (h : loneNamesake? nameOf name items = .ok (some a)) : a ∈ items := by
  obtain ⟨key, -, h⟩ := bind_eq_ok.1 h
  obtain ⟨named, hnamed, h⟩ := bind_eq_ok.1 h
  obtain ⟨p, hp, rfl⟩ := List.mem_map.1 (mem_of_only? (Except.ok.inj h))
  obtain ⟨b, hb, hb'⟩ := mem_of_mapM hnamed (List.mem_filter.1 hp).1
  obtain ⟨cs, -, heq⟩ := bind_eq_ok.1 hb'
  rw [← Except.ok.inj heq]
  exact hb

theorem Table.Typed.exists_name (h : t.Typed) : ∃ s, t.name = .str s := by
  obtain ⟨s, hs⟩ := h.name
  exact ⟨s.1, hs⟩

theorem Field.Typed.exists_name (h : f.Typed) : ∃ s, f.name = .str s := by
  obtain ⟨s, hs⟩ := h.name
  exact ⟨s.1, hs⟩

theorem Table.Typed.isCompound_id (h : t.Typed) : t.id.isCompound = false := by
  obtain ⟨n, hn⟩ := h.id
  rw [hn]
  rfl

theorem exists_matchTable? (htarget : target.Typed) (ht : t.Typed) :
    ∃ r, matchTable? target t = .ok r ∧ ∀ u, r = some u → u ∈ target.tables := by
  unfold matchTable?
  split
  · rename_i u hu
    refine ⟨some u, rfl, ?_⟩
    rintro _ ⟨⟩
    exact List.mem_of_find?_eq_some hu
  · obtain ⟨r, hr⟩ := exists_loneNamesake? ht.exists_name fun u hu => (htarget u hu).exists_name
    exact ⟨r, hr, fun u hu => mem_of_loneNamesake? (hu ▸ hr)⟩

theorem exists_matchField? (hu : u.Typed) (hf : f.Typed) : ∃ r, matchField? u f = .ok r := by
  unfold matchField?
  split
  · exact ⟨_, rfl⟩
  · exact exists_loneNamesake? hf.exists_name fun g hg => (hu.fields g hg).exists_name

theorem mem_of_tableById? {c : Catalog} {id : Json} (h : c.tableById? id = some t) : t ∈ c.tables :=
  List.mem_reverse.1 (List.mem_of_find?_eq_some h)

theorem sameId_of_tableById? {c : Catalog} {id : Json} (h : c.tableById? id = some t) :
    t.id.sameId id = true :=
  List.find?_some (p := fun t : Table => t.id.sameId id) h

end

namespace Correspondence

/-! ### Targets that are settled -/

/-- Pairs of ids and targets that can be looked up, where none that has a target is followed by one of the
same id that has none. -/
structure Sound (pairs : List (Json × Option Json)) : Prop where
  ids : ∀ p ∈ pairs, p.1.isCompound = false
  targets : ∀ p ∈ pairs, ∀ v, p.2 = some v → v.isCompound = false
  steady : pairs.Pairwise fun p q =>
    p.1.sameId q.1 = true → p.2.isSome = true → q.2.isSome = true

theorem settled_eq (pairs : List (Json × Option Json)) : settled pairs =
    sweep (fun m p => orLast m (p.2.elim (.ok m) fun target => do
      return IdMap.insert m (← p.1.asKey) target)) [] pairs := by
  unfold settled
  refine congrArg (sweep · [] pairs) (funext fun m => funext fun p => ?_)
  obtain ⟨a, target?⟩ := p
  cases target? <;> rfl

/-- **The last pair of an id settles its target.** -/
theorem exists_settled {pairs : List (Json × Option Json)} (h : Sound pairs) :
    ∃ m, settled pairs = (m, .ok ()) ∧ Hashable m ∧
      ∀ id, m.get? id = ((IdMap.ofList pairs).get? id).join := by
  let step (m : IdMap Json) (p : Json × Option Json) : Except Fault (IdMap Json) :=
    p.2.elim (.ok m) fun target => do return IdMap.insert m (← p.1.asKey) target
  have hstep : ∀ done p m, done ++ [p] <+: pairs →
      (∀ id, IdMap.get? m id = ((IdMap.ofList done).get? id).join) →
      ∃ m', orLast m (step m p) = (m', .ok ()) ∧
        ∀ id, IdMap.get? m' id = ((IdMap.ofList (done ++ [p])).get? id).join := by
    intro done p m hpre hget
    have hp : p ∈ pairs := hpre.subset (List.mem_append_right _ (List.mem_singleton_self p))
    obtain ⟨a, target?⟩ := p
    cases target? with
    | some target =>
      refine ⟨IdMap.insert m a target, ?_, fun id => ?_⟩
      · have hkey : a.asKey = .ok a := by
          rw [Json.asKey, h.ids _ hp]
          rfl
        show orLast m (a.asKey >>= fun a => pure (IdMap.insert m a target)) = _
        rw [hkey]
        rfl
      · rw [IdMap.get?_insert, IdMap.get?_ofList_append_singleton, hget]
        split <;> rfl
    | none =>
      refine ⟨m, rfl, fun id => ?_⟩
      rw [IdMap.get?_ofList_append_singleton, hget]
      split
      · rename_i hsame
        -- an earlier pair of this id has no target either
        show _ = none
        rw [← Option.not_isSome_iff_eq_none, Option.isSome_iff_exists]
        rintro ⟨v, hv⟩
        obtain ⟨q, hq, hkey, hvalue⟩ := IdMap.exists_of_get?_ofList (Option.join_eq_some_iff.1 hv)
        have hpair := (List.pairwise_append.1 (h.steady.sublist hpre.sublist)).2.2 q hq _
          (List.mem_singleton_self _)
        have hsame' : q.1.sameId a = true := by
          rw [Json.sameId_iff] at hsame ⊢
          rw [hkey, hsame]
        have hcounts := hpair hsame' (by rw [hvalue]; rfl)
        cases hcounts
      · rfl
  obtain ⟨m, hm, hget⟩ := sweep_ok hstep (s := []) fun _ => rfl
  refine ⟨m, (settled_eq pairs).trans hm, fun id v hv => ?_, hget⟩
  rw [hget, Option.join_eq_some_iff] at hv
  obtain ⟨p, hp, -, hvalue⟩ := IdMap.exists_of_get?_ofList hv
  exact h.targets p hp v hvalue

/-! ### Tables, one after the other -/

variable {source target : Catalog} {m n m' n' tables tables' : IdMap Json} {c c' : Correspondence}

/-- Whether a table is matched depends on which tables have been, and not on how they are listed. -/
theorem exists_placeTable (htarget : target.Typed) {t : Table} (ht : t.Typed) {s s' : PlacedTables}
    (hsame : Same s.1 s'.1) (hunmatched : s.2 = s'.2) (hhash : Hashable s.1) :
    ∃ r r', placeTable target s t = .ok r ∧ placeTable target s' t = .ok r' ∧ Same r.1 r'.1 ∧
      r.2 = r'.2 ∧ Hashable r.1 := by
  obtain ⟨found, hfound, hmem⟩ := exists_matchTable? htarget ht
  unfold placeTable
  rw [hsame.has, hfound]
  split
  · exact ⟨s, s', rfl, rfl, hsame, hunmatched, hhash⟩
  · cases found with
    | some u =>
      exact ⟨_, _, rfl, rfl, hsame.insert _ _, hunmatched,
        hhash.insert (htarget u (hmem u rfl)).isCompound_id⟩
    | none => exact ⟨_, _, rfl, rfl, hsame, by rw [hunmatched], hhash⟩

/-- **The tables are matched** the same from maps with the same targets. -/
theorem exists_placeTables (hsource : source.Typed) (htarget : target.Typed) (hsame : Same m m')
    (hhash : Hashable m) : ∃ r r',
      sweep (fun s t => orLast s (placeTable target s t)) (m, []) source.tables = (r, .ok ()) ∧
      sweep (fun s t => orLast s (placeTable target s t)) (m', []) source.tables = (r', .ok ()) ∧
      Same r.1 r'.1 ∧ r.2 = r'.2 ∧ Hashable r.1 := by
  refine sweep_rel _ (R := fun _ (r r' : PlacedTables) => Same r.1 r'.1 ∧ r.2 = r'.2 ∧ Hashable r.1) ?_
    ⟨hsame, rfl, hhash⟩
  rintro done t s s' hpre ⟨hsame, hunmatched, hhash⟩
  have ht : t.Typed := hsource t (hpre.subset (List.mem_append_right _ (List.mem_singleton_self t)))
  obtain ⟨r, r', hr, hr', h⟩ := exists_placeTable htarget ht hsame hunmatched hhash
  exact ⟨r, r', by rw [hr]; rfl, by rw [hr']; rfl, h⟩

/-! ### Fields, one after the other -/

/-- What becomes of a field: it has a target, or none, or is passed over. -/
inductive Placement where
  | placed (target : Json)
  | unmatched (f : UnmatchedField)
  | passed

/-- The fields that are placed, and those without counterpart, after one more. -/
def Placement.apply (id : Json) (s : PlacedFields) : Placement → PlacedFields
  | placed target => (IdMap.insert s.1 id target, s.2)
  | unmatched f => (s.1, s.2 ++ [f])
  | passed => s

/-- **What becomes of a field depends on its own mapping alone**, and on the counterpart of its table. -/
theorem exists_placement {t : Table} {counterpart : Option Table} {f : Field}
    (ht : ∀ u, counterpart = some u → u.Typed) (hf : f.Typed) (n : IdMap Json) :
    ∃ p : Placement, (∀ s, placeField n t counterpart s f = .ok (p.apply f.id s)) ∧
      (∀ v, n.get? f.id = some v → p = .placed v) ∧ ∀ g, p = .unmatched g → g.id = f.id := by
  unfold placeField
  cases hget : n.get? f.id with
  | some v =>
    refine ⟨.placed v, fun s => rfl, ?_, nofun⟩
    rintro _ ⟨⟩
    rfl
  | none =>
    cases counterpart with
    | none => exact ⟨.passed, fun s => rfl, nofun, nofun⟩
    | some u =>
      obtain ⟨r, hr⟩ := exists_matchField? (ht u rfl) hf
      simp only [hr, ok_bind]
      cases r with
      | some g => exact ⟨.placed g.id, fun s => rfl, nofun, nofun⟩
      | none =>
        refine ⟨.unmatched ⟨f.id, f.name, t.qualifiedName, t.id⟩, fun s => rfl, nofun, ?_⟩
        rintro _ ⟨⟩
        rfl

theorem placeField_congr {t : Table} {counterpart : Option Table} {f : Field} {s : PlacedFields}
    (h : n.get? f.id = n'.get? f.id) :
    placeField n t counterpart s f = placeField n' t counterpart s f := by
  unfold placeField
  rw [h]

/-- The fields of all tables depend on maps by their targets only. -/
theorem placeFields_congr (htables : Same tables tables') (h : Same n n') :
    placeFields target tables n = placeFields target tables' n' := by
  funext s t
  unfold placeFields
  rw [htables]
  congr 1
  funext id
  congr 1
  funext s f
  rw [placeField_congr (h f.id)]

/-- **The fields are swept** side by side, where all tables have targets that can be looked up. -/
theorem fields_rel {k : IdMap Json} (hsource : source.Typed) (htarget : target.Typed)
    (hhash : Hashable tables)
    {R : List Field → PlacedFields → PlacedFields → Prop}
    (hstep : ∀ {seen t counterpart f s s'}, (∀ u, counterpart = some u → u.Typed) → f.Typed →
      R seen s s' → ∃ r r', placeField n t counterpart s f = .ok r ∧
        placeField k t counterpart s' f = .ok r' ∧ R (seen ++ [f]) r r')
    (h : R [] ([], []) ([], [])) : ∃ r r',
      sweep (placeFields target tables n) ([], []) source.tables = (r, .ok ()) ∧
      sweep (placeFields target tables k) ([], []) source.tables = (r', .ok ()) ∧
      R source.fields r r' := by
  refine sweep_rel source.tables (R := fun done s s' => R (done.flatMap Table.fields) s s') ?_ h
  intro done t s s' hpre h
  have ht : t.Typed := hsource t (hpre.subset (List.mem_append_right _ (List.mem_singleton_self t)))
  have hkey : ((tables.get? t.id).getD .null).asKey = .ok ((tables.get? t.id).getD .null) := by
    cases hget : tables.get? t.id with
    | none => rfl
    | some v =>
      rw [Option.getD_some, Json.asKey, hhash _ _ hget]
      rfl
  unfold placeFields
  rw [hkey]
  obtain ⟨r, r', hr, hr', h'⟩ := sweep_rel t.fields
    (R := fun fs s s' => R (done.flatMap Table.fields ++ fs) s s')
    (f := fun s f => orLast s (placeField n t (target.tableById? ((tables.get? t.id).getD .null)) s f))
    (g := fun s f => orLast s (placeField k t (target.tableById? ((tables.get? t.id).getD .null)) s f))
    (fun fs f s s' hpre h => by
      have hf : f.Typed :=
        ht.fields f (hpre.subset (List.mem_append_right _ (List.mem_singleton_self f)))
      obtain ⟨r, r', hr, hr', h'⟩ := hstep (t := t) (fun u hu => htarget u (mem_of_tableById? hu)) hf h
      rw [hr, hr']
      rw [List.append_assoc] at h'
      exact ⟨r, r', rfl, rfl, h'⟩)
    ((List.append_nil (done.flatMap Table.fields)).symm ▸ h)
  refine ⟨r, r', hr, hr', ?_⟩
  rw [List.flatMap_append, List.flatMap_singleton]
  exact h'

/-- Fields that are placed and those without counterpart, before and after the field of an id gets a
target, when some fields have been seen. -/
structure Changed (id target : Json) (seen : List Field) (s s' : PlacedFields) : Prop where
  fields : ∀ other, s'.1.get? other =
    if id.sameId other && seen.any (·.id.sameId id) then some target else s.1.get? other
  unmatched : s'.2 = s.2.filter fun f => !f.id.sameId id

/-- The field of another id becomes what it was. -/
theorem Changed.apply_of_ne {id v : Json} {seen : List Field} {s s' : PlacedFields} {f : Field}
    {p : Placement} (h : Changed id v seen s s') (hne : f.id.sameId id = false)
    (hp : ∀ g, p = .unmatched g → g.id = f.id) :
    Changed id v (seen ++ [f]) (p.apply f.id s) (p.apply f.id s') := by
  have hany : (seen ++ [f]).any (·.id.sameId id) = seen.any (·.id.sameId id) := by
    rw [List.any_append, List.any_cons, hne]
    exact Bool.or_false _
  cases p with
  | placed target =>
    refine ⟨fun other => ?_, h.unmatched⟩
    show (IdMap.insert s'.1 f.id target).get? other = if _ then _ else
      (IdMap.insert s.1 f.id target).get? other
    rw [IdMap.get?_insert, IdMap.get?_insert, hany, h.fields]
    cases hother : f.id.sameId other with
    | false => rfl
    | true =>
      rw [Json.sameId_iff] at hother
      have hid : id.sameId other = false := by
        rw [Json.sameId, ← hother, ← hne, Json.sameId, Bool.beq_comm]
      rw [hid]
      rfl
  | unmatched g =>
    refine ⟨fun other => by rw [hany]; exact h.fields other, ?_⟩
    show s'.2 ++ [g] = (s.2 ++ [g]).filter _
    rw [List.filter_append, ← h.unmatched, List.filter_cons_of_pos (by rw [hp g rfl, hne]; rfl)]
    rfl
  | passed => exact ⟨fun other => by rw [hany]; exact h.fields other, h.unmatched⟩

/-- The field of the id has the target now, whatever became of it before. -/
theorem Changed.apply_of_same {id v : Json} {seen : List Field} {s s' : PlacedFields} {f : Field}
    {p : Placement} (h : Changed id v seen s s') (hsame : f.id.sameId id = true)
    (hp : ∀ g, p = .unmatched g → g.id = f.id) :
    Changed id v (seen ++ [f]) (p.apply f.id s) ((Placement.placed v).apply f.id s') := by
  have hany : (seen ++ [f]).any (·.id.sameId id) = true := by
    rw [List.any_append, List.any_cons, hsame]
    exact Bool.or_true _
  have hsame' (other : Json) : f.id.sameId other = id.sameId other := by
    rw [Json.sameId, Json.sameId, (Json.sameId_iff _ _).1 hsame]
  constructor
  · intro other
    show (IdMap.insert s'.1 f.id v).get? other = _
    rw [IdMap.get?_insert, hany, hsame', Bool.and_true]
    cases hother : id.sameId other with
    | true => rfl
    | false =>
      rw [if_neg Bool.false_ne_true, if_neg Bool.false_ne_true, h.fields, hother, Bool.false_and,
        if_neg Bool.false_ne_true]
      cases p with
      | placed target =>
        show _ = (IdMap.insert s.1 f.id target).get? other
        rw [IdMap.get?_insert, hsame', hother]
        rfl
      | unmatched g => rfl
      | passed => rfl
  · show s'.2 = _
    rw [h.unmatched]
    cases p with
    | placed target => rfl
    | unmatched g =>
      show _ = (s.2 ++ [g]).filter _
      rw [List.filter_append, List.filter_cons_of_neg (by rw [hp g rfl, hsame]; decide)]
      exact (List.append_nil _).symm
    | passed => rfl

/-- **A further target for a field changes what becomes of this field alone.** -/
theorem Changed.placeField {t : Table} {counterpart : Option Table} {f : Field} {id v : Json}
    {seen : List Field} {s s' : PlacedFields} (ht : ∀ u, counterpart = some u → u.Typed) (hf : f.Typed)
    (h : Changed id v seen s s') : ∃ r r', placeField n t counterpart s f = .ok r ∧
      placeField (IdMap.insert n id v) t counterpart s' f = .ok r' ∧
      Changed id v (seen ++ [f]) r r' := by
  obtain ⟨p, hp, -, hunmatched⟩ := exists_placement (t := t) ht hf n
  have hget : (IdMap.insert n id v).get? f.id = if f.id.sameId id then some v else n.get? f.id := by
    rw [IdMap.get?_insert, Json.sameId, Json.sameId, Bool.beq_comm]
  cases hsame : f.id.sameId id with
  | true =>
    obtain ⟨q, hq, hplaced, -⟩ := exists_placement (t := t) ht hf (IdMap.insert n id v)
    rw [hsame] at hget
    obtain rfl := hplaced v hget
    exact ⟨_, _, hp s, hq s', h.apply_of_same hsame hunmatched⟩
  | false =>
    rw [hsame] at hget
    exact ⟨_, _, hp s, by rw [placeField_congr hget]; exact hp s', h.apply_of_ne hsame hunmatched⟩

/-- Fields that have a target are among those that have been seen. -/
def Within (seen : List Field) (fields : IdMap Json) : Prop :=
  ∀ id, fields.has id = true → ∃ f ∈ seen, f.id.sameId id = true

theorem Within.apply {seen : List Field} {s : PlacedFields} (h : Within seen s.1) (f : Field)
    (p : Placement) : Within (seen ++ [f]) (p.apply f.id s).1 := by
  have hbefore (id : Json) (hid : s.1.has id = true) :
      ∃ g ∈ seen ++ [f], g.id.sameId id = true := by
    obtain ⟨g, hg, hsame⟩ := h id hid
    exact ⟨g, List.mem_append_left _ hg, hsame⟩
  intro id hid
  cases p with
  | placed target =>
    change (IdMap.insert s.1 f.id target).has id = true at hid
    unfold IdMap.has at hid
    rw [IdMap.get?_insert] at hid
    split at hid
    · rename_i hsame
      exact ⟨f, List.mem_append_right _ (List.mem_singleton_self f), hsame⟩
    · exact hbefore id hid
  | unmatched g => exact hbefore id hid
  | passed => exact hbefore id hid

/-! ### The whole of it -/

/-- A correspondence as it is built from the targets that mappings settle, of tables and of fields. -/
structure Built (source target : Catalog) (m n : IdMap Json) (c : Correspondence) : Prop where
  source_eq : c.source = source
  target_eq : c.target = target
  tables_eq : sweep (fun s t => orLast s (placeTable target s t)) (m, []) source.tables =
    ((c.tables, c.unmatchedTables), .ok ())
  fields_eq : sweep (placeFields target c.tables n) ([], []) source.tables =
    ((c.fields, c.unmatchedFields), .ok ())

/-- Rebuilding gives the correspondence that is built from the settled targets. -/
theorem Built.rebuild {ts : List TableMapping} {fs : List FieldMapping} {start : Correspondence}
    (h : Built source target m n c) (hsource : start.source = source)
    (htarget : start.target = target)
    (hm : settled (ts.map fun t => (t.source, t.settled?)) = (m, .ok ()))
    (hn : settled (fs.map fun f => (f.source, f.settled?)) = (n, .ok ())) :
    start.rebuild (.ok ts) (.ok fs) = (c, .ok ()) := by
  obtain ⟨rfl, rfl, htables, hfields⟩ := h
  unfold Correspondence.rebuild withTables withFields
  simp only [hsource, htarget, hm, hn, htables, hfields]

/-- In catalogs of the kinds that they should be, there is a correspondence. -/
theorem exists_built (hsource : source.Typed) (htarget : target.Typed) (hm : Hashable m)
    (n : IdMap Json) : ∃ c, Built source target m n c ∧ Within source.fields c.fields := by
  obtain ⟨r, -, hr, -, -, -, hhash⟩ := exists_placeTables hsource htarget (m := m) (fun _ => rfl) hm
  obtain ⟨q, -, hq, -, -, hwithin⟩ := fields_rel (n := n) (k := n)
    (R := fun seen s s' => s = s' ∧ Within seen s.1) hsource htarget hhash
    (fun {seen t counterpart f s s'} ht hf hs => by
      obtain ⟨p, hp, -⟩ := exists_placement (t := t) ht hf n
      exact ⟨_, _, hp s, hp s', by rw [hs.1], hs.2.apply f p⟩) ⟨rfl, nofun⟩
  exact ⟨⟨source, target, r.1, q.1, r.2, q.2⟩, ⟨rfl, rfl, hr, hq⟩, hwithin⟩

/-- There is only one. -/
theorem Built.unique (h : Built source target m n c) (h' : Built source target m n c') : c = c' := by
  obtain ⟨s, t, tables, fields, unmatchedTables, unmatchedFields⟩ := c
  obtain ⟨s', t', tables', fields', unmatchedTables', unmatchedFields'⟩ := c'
  obtain ⟨rfl, rfl, htables, hfields⟩ := h
  obtain ⟨hs, ht, htables', hfields'⟩ := h'
  cases hs
  cases ht
  cases htables.symm.trans htables'
  cases hfields.symm.trans hfields'
  rfl

theorem Built.within (h : Built source target m n c) (hsource : source.Typed)
    (htarget : target.Typed) (hm : Hashable m) : Within source.fields c.fields := by
  obtain ⟨c', h', hwithin⟩ := exists_built hsource htarget hm n
  exact h.unique h' ▸ hwithin

/-- **A correspondence depends on the mappings by the targets that they settle.** -/
theorem Built.congr (h : Built source target m n c) (hsource : source.Typed) (htarget : target.Typed)
    (hm : Hashable m) (htables : Same m m') (hfields : Same n n') : ∃ c', Built source target m' n' c' ∧
      Same c.tables c'.tables ∧ c'.unmatchedTables = c.unmatchedTables ∧ c'.fields = c.fields ∧
      c'.unmatchedFields = c.unmatchedFields := by
  obtain ⟨r, r', hr, hr', hsame, hunmatched, -⟩ := exists_placeTables hsource htarget htables hm
  rw [h.tables_eq] at hr
  cases hr
  refine ⟨{ c with tables := r'.1, unmatchedTables := r'.2 }, ⟨h.source_eq, h.target_eq, hr', ?_⟩,
    hsame, hunmatched.symm, rfl, rfl⟩
  rw [← h.fields_eq]
  exact congrArg (sweep · _ _) (placeFields_congr hsame hfields).symm

/-- **A further target for a field changes this field alone.** -/
theorem Built.insert (h : Built source target m n c) (hsource : source.Typed) (htarget : target.Typed)
    (hm : Hashable m) (id v : Json) : ∃ c', Built source target m (IdMap.insert n id v) c' ∧
      c'.tables = c.tables ∧ c'.unmatchedTables = c.unmatchedTables ∧
      Changed id v source.fields (c.fields, c.unmatchedFields) (c'.fields, c'.unmatchedFields) := by
  obtain ⟨r, -, hr, -, -, -, hhash⟩ := exists_placeTables hsource htarget (m := m) (fun _ => rfl) hm
  rw [h.tables_eq] at hr
  cases hr
  obtain ⟨q, q', hq, hq', hchanged⟩ := fields_rel (n := n) (k := IdMap.insert n id v)
    (R := Changed id v) hsource htarget hhash (fun ht hf hs => hs.placeField ht hf)
    ⟨fun other => by simp, rfl⟩
  rw [h.fields_eq] at hq
  cases hq
  exact ⟨{ c with fields := q'.1, unmatchedFields := q'.2 }, ⟨h.source_eq, h.target_eq, h.tables_eq, hq'⟩,
    rfl, rfl, hchanged⟩

end Correspondence
end CardTransfer
