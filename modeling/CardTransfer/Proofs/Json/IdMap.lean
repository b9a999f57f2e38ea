import CardTransfer.Json.Access
import CardTransfer.Proofs.Except
import CardTransfer.Proofs.Json.Entry
import Mathlib.Data.Int.Order.Basic
import Mathlib.Data.List.Induction
import Mathlib.Data.List.Nodup
import Mathlib.Logic.Function.Basic

/-!
# Ids and maps of ids

Whether a list has an id depends on its key, whatever is done to the list in between: ids that are put in
order, or of which some are dropped, are told by their keys.

What a map has is told by the keys of its pairs (`has_iff`). An insertion keeps the spelling under which an
id came first, and a map that is made by insertions has each id once (`nodup_insert`); pairs that name each
id once are the map that is made of them (`ofList_eq_self`).
-/

namespace CardTransfer

/-! ### Lists of ids -/

namespace Ids

variable {ids others : Ids} {a b : Json}

/-- What ids are. -/
def keys (ids : Ids) : List Key := ids.map Json.key

@[simp] theorem keys_append : (ids ++ others : Ids).keys = ids.keys ++ others.keys := List.map_append

theorem mem_keys : a.key ∈ ids.keys ↔ ids.has a = true := by
  unfold keys
  rw [has_iff, List.mem_map]

theorem has_of_mem (h : a ∈ ids) : ids.has a = true := mem_keys.1 (List.mem_map_of_mem h)

@[simp] theorem has_append : Ids.has (ids ++ others) a = (ids.has a || others.has a) := List.any_append

@[simp] theorem has_cons : Ids.has (b :: ids) a = (b.sameId a || ids.has a) := List.any_cons

@[simp] theorem has_nil : Ids.has [] a = false := rfl

@[simp] theorem has_sorted : ids.sorted.has a = ids.has a := by
  rw [Bool.eq_iff_iff, has_iff, has_iff]
  simp only [mem_sorted]

theorem keys_sorted_perm : ids.sorted.keys.Perm ids.keys := (Sorting.sort_perm _ _).map _

theorem within_iff : ids.within others = true ↔ ∀ a ∈ ids, others.has a = true := List.all_eq_true

theorem has_without : (ids.without others).has a = (ids.has a && !others.has a) := by
  rw [Bool.eq_iff_iff, Bool.and_eq_true, has_iff, has_iff, Bool.not_eq_true']
  constructor
  · rintro ⟨b, hb, hk⟩
    obtain ⟨hb, hnot⟩ := List.mem_filter.1 hb
    rw [has_congr hk, Bool.not_eq_true'] at hnot
    exact ⟨⟨b, hb, hk⟩, hnot⟩
  · rintro ⟨⟨b, hb, hk⟩, hnot⟩
    refine ⟨b, List.mem_filter.2 ⟨hb, ?_⟩, hk⟩
    rw [has_congr hk, hnot]
    rfl

/-- Ids that have been put in order are those that there were. -/
theorem eq_of_sort (h : ids.sort = .ok others) : others = ids.sorted := by
  unfold sort at h
  split at h
  · exact (Except.ok.inj h).symm
  · cases h

theorem sort_ne_cycle {stuck : Ids} : ids.sort ≠ .error (.cycle stuck) := by
  unfold sort
  split
  · exact fun h => nomatch h
  · exact fun h => nomatch h

/-- Only ids that have an order are put into it. -/
theorem sortable_of_sort (h : ids.sort = .ok others) : ids.sortable = true := by
  unfold sort at h
  split at h
  · assumption
  · cases h

/-- Integers have an order. -/
theorem sortable_of_isInt (h : ∀ a ∈ ids, a.isInt = true) : ids.sortable = true := by
  have hnumber : ids.all (·.number?.isSome) = true := by
    rw [List.all_eq_true]
    intro a ha
    have hint := h a ha
    cases a with
    | int n => rfl
    | bool b => rfl
    | _ => cases hint
  unfold sortable
  rw [hnumber, Bool.or_true, Bool.true_or]

theorem sort_of_isInt (h : ∀ a ∈ ids, a.isInt = true) : ids.sort = .ok ids.sorted :=
  sort_eq_ok (sortable_of_isInt h)

end Ids

/-- An id can serve as a key if it is not compound, and is the key. -/
theorem Json.asKey_eq_ok {v w : Json} : v.asKey = .ok w ↔ v.isCompound = false ∧ w = v := by
  unfold asKey
  cases v.isCompound <;> simp [eq_comm]

theorem Json.eq_of_asKey {v w : Json} (h : v.asKey = .ok w) : w = v := (Json.asKey_eq_ok.1 h).2

theorem Json.asKey_of_isInt {a : Json} (h : a.isInt = true) : a.asKey = .ok a := by
  cases a with
  | int n => rfl
  | bool b => rfl
  | _ => cases h

/-! ### Maps -/

namespace IdMap

variable {α : Type} {m : IdMap α} {a b : Json} {v : α}

theorem has_iff : m.has b = true ↔ ∃ p ∈ m, p.1.key = b.key := by
  unfold has get?
  rw [Option.isSome_map, List.find?_isSome]
  simp only [Json.sameId_iff]

/-- The ids of a map are those that have a value. -/
theorem has_ids : Ids.has (ids m) b = m.has b := by
  rw [Bool.eq_iff_iff, Ids.has_iff, has_iff]
  simp [ids]

theorem has_congr (h : a.key = b.key) : m.has a = m.has b := by
  rw [← has_ids, ← has_ids, Ids.has_congr h]

theorem has_erase : (erase m a).has b = (!a.sameId b && m.has b) := by
  rw [Bool.eq_iff_iff, Bool.and_eq_true, has_iff, has_iff]
  simp only [erase, List.mem_filter, Json.sameId, Bool.not_eq_true', beq_eq_false_iff_ne]
  constructor
  · rintro ⟨p, ⟨hp, hne⟩, hb⟩
    refine ⟨fun hab => hne (hb.trans hab.symm), p, hp, hb⟩
  · rintro ⟨hab, p, hp, hb⟩
    refine ⟨p, ⟨hp, fun hpa => hab (hpa.symm.trans hb)⟩, hb⟩

/-- What is in a map that was read is a pair that was read, under a spelling of its id. -/
theorem exists_of_mem_ofList {ps : List (Json × α)} {p : Json × α} (h : p ∈ ofList ps) :
    ∃ q ∈ ps, p.1.key = q.1.key ∧ p.2 = q.2 := by
  induction ps using List.reverseRecOn with
  | nil => cases h
  | append_singleton ps q ih =>
    unfold ofList at h ih
    rw [List.foldl_append] at h
    rcases mem_of_mem_insert h with hnew | h
    · exact ⟨q, List.mem_append_right _ (List.mem_singleton_self _), hnew⟩
    · obtain ⟨q', hq', hsame⟩ := ih h
      exact ⟨q', List.mem_append_left _ hq', hsame⟩

/-- The value for an id after all values have been changed. -/
theorem get?_map {β : Type} (f : α → β) : get? (m.map fun p => (p.1, f p.2)) a = (m.get? a).map f := by
  unfold get?
  rw [List.find?_map, Option.map_map, Option.map_map]
  rfl

/-! ### Maps that have each id once -/

/-- What the ids of a map are. -/
def keys (m : IdMap α) : List Key := m.map (·.1.key)

theorem mem_keys : a.key ∈ m.keys ↔ m.has a = true := by
  unfold keys
  rw [has_iff, List.mem_map]

/-- What is put under an id that is not in the first of two parts goes into the second. -/
theorem insert_append {rest : IdMap α} (h : m.has a = false) :
    insert (m ++ rest : IdMap α) a v = m ++ insert rest a v := by
  induction m with
  | nil => rfl
  | cons p m ih =>
    have hp : p.1.sameId a = false := by
      rw [Bool.eq_false_iff, Ne, Json.sameId_iff]
      intro hk
      rw [has_iff.2 ⟨p, List.mem_cons_self .., hk⟩] at h
      cases h
    have hm : has m a = false := by
      rw [Bool.eq_false_iff, Ne, has_iff] at h ⊢
      rintro ⟨q, hq, hk⟩
      exact h ⟨q, List.mem_cons_of_mem _ hq, hk⟩
    rw [List.cons_append, insert, hp]
    exact congrArg (p :: ·) (ih hm)

/-- An id that has no value yet gets one at the end. -/
theorem insert_of_new (h : m.has a = false) : insert m a v = m ++ [(a, v)] := by
  have hend : insert (m ++ [] : IdMap α) a v = m ++ insert [] a v := insert_append h
  rwa [List.append_nil] at hend

/-- An id that has a value keeps its spelling. -/
theorem map_fst_insert (h : m.has a = true) : (insert m a v).map (·.1) = m.map (·.1) := by
  induction m with
  | nil => cases h
  | cons p m ih =>
    unfold insert
    split
    · rfl
    · rename_i hp
      have hm : has m a = true := by
        obtain ⟨q, hq, hk⟩ := has_iff.1 h
        rcases List.mem_cons.1 hq with rfl | hq
        · exact absurd ((Json.sameId_iff _ _).2 hk) hp
        · exact has_iff.2 ⟨q, hq, hk⟩
      rw [List.map_cons, List.map_cons, ih hm]

/-- The ids after an insertion are those before, or the new one besides. -/
theorem map_fst_insert_cases (m : IdMap α) (a : Json) (v : α) :
    (insert m a v).map (·.1) = m.map (·.1) ∨
      a.key ∉ m.keys ∧ (insert m a v).map (·.1) = m.map (·.1) ++ [a] := by
  cases h : m.has a with
  | true => exact .inl (map_fst_insert h)
  | false =>
    refine .inr ⟨?_, by rw [insert_of_new h, List.map_append]; rfl⟩
    rw [mem_keys, h]
    exact Bool.false_ne_true

theorem keys_eq (m : IdMap α) : m.keys = (m.map (·.1)).map Json.key := by
  unfold keys
  rw [List.map_map]
  rfl

theorem nodup_insert (h : m.keys.Nodup) : (insert m a v).keys.Nodup := by
  rw [keys_eq] at h ⊢
  rcases map_fst_insert_cases m a v with hsame | ⟨hnew, hmore⟩
  · rw [hsame]
    exact h
  · rw [hmore, List.map_append, List.map_singleton]
    rw [keys_eq] at hnew
    exact List.nodup_append.2 ⟨h, List.nodup_singleton _, by
      rintro k hk _ hl rfl
      rw [List.mem_singleton] at hl
      exact hnew (hl ▸ hk)⟩

theorem nodup_erase (h : m.keys.Nodup) : (erase m a).keys.Nodup :=
  h.sublist (List.filter_sublist.map _)

/-- A value that is found stands in the map under a spelling of the id. -/
theorem exists_of_get? (h : m.get? a = some v) : ∃ p ∈ m, p.1.key = a.key ∧ p.2 = v := by
  obtain ⟨p, hp, hv⟩ := Option.map_eq_some_iff.1 h
  have hid : p.1.sameId a = true := List.find?_some (p := fun p : Json × α => p.1.sameId a) hp
  exact ⟨p, List.mem_of_find?_eq_some hp, (Json.sameId_iff _ _).1 hid, hv⟩

/-- In a map that has each id once, a value is found under its id. -/
theorem get?_of_mem (h : m.keys.Nodup) {p : Json × α} (hp : p ∈ m) : m.get? p.1 = some p.2 := by
  obtain ⟨v, hv⟩ := has_eq_true.1 (has_iff.2 ⟨p, hp, rfl⟩)
  obtain ⟨q, hq, hk, rfl⟩ := exists_mem_of_get? hv
  rw [hv, List.inj_on_of_nodup_map h hq hp ((Json.sameId_iff _ _).1 hk)]

/-- The ids of a map that was read are spelled as they were. -/
theorem mem_of_mem_ofList {ps : List (Json × α)} (h : a ∈ (ofList ps).map (·.1)) :
    a ∈ ps.map (·.1) := by
  induction ps using List.reverseRecOn with
  | nil => cases h
  | append_singleton ps p ih =>
    unfold ofList at h ih
    rw [List.foldl_append] at h
    rw [List.map_append, List.mem_append]
    rcases map_fst_insert_cases (ps.foldl (fun m p => insert m p.1 p.2) []) p.1 p.2 with hsame | ⟨-, hmore⟩
    · change a ∈ List.map _ (insert _ p.1 p.2) at h
      rw [hsame] at h
      exact .inl (ih h)
    · change a ∈ List.map _ (insert _ p.1 p.2) at h
      rw [hmore] at h
      exact (List.mem_append.1 h).imp_left ih

theorem nodup_ofList {ps : List (Json × α)} : (ofList ps).keys.Nodup := by
  induction ps using List.reverseRecOn with
  | nil => exact List.nodup_nil
  | append_singleton ps p ih =>
    unfold ofList at ih ⊢
    rw [List.foldl_append]
    exact nodup_insert ih

/-- The value for an id that is made of its key. -/
theorem get?_ofList_map {as : Ids} {f : Json → α} (hf : ∀ a b, a.key = b.key → f a = f b) :
    get? (ofList (as.map fun a => (a, f a))) b = if as.has b then some (f b) else none := by
  induction as using List.reverseRecOn with
  | nil => rfl
  | append_singleton as a ih =>
    have hlast : ofList ((as ++ [a]).map fun a => (a, f a)) =
        insert (ofList (as.map fun a => (a, f a))) a (f a) := by
      rw [List.map_append]
      exact List.foldl_append
    rw [hlast, get?_insert, ih, Ids.has_append, Ids.has_cons, Ids.has_nil, Bool.or_false]
    cases hsame : a.sameId b with
    | true => rw [hf a b ((Json.sameId_iff _ _).1 hsame)]; simp
    | false => simp

/-- Pairs that name each id once are put in as they are. -/
theorem ofList_eq_self {ps : List (Json × α)} (h : (keys ps).Nodup) : ofList ps = ps := by
  induction ps using List.reverseRecOn with
  | nil => rfl
  | append_singleton ps p ih =>
    unfold keys at h ih
    rw [List.map_append, List.nodup_append] at h
    have hlast : ofList (ps ++ [p]) = insert (ofList ps) p.1 p.2 := List.foldl_append ..
    rw [hlast, ih h.1]
    refine insert_of_new ?_
    rw [Bool.eq_false_iff, Ne, has_iff]
    rintro ⟨q, hq, hk⟩
    exact h.2.2 q.1.key (List.mem_map_of_mem hq) p.1.key (List.mem_singleton_self _) hk

/-- Taking away an id without value changes nothing. -/
theorem erase_eq_self (h : m.has a = false) : erase m a = m := by
  unfold erase
  rw [List.filter_eq_self]
  intro p hp
  rw [Bool.not_eq_true', Bool.eq_false_iff, Ne, Json.sameId_iff]
  intro hk
  rw [has_iff.2 ⟨p, hp, hk⟩] at h
  cases h

section

variable {β : Type} {ps : List (Json × α)} {p : Json × α} {id : Json}

theorem ofList_append (ps qs : List (Json × α)) :
    ofList (ps ++ qs) = qs.foldl (fun m p => insert m p.1 p.2) (ofList ps) := List.foldl_append

/-- The last pair counts. -/
theorem get?_ofList_append_singleton :
    get? (ofList (ps ++ [p])) id = if p.1.sameId id then some p.2 else get? (ofList ps) id := by
  rw [ofList_append]
  exact get?_insert ..

/-- The later pairs count. -/
theorem get?_ofList_append (ps qs : List (Json × α)) (id : Json) :
    get? (ofList (ps ++ qs)) id = (get? (ofList qs) id).or (get? (ofList ps) id) := by
  induction qs using List.reverseRecOn with
  | nil => rw [List.append_nil]; rfl
  | append_singleton qs q ih =>
    rw [← List.append_assoc, get?_ofList_append_singleton, get?_ofList_append_singleton, ih]
    split <;> rfl

/-- Values may be changed before the map is made. -/
theorem ofList_map (f : α → β) :
    ofList (ps.map fun p => (p.1, f p.2)) = (ofList ps).map fun p => (p.1, f p.2) := by
  have hinsert (m : IdMap α) (a : Json) (v : α) :
      insert (m.map fun p => (p.1, f p.2)) a (f v) = (insert m a v).map fun p => (p.1, f p.2) := by
    induction m with
    | nil => rfl
    | cons q m ih =>
      rw [List.map_cons, insert, insert, ih]
      split <;> rfl
  induction ps using List.reverseRecOn with
  | nil => rfl
  | append_singleton ps p ih =>
    rw [List.map_append, ofList_append, ofList_append, ih]
    exact hinsert _ _ _

/-- Values that each have the id that they are under, in any order, have different ids. -/
theorem nodup_values {m : IdMap α} (once : m.keys.Nodup) {source : α → Json}
    (hsource : ∀ q ∈ m, (source q.2).key = q.1.key) {as : Ids} (hperm : as.Perm (ids m)) :
    ((as.filterMap (get? m)).map fun v => (source v).key).Nodup := by
  have hall : as.Pairwise fun a b => a.key ≠ b.key := by
    rw [← List.pairwise_map, ← List.nodup_iff_pairwise_ne, (hperm.map Json.key).nodup_iff]
    exact keys_eq m ▸ once
  have hkey {a : Json} {v : α} (hv : m.get? a = some v) : (source v).key = a.key := by
    obtain ⟨q, hq, hsame, rfl⟩ := exists_mem_of_get? hv
    rw [hsource q hq, (Json.sameId_iff _ _).1 hsame]
  refine List.nodup_iff_pairwise_ne.2 (List.pairwise_map.2 (hall.filterMap _ ?_))
  intro a b hab v hv w hw
  rwa [hkey hv, hkey hw]

/-- The values of a map, each put under an id of its own again. -/
theorem get?_ofList_values {m : IdMap α} (once : m.keys.Nodup) {source : α → Json}
    (hsource : ∀ q ∈ m, (source q.2).key = q.1.key) {as : Ids} (hperm : as.Perm (ids m))
    (f : α → β) (id : Json) :
    get? (ofList ((as.filterMap (get? m)).map fun v => (source v, f v))) id = (m.get? id).map f := by
  have honce : (keys ((as.filterMap (get? m)).map fun v => (source v, f v))).Nodup := by
    unfold keys
    rw [List.map_map]
    exact nodup_values once hsource hperm
  rw [ofList_eq_self honce]
  cases hv : m.get? id with
  | some v =>
    obtain ⟨q, hq, hsame, rfl⟩ := exists_mem_of_get? hv
    have hmem : q.2 ∈ as.filterMap (get? m) :=
      List.mem_filterMap.2 ⟨q.1, hperm.mem_iff.2 (List.mem_map_of_mem hq), get?_of_mem once hq⟩
    rw [← get?_congr ((hsource q hq).trans ((Json.sameId_iff _ _).1 hsame))]
    exact get?_of_mem honce (List.mem_map_of_mem (f := fun v => (source v, f v)) hmem)
  | none =>
    have hnone : has ((as.filterMap (get? m)).map fun v => (source v, f v)) id = false := by
      rw [Bool.eq_false_iff, Ne, has_iff]
      rintro ⟨p, hp, hk⟩
      obtain ⟨v, hmem, rfl⟩ := List.mem_map.1 hp
      obtain ⟨a, -, ha⟩ := List.mem_filterMap.1 hmem
      obtain ⟨q, hq, -, rfl⟩ := exists_mem_of_get? ha
      have hhas : m.has id = true := has_iff.2 ⟨q, hq, (hsource q hq).symm.trans hk⟩
      rw [has, hv] at hhas
      cases hhas
    exact Option.isNone_iff_eq_none.1 (Option.isSome_eq_false_iff.1 hnone)

end

end IdMap
end CardTransfer

/-!
## Maps of integers, listed by their ids

A function from integers to values that may be missing says what a map should have under each id. A
map of ids `Tells` such a function if its ids are integers, each there once, and the values are those
of the function. It still does when both are changed at the same id (`Tells.insert`).

A list of values is `Listed` by a function if it has the values of the function, each once, in the order
of their ids. Maps and lists go over into each other: the values of a map in the order of its ids are
listed by what the map tells (`Tells.sortValues`), and a list with its ids put back is a map that tells
what the list was listed by (`tells_of_pairs`).
-/

namespace CardTransfer

variable {α β : Type} {f : Int → Option α}

/-- The values of a map in the order of their ids. -/
def Listed (f : Int → Option α) (vs : List α) : Prop :=
  ∃ ps : List (Int × α), ps.Pairwise (fun p q => p.1 < q.1) ∧
    (∀ n v, (n, v) ∈ ps ↔ f n = some v) ∧ vs = ps.map (·.2)

theorem listed_nil : Listed (fun _ => none : Int → Option α) [] :=
  ⟨[], .nil, by simp, rfl⟩

/-- What is listed are the values. -/
theorem Listed.mem_iff {vs : List α} (h : Listed f vs) {v : α} : v ∈ vs ↔ ∃ n, f n = some v := by
  obtain ⟨ps, -, hmem, rfl⟩ := h
  simp only [← hmem]
  simp

/-- There is one list of the values. -/
theorem Listed.unique {vs ws : List α} (hv : Listed f vs) (hw : Listed f ws) : vs = ws := by
  obtain ⟨ps, hps, hmem, rfl⟩ := hv
  obtain ⟨qs, hqs, hmem', rfl⟩ := hw
  have hnodup {rs : List (Int × α)} (h : rs.Pairwise fun p q => p.1 < q.1) : rs.Nodup :=
    h.imp fun hlt heq => absurd (heq ▸ hlt) (Int.lt_irrefl _)
  have hperm : ps.Perm qs := (List.perm_ext_iff_of_nodup (hnodup hps) (hnodup hqs)).2 fun p => by
    rw [hmem p.1 p.2, hmem' p.1 p.2]
  rw [hperm.eq_of_pairwise (fun p q _ _ hpq hqp => absurd hpq (Int.lt_asymm hqp)) hps hqs]

/-- Values may be changed one by one. -/
theorem Listed.map {vs : List α} (h : Listed f vs) (g : α → β) :
    Listed (fun n => (f n).map g) (vs.map g) := by
  obtain ⟨ps, hsorted, hmem, rfl⟩ := h
  refine ⟨ps.map fun p => (p.1, g p.2), List.pairwise_map.2 hsorted, fun n w => ?_, ?_⟩
  · rw [Option.map_eq_some_iff, List.mem_map]
    constructor
    · rintro ⟨⟨n, v⟩, hp, heq⟩
      cases heq
      exact ⟨v, (hmem n v).1 hp, rfl⟩
    · rintro ⟨v, hv, rfl⟩
      exact ⟨(n, v), (hmem n v).2 hv, rfl⟩
  · rw [List.map_map, List.map_map]
    rfl

/-- What values are changed to is listed only if the values are. -/
theorem Listed.exists_of_map {g : α → β} {ws : List β} (h : Listed (fun n => (f n).map g) ws) :
    ∃ vs, Listed f vs ∧ ws = vs.map g := by
  obtain ⟨ps, hsorted, hmem, rfl⟩ := h
  have hvalue : ∀ p ∈ ps, ∃ v, f p.1 = some v ∧ g v = p.2 := fun p hp =>
    Option.map_eq_some_iff.1 ((hmem p.1 p.2).1 hp)
  refine ⟨_, ⟨ps.filterMap fun p => (f p.1).map (p.1, ·), ?_, fun n v => ?_, rfl⟩, ?_⟩
  · refine hsorted.filterMap _ fun p q hpq p' hp' q' hq' => ?_
    obtain ⟨v, -, rfl⟩ := Option.map_eq_some_iff.1 hp'
    obtain ⟨w, -, rfl⟩ := Option.map_eq_some_iff.1 hq'
    exact hpq
  · rw [List.mem_filterMap]
    constructor
    · rintro ⟨p, -, hp⟩
      obtain ⟨w, hw, heq⟩ := Option.map_eq_some_iff.1 hp
      cases heq
      exact hw
    · intro hv
      exact ⟨(n, g v), (hmem n (g v)).2 (congrArg (Option.map g) hv), by rw [hv]; rfl⟩
  · rw [List.map_filterMap, List.map_filterMap, ← List.filterMap_eq_map]
    refine List.filterMap_congr fun p hp => ?_
    obtain ⟨v, hv, hg⟩ := hvalue p hp
    rw [hv]
    exact congrArg some hg.symm

/-- Gives ids values, one after the other. -/
def putAll (f : Int → Option α) (us : List (Int × α)) : Int → Option α :=
  us.foldl (fun f u => Function.update f u.1 (some u.2)) f

/-- Values may be changed before or after. -/
theorem map_putAll (f : Int → Option α) (us : List (Int × α)) (g : α → β) :
    (fun n => (putAll f us n).map g) =
      putAll (fun n => (f n).map g) (us.map fun u => (u.1, g u.2)) := by
  induction us generalizing f with
  | nil => rfl
  | cons u us ih =>
    have hupdate : (fun n => (Function.update f u.1 (some u.2) n).map g) =
        Function.update (fun n => (f n).map g) u.1 (some (g u.2)) := by
      funext n
      by_cases hn : n = u.1
      · rw [hn, Function.update_self, Function.update_self]
        rfl
      · rw [Function.update_of_ne hn, Function.update_of_ne hn]
    show (fun n => (putAll (Function.update f u.1 (some u.2)) us n).map g) = _
    rw [ih, hupdate]
    rfl

/-- A value is one that was put, or was there. -/
theorem putAll_eq_some {us : List (Int × α)} {n : Int} {v : α} (h : putAll f us n = some v) :
    (n, v) ∈ us ∨ f n = some v := by
  induction us generalizing f with
  | nil => exact .inr h
  | cons u us ih =>
    rcases ih h with h | h
    · exact .inl (List.mem_cons_of_mem _ h)
    · change Function.update f u.1 (some u.2) n = some v at h
      by_cases hn : n = u.1
      · subst hn
        rw [Function.update_self] at h
        cases h
        exact .inl (List.mem_cons_self ..)
      · rw [Function.update_of_ne hn] at h
        exact .inr h

/-- An id that is not given a value keeps its own. -/
theorem putAll_of_notMem {us : List (Int × α)} {n : Int} (h : n ∉ us.map (·.1)) : putAll f us n = f n := by
  induction us generalizing f with
  | nil => rfl
  | cons u us ih =>
    rw [List.map_cons, List.mem_cons, not_or] at h
    exact (ih h.2).trans (Function.update_of_ne h.1 _ _)

/-- An id that is given a value once has it. -/
theorem putAll_of_mem {us : List (Int × α)} (once : (us.map (·.1)).Nodup) {u : Int × α} (h : u ∈ us) :
    putAll f us u.1 = some u.2 := by
  induction us generalizing f with
  | nil => cases h
  | cons u' us ih =>
    rw [List.map_cons, List.nodup_cons] at once
    rcases List.mem_cons.1 h with rfl | h
    · exact (putAll_of_notMem once.1).trans (Function.update_self ..)
    · exact ih once.2 h

/-- Values that are there already change nothing. -/
theorem putAll_putAll {us : List (Int × α)} (once : (us.map (·.1)).Nodup) :
    putAll (putAll f us) us = putAll f us := by
  funext n
  by_cases h : n ∈ us.map (·.1)
  · obtain ⟨u, hu, rfl⟩ := List.mem_map.1 h
    rw [putAll_of_mem once hu, putAll_of_mem once hu]
  · exact putAll_of_notMem h

namespace Ids

/-- Integers come in the order of their sizes. -/
theorem le_int {m n : Int} : le (.int m) (.int n) = true ↔ m ≤ n := by
  have hcompare : order? (.int m) (.int n) = some (compare m n) := rfl
  rw [le, hcompare, bne_iff_ne, Ne, Option.some.injEq, Int.compare_eq_gt, not_lt]

/-- Integers in order are in increasing order. -/
theorem exists_sorted_eq {ns : List Int} (h : ns.Nodup) : ∃ ks : List Int, ks.Pairwise (· < ·) ∧
    (∀ n, n ∈ ks ↔ n ∈ ns) ∧ sorted (ns.map Json.int) = ks.map Json.int := by
  refine ⟨Sorting.sort (fun m n => le (.int m) (.int n)) ns, ?_, fun n => Sorting.mem_sort,
    (Sorting.map_sort (fun _ _ => rfl) ns).symm⟩
  have hsorted : (Sorting.sort (fun m n => le (.int m) (.int n)) ns).Pairwise
      fun m n => le (.int m) (.int n) = true :=
    Sorting.sort_pairwise (by simp only [le_int]; omega) (by simp only [le_int]; omega) ns
  have honce := ((Sorting.sort_perm (fun m n => le (.int m) (.int n)) ns).nodup_iff).2 h
  refine (hsorted.and honce).imp fun {m n} hmn => ?_
  exact lt_of_le_of_ne (le_int.1 hmn.1) hmn.2

end Ids

namespace IdMap

variable {m : IdMap α}

/-- A map that has the values of a function under integers. -/
structure Tells (m : IdMap α) (f : Int → Option α) : Prop where
  whole : ∀ a ∈ ids m, ∃ n, a = .int n
  once : m.keys.Nodup
  value : ∀ n, m.get? (.int n) = f n

theorem Tells.insert (h : Tells m f) (n : Int) (v : α) :
    Tells (IdMap.insert m (.int n) v) (Function.update f n (some v)) where
  whole a ha := by
    unfold ids at ha
    rcases map_fst_insert_cases m (.int n) v with hsame | ⟨-, hmore⟩
    · rw [hsame] at ha
      exact h.whole a ha
    · rw [hmore] at ha
      rcases List.mem_append.1 ha with ha | ha
      · exact h.whole a ha
      · exact ⟨n, List.mem_singleton.1 ha⟩
  once := nodup_insert h.once
  value k := by
    rw [get?_insert]
    by_cases hk : k = n
    · rw [hk, Function.update_self, if_pos (Json.sameId_refl _)]
    · have hne : ¬(Json.int n).sameId (.int k) = true := by
        rw [Json.sameId_iff]
        rintro ⟨⟩
        exact hk rfl
      rw [Function.update_of_ne hk, if_neg hne, h.value]

/-- An id that has a value is there under its own spelling. -/
theorem Tells.mem_ids (h : Tells m f) {n : Int} {v : α} (hn : f n = some v) : .int n ∈ ids m := by
  rw [← h.value] at hn
  obtain ⟨p, hp, hsame, -⟩ := exists_mem_of_get? hn
  obtain ⟨k, hk⟩ := h.whole p.1 (List.mem_map_of_mem hp)
  rw [hk, Json.sameId_iff] at hsame
  cases hsame
  exact hk ▸ List.mem_map_of_mem hp

/-- **The values of a map in the order of its ids** are listed by what the map tells. -/
theorem Tells.sortValues (h : Tells m f) : ∃ vs, Ids.sortValues m = .ok vs ∧ Listed f vs := by
  obtain ⟨ns, hns⟩ : ∃ ns : List Int, ids m = ns.map Json.int := by
    refine ⟨(ids m).map fun a => a.int?.getD 0, ?_⟩
    rw [List.map_map]
    refine ((List.map_congr_left fun a ha => ?_).trans (List.map_id _)).symm
    obtain ⟨n, rfl⟩ := h.whole a ha
    rfl
  have honce : ns.Nodup := by
    have hkeys := h.once
    rw [keys_eq] at hkeys
    change ((ids m).map Json.key).Nodup at hkeys
    rw [hns] at hkeys
    exact (hkeys.of_map _).of_map _
  obtain ⟨ks, hsorted, hmem, hks⟩ := Ids.exists_sorted_eq honce
  have hsort : Ids.sort (ids m) = .ok (ks.map Json.int) := by
    rw [← hks, ← hns]
    refine Ids.sort_of_isInt fun a ha => ?_
    obtain ⟨n, rfl⟩ := h.whole a ha
    rfl
  refine ⟨ks.filterMap f, ?_, ks.filterMap fun n => (f n).map (n, ·), ?_, fun n v => ?_, ?_⟩
  · rw [Ids.sortValues, hsort, ok_bind]
    refine congrArg Except.ok ?_
    rw [List.filterMap_map]
    exact List.filterMap_congr fun n _ => h.value n
  · refine hsorted.filterMap _ fun j k hjk p hp q hq => ?_
    obtain ⟨v, -, rfl⟩ := Option.map_eq_some_iff.1 hp
    obtain ⟨w, -, rfl⟩ := Option.map_eq_some_iff.1 hq
    exact hjk
  · rw [List.mem_filterMap]
    constructor
    · rintro ⟨k, -, hk⟩
      obtain ⟨w, hw, heq⟩ := Option.map_eq_some_iff.1 hk
      cases heq
      exact hw
    · intro hv
      have hn := h.mem_ids hv
      rw [hns, List.mem_map] at hn
      obtain ⟨k, hk, heq⟩ := hn
      cases heq
      exact ⟨n, (hmem n).2 hk, by rw [hv]; rfl⟩
  · rw [List.map_filterMap]
    refine List.filterMap_congr fun n _ => ?_
    cases f n <;> rfl

/-- Pairs that name each id once are a map that tells what they say. -/
theorem tells_of_pairs {ps : List (Int × α)} (once : (ps.map (·.1)).Nodup)
    (hmem : ∀ n v, (n, v) ∈ ps ↔ f n = some v) :
    Tells (ofList (ps.map fun p => (Json.int p.1, p.2))) f := by
  have honce : (keys (ps.map fun p => (Json.int p.1, p.2))).Nodup := by
    unfold keys
    rw [List.map_map]
    exact List.pairwise_map.2 ((List.pairwise_map.1 once).imp fun hne heq => hne (Key.whole.inj heq))
  rw [ofList_eq_self honce]
  refine ⟨fun a ha => ?_, honce, fun n => ?_⟩
  · obtain ⟨q, hq, rfl⟩ := List.mem_map.1 ha
    obtain ⟨p, -, rfl⟩ := List.mem_map.1 hq
    exact ⟨p.1, rfl⟩
  · cases hn : f n with
    | some v =>
      exact get?_of_mem honce (List.mem_map_of_mem (f := fun p => (Json.int p.1, p.2)) ((hmem n v).2 hn))
    | none =>
      rw [← Option.not_isSome_iff_eq_none]
      show ¬has _ _ = true
      rw [has_iff]
      rintro ⟨q, hq, hk⟩
      obtain ⟨p, hp, rfl⟩ := List.mem_map.1 hq
      obtain ⟨k, v⟩ := p
      rw [← Key.whole.inj hk, (hmem k v).1 hp] at hn
      cases hn

end IdMap
end CardTransfer
