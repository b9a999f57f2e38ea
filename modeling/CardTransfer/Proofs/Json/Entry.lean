import CardTransfer.Json.Id
import CardTransfer.Json.Parser
import CardTransfer.Proofs.Except
import Mathlib.Data.List.Nodup
import Mathlib.Tactic.Common

/-!
# Entries of objects and maps

Objects and maps of ids are put together from pairs that are read in turn. What comes out holds only
pairs that went in (`mem_of_mem_ofList`, `exists_of_get?_ofList`), and every key that went in
(`exists_mem_ofList`, `has_ofList`).
-/

namespace CardTransfer
namespace Members

variable {ms : Members} {key : String} {v : Json} {p : String × Json}

theorem mem_insert_self : (key, v) ∈ ms.insert key v := by
  induction ms with
  | nil => exact List.mem_cons_self ..
  | cons m ms ih =>
    unfold insert
    split
    · rename_i h
      rw [beq_iff_eq] at h
      subst h
      exact List.mem_cons_self ..
    · exact List.mem_cons_of_mem _ ih

/-- What an insertion leaves is what it inserts or was there. -/
theorem mem_of_mem_insert (h : p ∈ ms.insert key v) : p = (key, v) ∨ p ∈ ms := by
  induction ms with
  | nil => exact .inl (List.mem_singleton.1 h)
  | cons m ms ih =>
    unfold insert at h
    split at h
    · rename_i hm
      rw [beq_iff_eq] at hm
      subst hm
      rcases List.mem_cons.1 h with h | h
      · exact .inl h
      · exact .inr (List.mem_cons_of_mem _ h)
    · rcases List.mem_cons.1 h with h | h
      · exact .inr (h ▸ List.mem_cons_self ..)
      · exact (ih h).imp_right (List.mem_cons_of_mem _)

/-- An insertion leaves the members under other keys. -/
theorem mem_insert_of_ne (h : p ∈ ms) (hne : p.1 ≠ key) : p ∈ ms.insert key v := by
  induction ms with
  | nil => cases h
  | cons m ms ih =>
    unfold insert
    split
    · rename_i hm
      rw [beq_iff_eq] at hm
      rcases List.mem_cons.1 h with rfl | h
      · exact absurd hm hne
      · exact List.mem_cons_of_mem _ h
    · rcases List.mem_cons.1 h with rfl | h
      · exact List.mem_cons_self ..
      · exact List.mem_cons_of_mem _ (ih h)

/-- Every key stays a key. -/
theorem exists_mem_insert (h : p ∈ ms) : ∃ w, (p.1, w) ∈ ms.insert key v := by
  by_cases hk : p.1 = key
  · rw [hk]
    exact ⟨v, mem_insert_self⟩
  · exact ⟨p.2, mem_insert_of_ne h hk⟩

/-- Of two insertions under a key the last one counts. -/
theorem insert_insert_self (ms : Members) (key : String) (v w : Json) :
    (ms.insert key v).insert key w = ms.insert key w := by
  induction ms with
  | nil => simp [insert]
  | cons m ms ih =>
    obtain ⟨k, old⟩ := m
    by_cases h : (k == key) = true
    · simp [insert, h]
    · simp [insert, h, ih]

/-- A key keeps its place when another one is inserted. -/
theorem insert_insert_of_mem {other : String} {u w : Json} (h : (key, u) ∈ ms) (hne : other ≠ key) :
    (ms.insert other v).insert key w = (ms.insert key w).insert other v := by
  induction ms with
  | nil => cases h
  | cons m ms ih =>
    obtain ⟨k, old⟩ := m
    by_cases hk : k = key
    · simp [insert, hk, Ne.symm hne]
    · have hmem : (key, u) ∈ ms := by
        rcases List.mem_cons.1 h with heq | h
        · exact absurd (congrArg Prod.fst heq).symm hk
        · exact h
      by_cases ho : k = other
      · simp [insert, ho, hne]
      · simp [insert, hk, ho, ih hmem]

theorem mem_of_mem_foldl {ps : List (String × Json)}
    (h : p ∈ ps.foldl (fun ms q => insert ms q.1 q.2) ms) : p ∈ ms ∨ p ∈ ps := by
  induction ps generalizing ms with
  | nil => exact .inl h
  | cons q qs ih =>
    rcases ih h with h | h
    · rcases mem_of_mem_insert h with h | h
      · exact .inr (h ▸ List.mem_cons_self ..)
      · exact .inl h
    · exact .inr (List.mem_cons_of_mem _ h)

theorem exists_mem_foldl {ps : List (String × Json)} (h : p ∈ ms ∨ p ∈ ps) :
    ∃ w, (p.1, w) ∈ ps.foldl (fun ms q => insert ms q.1 q.2) ms := by
  induction ps generalizing ms p with
  | nil => exact ⟨p.2, h.resolve_right List.not_mem_nil⟩
  | cons q qs ih =>
    rcases h with h | h
    · obtain ⟨w, hw⟩ : ∃ w, (p.1, w) ∈ ms.insert q.1 q.2 := exists_mem_insert h
      exact ih (p := (p.1, w)) (.inl hw)
    · rcases List.mem_cons.1 h with rfl | h
      · exact ih (.inl mem_insert_self)
      · exact ih (.inr h)

/-- An object that was read holds members that were read. -/
theorem mem_of_mem_ofList {ps : List (String × Json)} (h : p ∈ ofList ps) : p ∈ ps :=
  (mem_of_mem_foldl h).resolve_left List.not_mem_nil

/-- It has every key that was read. -/
theorem exists_mem_ofList {ps : List (String × Json)} (h : p ∈ ps) : ∃ w, (p.1, w) ∈ ofList ps :=
  exists_mem_foldl (.inr h)

end Members

namespace IdMap

variable {α : Type} {m : IdMap α} {a b : Json} {v w : α}

theorem has_insert : (insert m a v).has b = (a.sameId b || m.has b) := by
  unfold has
  rw [get?_insert]
  split
  · rename_i h
    rw [h]
    rfl
  · rename_i h
    rw [Bool.not_eq_true] at h
    rw [h, Bool.false_or]

theorem has_eq_true : m.has a = true ↔ ∃ v, m.get? a = some v := Option.isSome_iff_exists

/-- A value is that of one of the pairs. -/
theorem exists_mem_of_get? (h : m.get? a = some v) : ∃ p ∈ m, p.1.sameId a = true ∧ p.2 = v := by
  obtain ⟨p, hfind, hv⟩ := Option.map_eq_some_iff.1 h
  exact ⟨p, List.mem_of_find?_eq_some hfind,
    List.find?_some (p := fun q : Json × α => q.1.sameId a) hfind, hv⟩

/-- What an insertion leaves is what it inserts, under a spelling of the id, or was there. -/
theorem mem_of_mem_insert {p : Json × α} (h : p ∈ insert m a v) :
    p.1.key = a.key ∧ p.2 = v ∨ p ∈ m := by
  induction m with
  | nil =>
    obtain rfl := List.mem_singleton.1 h
    exact .inl ⟨rfl, rfl⟩
  | cons q m ih =>
    unfold insert at h
    split at h
    · rename_i hq
      rcases List.mem_cons.1 h with rfl | h
      · exact .inl ⟨(Json.sameId_iff _ _).1 hq, rfl⟩
      · exact .inr (List.mem_cons_of_mem _ h)
    · rcases List.mem_cons.1 h with rfl | h
      · exact .inr (List.mem_cons_self ..)
      · exact (ih h).imp_right (List.mem_cons_of_mem _)

/-- The value for an id depends on its thing alone. -/
theorem get?_congr (h : a.key = b.key) : m.get? a = m.get? b := by
  unfold get? Json.sameId
  rw [h]

theorem exists_of_get?_foldl {ps : List (Json × α)}
    (h : get? (ps.foldl (fun m p => insert m p.1 p.2) m) a = some v) :
    m.get? a = some v ∨ ∃ p ∈ ps, p.1.key = a.key ∧ p.2 = v := by
  induction ps generalizing m with
  | nil => exact .inl h
  | cons p ps ih =>
    rcases ih h with h | ⟨q, hq, h⟩
    · rw [get?_insert] at h
      split at h
      · rename_i hk
        cases h
        exact .inr ⟨p, List.mem_cons_self .., (Json.sameId_iff _ _).1 hk, rfl⟩
      · exact .inl h
    · exact .inr ⟨q, List.mem_cons_of_mem _ hq, h⟩

theorem has_foldl {ps : List (Json × α)} :
    has (ps.foldl (fun m p => insert m p.1 p.2) m) a = true ↔
      m.has a = true ∨ ∃ p ∈ ps, p.1.key = a.key := by
  induction ps generalizing m with
  | nil => simp
  | cons p ps ih =>
    rw [List.foldl_cons, ih, has_insert, Bool.or_eq_true, Json.sameId_iff]
    simp only [List.mem_cons, exists_eq_or_imp]
    rw [or_comm (a := p.1.key = a.key), or_assoc]

/-- The value for an id was read for it. -/
theorem exists_of_get?_ofList {ps : List (Json × α)} (h : get? (ofList ps) a = some v) :
    ∃ p ∈ ps, p.1.key = a.key ∧ p.2 = v :=
  (exists_of_get?_foldl h).resolve_left (by simp)

/-- An id has a value if one was read for it. -/
theorem has_ofList {ps : List (Json × α)} :
    has (ofList ps) a = true ↔ ∃ p ∈ ps, p.1.key = a.key := by
  unfold ofList
  rw [has_foldl]
  simp [has]

end IdMap

/-- Whether ids have an id depends on its thing alone. -/
theorem Ids.has_congr {ids : Ids} {a b : Json} (h : a.key = b.key) : ids.has a = ids.has b := by
  unfold has Json.sameId
  rw [h]

/-- What is not named after an addition was not named before, and is not what is added. -/
theorem Ids.has_add_eq_false_iff {ids : Ids} {a b : Json} :
    (ids.add a).has b = false ↔ ids.has b = false ∧ a.sameId b = false := by
  rw [has_add, Bool.or_eq_false_iff]

end CardTransfer

/-!
## Objects that have each key once

What is found under a key is the first member of that key. So an object is its members only if it
has each key once (`get?_eq_some_iff`). Every object in a document that is read has
(`keysOnce_of_parse`): the members of an object are put in one by one, and a key that is there
already gets a new value.
-/

namespace CardTransfer
namespace Members

variable {ms : Members} {key : String} {v : Json}

theorem mem_of_get? (h : ms.get? key = some v) : (key, v) ∈ ms := by
  obtain ⟨before, after, rfl, -⟩ := List.lookup_eq_some_iff.1 h
  exact List.mem_append_right _ (List.mem_cons_self ..)

theorem get?_eq_none_iff : ms.get? key = none ↔ ∀ m ∈ ms, m.1 ≠ key := by
  unfold get?
  rw [List.lookup_eq_none_iff]
  constructor
  · intro h m hm heq
    exact bne_iff_ne.1 (h m hm) heq.symm
  · intro h m hm
    exact bne_iff_ne.2 (h m hm).symm

/-- If each key is there once, then a member is what is found under its key. -/
theorem get?_eq_some_iff (hms : (ms.map (·.1)).Nodup) : ms.get? key = some v ↔ (key, v) ∈ ms := by
  constructor
  · exact mem_of_get?
  · intro hmem
    cases hget : ms.get? key with
    | none => exact absurd rfl (get?_eq_none_iff.1 hget _ hmem)
    | some w =>
      have heq : (key, w) = (key, v) := List.inj_on_of_nodup_map hms (mem_of_get? hget) hmem rfl
      simp only [Prod.mk.injEq, true_and] at heq
      rw [heq]

/-- If each key is there once, the order of members does not matter. -/
theorem get?_perm {ns : Members} (once : (ms.map (·.1)).Nodup) (h : ms.Perm ns) :
    ms.get? key = ns.get? key := by
  have honce : (ns.map (·.1)).Nodup := ((h.map _).nodup_iff).1 once
  refine Option.ext fun v => ?_
  rw [get?_eq_some_iff once, get?_eq_some_iff honce, h.mem_iff]

/-- The values may be replaced after the search. -/
theorem get?_map (g : Json → Json) : get? (ms.map fun m => (m.1, g m.2)) key = (ms.get? key).map g := by
  induction ms with
  | nil => rfl
  | cons m ms ih =>
    unfold get? at ih ⊢
    rw [List.map_cons, List.lookup_cons, List.lookup_cons, ih]
    split <;> rfl

/-- Members may be chosen by their keys after the search. -/
theorem get?_filter_key (keep : String → Bool) :
    get? (ms.filter fun m => keep m.1) key = if keep key then ms.get? key else none := by
  induction ms with
  | nil => simp [get?]
  | cons m ms ih =>
    obtain ⟨k, v⟩ := m
    unfold get? at ih ⊢
    by_cases hk : key = k
    · subst hk
      cases hkeep : keep key <;> simp [hkeep, ih]
    · have hb : (key == k) = false := beq_eq_false_iff_ne.2 hk
      cases hkeep : keep k <;> simp [hkeep, List.lookup_cons, hb, ih]

/-- If each key is there once, members may be chosen after the search. -/
theorem get?_filter (hms : (ms.map (·.1)).Nodup) (keep : String × Json → Bool) :
    get? (ms.filter keep) key = (ms.get? key).filter fun v => keep (key, v) := by
  have hfilter : ((ms.filter keep).map (·.1)).Nodup := hms.sublist (List.filter_sublist.map _)
  ext v
  rw [get?_eq_some_iff hfilter, List.mem_filter, Option.filter_eq_some_iff, get?_eq_some_iff hms]

/-- An object that was read holds under a key what all members of that key hold. -/
theorem get?_ofList {ps : List (String × Json)} (h : ∀ w, (key, w) ∈ ps → w = v)
    (hmem : (key, v) ∈ ps) : get? (ofList ps) key = some v := by
  obtain ⟨w, hw⟩ := exists_mem_ofList hmem
  cases hget : get? (ofList ps) key with
  | none => exact absurd rfl (get?_eq_none_iff.1 hget _ hw)
  | some u => rw [h u (mem_of_mem_ofList (mem_of_get? hget))]

theorem get?_ofList_eq_none {ps : List (String × Json)} (h : ∀ w, (key, w) ∉ ps) :
    get? (ofList ps) key = none := by
  rw [get?_eq_none_iff]
  rintro ⟨_, w⟩ hm rfl
  exact h w (mem_of_mem_ofList hm)

/-- An insertion keeps each key once. -/
theorem nodup_insert (hms : (ms.map (·.1)).Nodup) : ((ms.insert key v).map (·.1)).Nodup := by
  induction ms with
  | nil => exact List.nodup_singleton key
  | cons m ms ih =>
    obtain ⟨k, w⟩ := m
    rw [List.map_cons, List.nodup_cons] at hms
    unfold insert
    split
    · exact List.nodup_cons.2 hms
    · rename_i hk
      rw [List.map_cons, List.nodup_cons]
      refine ⟨fun hmem => ?_, ih hms.2⟩
      obtain ⟨m, hm, rfl⟩ := List.mem_map.1 hmem
      rcases mem_of_mem_insert hm with rfl | hm
      · exact hk (beq_self_eq_true _)
      · exact hms.1 (List.mem_map.2 ⟨m, hm, rfl⟩)

end Members

namespace Json

mutual

/-- Whether every object in a document has each key once. -/
def keysOnce : Json → Bool
  | arr vs => itemsKeysOnce vs
  | obj ms => decide (ms.map (·.1)).Nodup && membersKeysOnce ms
  | _ => true

/-- Whether every object in a list of documents has each key once. -/
def itemsKeysOnce : List Json → Bool
  | [] => true
  | v :: vs => keysOnce v && itemsKeysOnce vs

/-- Whether every object in the values of members has each key once. -/
def membersKeysOnce : List (String × Json) → Bool
  | [] => true
  | (_, v) :: ms => keysOnce v && membersKeysOnce ms

end

theorem itemsKeysOnce_eq (vs : List Json) : itemsKeysOnce vs = vs.all keysOnce := by
  induction vs with
  | nil => rfl
  | cons v vs ih => rw [itemsKeysOnce, List.all_cons, ih]

theorem membersKeysOnce_eq (ms : Members) : membersKeysOnce ms = ms.all fun m => m.2.keysOnce := by
  induction ms with
  | nil => rfl
  | cons m ms ih => rw [membersKeysOnce, List.all_cons, ih]

theorem nodup_of_keysOnce {ms : Members} (h : (obj ms).keysOnce = true) : (ms.map (·.1)).Nodup := by
  rw [keysOnce, Bool.and_eq_true, decide_eq_true_eq] at h
  exact h.1

/-! ### Documents that are read -/

theorem keysOnce_insert {ms : Members} {key : String} {v : Json} (hms : (obj ms).keysOnce = true)
    (hv : v.keysOnce = true) : (obj (Members.insert ms key v)).keysOnce = true := by
  rw [keysOnce, Bool.and_eq_true, decide_eq_true_eq, membersKeysOnce_eq, List.all_eq_true] at hms ⊢
  obtain ⟨hkeys, hvalues⟩ := hms
  constructor
  · exact Members.nodup_insert hkeys
  · intro m hm
    rcases Members.mem_of_mem_insert hm with rfl | hm
    · exact hv
    · exact hvalues m hm

theorem keysOnce_readNumber {negative : Bool} {cs rest : List Char} {v : Json}
    (h : readNumber negative cs = .ok (v, rest)) : v.keysOnce = true := by
  unfold readNumber at h
  simp only at h
  repeat' split at h
  all_goals cases h
  all_goals rfl

theorem keysOnce_readScalar {cs rest : List Char} {v : Json} (h : readScalar cs = .ok (v, rest)) :
    v.keysOnce = true := by
  unfold readScalar at h
  split at h
  · rename_i r hword
    cases h
    obtain ⟨p, hp, hmap⟩ := List.exists_of_findSome?_eq_some hword
    obtain ⟨after, -, heq⟩ := Option.map_eq_some_iff.1 hmap
    cases heq
    simp only [wordValues, List.mem_cons, List.not_mem_nil, or_false] at hp
    rcases hp with rfl | rfl | rfl | rfl | rfl | rfl <;> rfl
  · split at h
    · split at h
      · cases h
      · exact keysOnce_readNumber h
    · exact keysOnce_readNumber h

/-- What is read has each key once: a value, items after others, and members after others. -/
theorem keysOnce_read (fuel : Nat) :
    (∀ {cs rest v}, readValue fuel cs = .ok (v, rest) → v.keysOnce = true) ∧
      (∀ {acc cs rest vs}, (arr acc).keysOnce = true → readItems fuel acc cs = .ok (vs, rest) →
        (arr vs).keysOnce = true) ∧
      ∀ {acc cs rest ms}, (obj acc).keysOnce = true → readMembers fuel acc cs = .ok (ms, rest) →
        (obj ms).keysOnce = true := by
  induction fuel with
  | zero => exact ⟨nofun, nofun, nofun⟩
  | succ fuel ih =>
    obtain ⟨hvalue, hitems, hmembers⟩ := ih
    refine ⟨?_, ?_, ?_⟩
    · intro cs rest v h
      unfold readValue at h
      split at h
      · obtain ⟨r, -, heq⟩ := map_eq_ok.1 h
        cases heq
        rfl
      · split at h
        · cases h
          rfl
        · obtain ⟨r, hr, heq⟩ := map_eq_ok.1 h
          cases heq
          exact hitems rfl hr
      · split at h
        · cases h
          rfl
        · obtain ⟨r, hr, heq⟩ := map_eq_ok.1 h
          cases heq
          exact hmembers rfl hr
      · exact keysOnce_readScalar h
    · intro acc cs rest vs hacc h
      unfold readItems at h
      split at h
      · cases h
      · rename_i v rest' hv
        have hall : (arr (v :: acc)).keysOnce = true := by
          rw [keysOnce, itemsKeysOnce, hvalue hv]
          exact hacc
        split at h
        · cases h
          rw [keysOnce, itemsKeysOnce_eq, List.all_reverse, ← itemsKeysOnce_eq]
          exact hall
        · exact hitems hall h
        · cases h
    · intro acc cs rest ms hacc h
      unfold readMembers at h
      split at h
      · split at h
        · cases h
        · split at h
          · split at h
            · cases h
            · rename_i v rest' hv
              have hall {key : String} : (obj (Members.insert acc key v)).keysOnce = true :=
                keysOnce_insert hacc (hvalue hv)
              split at h
              · cases h
                exact hall
              · exact hmembers hall h
              · cases h
          · cases h
      · cases h

/-- **Every object in a document that is read has each key once.** -/
theorem keysOnce_of_parse {text : String} {v : Json} (h : parse text = .ok v) :
    v.keysOnce = true := by
  unfold parse at h
  simp only at h
  rw [mapError_eq_ok] at h
  split at h
  · cases h
  · obtain ⟨-, -, h⟩ := bind_eq_ok.1 h
    obtain ⟨r, hr, h⟩ := bind_eq_ok.1 h
    split at h
    · cases h
      exact (keysOnce_read _).1 hr
    · cases h

end Json
end CardTransfer
