import CardTransfer.Proofs.Mbql.Use

/-!
# The visit of a query

A query is visited part by part: the source that is kept, the joins, the clauses, the expressions, and
inside each from left to right. `visits` lists the places at which an id is met, with what it is used
as; no place is met twice (`nodup_visits`), and the ids of the visit are the ids that the query uses
(`uses_eq_visits`).

A place is met where its part has a role (`use?_of_mem_visits`, `mem_visits`). The only exception is an
inner query that is written as one value: its parts are met, but have no role, since they are not
written.
-/

namespace CardTransfer

open Json (Step)
open InnerQuery (isRead)

/-- If each key is there once, the members of one key are the one that is found under it. -/
theorem Members.filter_key {ms : Members} (hms : (ms.map (·.1)).Nodup) (key : String)
    (keep : String × Json → Bool) : ms.filter (fun m => m.1 == key && keep m) =
      (((ms.get? key).map fun v => (key, v)).filter keep).toList := by
  induction ms with
  | nil => rfl
  | cons m ms ih =>
    obtain ⟨k, v⟩ := m
    rw [List.map_cons, List.nodup_cons] at hms
    have ih := ih hms.2
    by_cases hk : key = k
    · subst hk
      have hnone : get? ms key = none := by
        rw [get?_eq_none_iff]
        rintro m hm rfl
        exact hms.1 (List.mem_map.2 ⟨m, hm, rfl⟩)
      rw [hnone] at ih
      have hget : get? ((key, v) :: ms) key = some v := List.lookup_cons_self ..
      rw [List.filter_cons, ih, hget, beq_self_eq_true, Bool.true_and, Option.map_some,
        Option.filter_some]
      split <;> rfl
    · have hget : get? ((k, v) :: ms) key = get? ms key := by
        unfold get?
        rw [List.lookup_cons, beq_eq_false_iff_ne.2 hk]
      have hne : (k == key) = false := beq_eq_false_iff_ne.2 (Ne.symm hk)
      rw [List.filter_cons, hne, Bool.false_and, if_neg Bool.false_ne_true, ih, hget]

namespace InnerQuery

/-- The members of an inner query that are read, in the order of the visit. -/
def visited (ms : Members) : Members :=
  (source? ms).toList ++ ms.filter (fun m => m.1 == "joins" && isRead m) ++
    ms.filter (fun m => clauseKeys.contains m.1) ++
    ms.filter (fun m => m.1 == "expressions" && isRead m)

variable {ms : Members} {m : String × Json}

/-- The key of a clause is none of the other keys that are read. -/
theorem of_clauseKey {key : String} (h : clauseKeys.contains key = true) :
    isSourceKey key = false ∧ key ≠ "joins" ∧ key ≠ "expressions" := by
  simp only [clauseKeys, List.contains_iff_mem, List.mem_cons, List.not_mem_nil, or_false] at h
  rcases h with rfl | rfl | rfl | rfl | rfl | rfl <;> decide

theorem ofKey_clause {key : String} (h : clauseKeys.contains key = true) :
    Role.ofKey key = .clause := by
  obtain ⟨hsource, hjoins, hexpressions⟩ := of_clauseKey h
  exact ofKey_other hsource hjoins hexpressions

theorem mem_of_mem_visited (h : m ∈ visited ms) : m ∈ ms := by
  rw [visited, List.mem_append, List.mem_append, List.mem_append, Option.mem_toList] at h
  rcases h with ((h | h) | h) | h
  · exact (mem_of_source? h).1
  · exact List.mem_of_mem_filter h
  · exact List.mem_of_mem_filter h
  · exact List.mem_of_mem_filter h

end InnerQuery

namespace Role

/-- The id that a part is in its role, as what it is used. -/
def use? : Role → Json → Option IdUse
  | source, .str s => (namedCard? s).map fun (n : Nat) => .card (.int n)
  | source, v => if v.isInt then some (.table v) else none
  | field, v => if v.isInt then some (.field v) else none
  | sourceField, v => if v.isInt then some (.sourceField v) else none
  | _, _ => none

/-- The parts of a document in a role, in the order of the visit: the step to each, its role, and the
part itself. -/
def parts : Role → Json → List (Step × Role × Json)
  | query, .obj ms => (InnerQuery.visited ms).map fun m => (.key m.1, ofKey m.1, m.2)
  | joins, .arr vs => vs.mapIdx fun n v => (.item n, query, v)
  | expressions, .obj es => es.map fun e => (.key e.1, clause, e.2)
  | clause, .arr vs =>
    if Clause.namesField vs then
      [(1, field), (2, options)].filterMap fun p => vs[p.1]?.map fun v => (.item p.1, p.2, v)
    else vs.mapIdx fun n v => (.item n, clause, v)
  | options, .obj ms =>
    ((Members.get? ms Clause.sourceFieldKey).map fun v =>
      (Step.key Clause.sourceFieldKey, sourceField, v)).toList
  | _, _ => []

variable {r r' : Role} {v w : Json} {s : Step}

theorem mem_itemParts_iff {r₁ : Role} {vs : List Json} :
    (s, r', w) ∈ (vs.mapIdx fun n v => (Step.item n, r₁, v)) ↔
      ∃ n, s = .item n ∧ r₁ = r' ∧ vs[n]? = some w := by
  rw [List.mem_mapIdx]
  constructor
  · rintro ⟨n, hn, heq⟩
    cases heq
    exact ⟨n, rfl, rfl, List.getElem?_eq_getElem hn⟩
  · rintro ⟨n, rfl, rfl, hw⟩
    obtain ⟨hn, rfl⟩ := List.getElem?_eq_some_iff.1 hw
    exact ⟨n, hn, rfl⟩

theorem mem_keyParts_iff (role : String → Role) {ms : Members} :
    (s, r', w) ∈ (ms.map fun m => (Step.key m.1, role m.1, m.2)) ↔
      ∃ key, s = .key key ∧ role key = r' ∧ (key, w) ∈ ms := by
  rw [List.mem_map]
  constructor
  · rintro ⟨m, hm, heq⟩
    cases heq
    exact ⟨m.1, rfl, rfl, hm⟩
  · rintro ⟨key, rfl, rfl, hm⟩
    exact ⟨(key, w), hm, rfl⟩

/-- A part is the value of a member or an item. -/
theorem mem_of_mem_parts (h : (s, r', w) ∈ r.parts v) :
    (∃ ms key, v = .obj ms ∧ s = .key key ∧ (key, w) ∈ ms) ∨
      ∃ vs n, v = .arr vs ∧ s = .item n ∧ vs[n]? = some w := by
  unfold parts at h
  split at h
  · rename_i ms
    obtain ⟨key, hs, -, hm⟩ := (mem_keyParts_iff ofKey).1 h
    exact .inl ⟨ms, key, rfl, hs, InnerQuery.mem_of_mem_visited hm⟩
  · rename_i vs
    obtain ⟨n, hs, -, hn⟩ := mem_itemParts_iff.1 h
    exact .inr ⟨vs, n, rfl, hs, hn⟩
  · rename_i es
    obtain ⟨key, hs, -, he⟩ := (mem_keyParts_iff fun _ => clause).1 h
    exact .inl ⟨es, key, rfl, hs, he⟩
  · rename_i vs
    split at h
    · obtain ⟨⟨n, r₁⟩, -, heq⟩ := List.mem_filterMap.1 h
      obtain ⟨u, hu, heq⟩ := Option.map_eq_some_iff.1 heq
      cases heq
      exact .inr ⟨vs, n, rfl, rfl, hu⟩
    · obtain ⟨n, hs, -, hn⟩ := mem_itemParts_iff.1 h
      exact .inr ⟨vs, n, rfl, hs, hn⟩
  · rename_i ms
    rw [Option.mem_toList, Option.map_eq_some_iff] at h
    obtain ⟨u, hu, heq⟩ := h
    cases heq
    exact .inl ⟨ms, _, rfl, rfl, Members.mem_of_get? hu⟩
  · cases h

theorem sizeOf_of_mem_parts {part : Step × Role × Json} (h : part ∈ r.parts v) :
    sizeOf part.2.2 < sizeOf v := by
  obtain ⟨s, r', w⟩ := part
  rcases mem_of_mem_parts h with ⟨ms, key, rfl, -, hmem⟩ | ⟨vs, n, rfl, -, hn⟩
  · have hsize := List.sizeOf_lt_of_mem hmem
    rw [Prod.mk.sizeOf_spec] at hsize
    change sizeOf w < _
    rw [Json.obj.sizeOf_spec]
    omega
  · have hsize := List.sizeOf_lt_of_mem (List.mem_of_getElem? hn)
    change sizeOf w < _
    rw [Json.arr.sizeOf_spec]
    omega

theorem part?_of_mem_parts (hv : v.keysOnce = true) (h : (s, r', w) ∈ r.parts v) :
    v.part? s = some w := by
  rcases mem_of_mem_parts h with ⟨ms, key, rfl, rfl, hmem⟩ | ⟨vs, n, rfl, rfl, hn⟩
  · exact (Members.get?_eq_some_iff (Json.nodup_of_keysOnce hv)).2 hmem
  · exact hn

/-- The places at which an id is met, with what it is used as, in the order of the visit. -/
def visits (r : Role) (v : Json) : List (List Step × IdUse) :=
  ((r.use? v).map fun u => ([], u)).toList ++
    (r.parts v).attach.flatMap fun ⟨part, _⟩ =>
      (visits part.2.1 part.2.2).map fun visit => (part.1 :: visit.1, visit.2)
termination_by sizeOf v
decreasing_by exact sizeOf_of_mem_parts ‹_›

theorem visits_eq (r : Role) (v : Json) : r.visits v =
    ((r.use? v).map fun u => ([], u)).toList ++
      (r.parts v).flatMap fun part =>
        (part.2.1.visits part.2.2).map fun visit => (part.1 :: visit.1, visit.2) := by
  rw [visits, List.flatMap_subtype fun _ _ => rfl, List.unattach_attach]

/-! ### The ids of the visit -/

theorem uses_items (r : Role) (vs : List Json) :
    (vs.mapIdx fun n v => (Step.item n, r, v)).flatMap (fun part => part.2.1.uses part.2.2) =
      vs.flatMap r.uses := by
  have hsteps (f : Nat → Step) : (vs.mapIdx fun n v => (f n, r, v)).flatMap
      (fun part => part.2.1.uses part.2.2) = vs.flatMap r.uses := by
    induction vs generalizing f with
    | nil => rfl
    | cons v vs ih =>
      rw [List.mapIdx_cons, List.flatMap_cons, List.flatMap_cons, ih fun n => f (n + 1)]
  exact hsteps _

/-- The ids that an inner query uses are those that its visited members use. -/
theorem uses_query {ms : Members} (hms : (ms.map (·.1)).Nodup) :
    query.uses (.obj ms) = (InnerQuery.visited ms).flatMap fun m => (ofKey m.1).uses m.2 := by
  have hsource : InnerQuery.sourceUses (InnerQuery.sourceOf ms) =
      (InnerQuery.source? ms).toList.flatMap fun m => (ofKey m.1).uses m.2 := by
    rw [InnerQuery.sourceOf_eq]
    cases hs : InnerQuery.source? ms with
    | none => rfl
    | some m =>
      obtain ⟨key, v⟩ := m
      have hm := (InnerQuery.mem_of_source? hs).2
      rw [InnerQuery.isSource, InnerQuery.isSourceKey, Bool.and_eq_true, Bool.or_eq_true, beq_iff_eq,
        beq_iff_eq] at hm
      obtain ⟨rfl | rfl, hread⟩ := hm
      · exact (List.append_nil _).symm
      · cases v with
        | obj ns => exact (List.append_nil _).symm
        | _ => cases hread
  have hjoins : InnerQuery.joinUses (InnerQuery.joinsOf ms) =
      (ms.filter fun m => m.1 == "joins" && isRead m).flatMap fun m => (ofKey m.1).uses m.2 := by
    rw [InnerQuery.joinsOf_eq, Members.filter_key hms]
    cases hget : ms.get? "joins" with
    | none => rfl
    | some v =>
      cases v with
      | arr vs =>
        change InnerQuery.joinUses (InnerQuery.joinItems vs) = joins.uses (.arr vs) ++ []
        rw [InnerQuery.joinUses_joinItems, List.append_nil, uses]
      | _ => rfl
  have hclauses : Clause.namedUses (InnerQuery.clausesOf ms) =
      (ms.filter fun m => InnerQuery.clauseKeys.contains m.1).flatMap fun m =>
        (ofKey m.1).uses m.2 := by
    rw [Clause.namedUses, InnerQuery.clausesOf, List.flatMap_map]
    refine List.flatMap_congr fun m hm => ?_
    rw [InnerQuery.ofKey_clause (List.mem_filter.1 hm).2, uses]
  have hexpressions : Clause.namedUses (InnerQuery.expressionsOf ms) =
      (ms.filter fun m => m.1 == "expressions" && isRead m).flatMap fun m => (ofKey m.1).uses m.2 := by
    rw [InnerQuery.expressionsOf, Members.filter_key hms]
    cases hget : ms.get? "expressions" with
    | none => rfl
    | some v =>
      cases v with
      | obj es =>
        change _ = expressions.uses (.obj es) ++ []
        rw [Clause.namedUses, List.flatMap_map, List.append_nil, uses]
      | _ => rfl
  rw [InnerQuery.visited, List.flatMap_append, List.flatMap_append, List.flatMap_append, ← hsource,
    ← hjoins, ← hclauses, ← hexpressions]
  change (InnerQuery.assemble ms _ _).idUses = _
  rw [InnerQuery.assemble, InnerQuery.idUses]

/-- The ids that a clause uses are those that its parts use. -/
theorem uses_clause_eq (vs : List Json) : clause.uses (.arr vs) =
    (clause.parts (.arr vs)).flatMap fun part => part.2.1.uses part.2.2 := by
  rw [parts]
  cases hnames : Clause.namesField vs with
  | true =>
    obtain ⟨op, id, rest, rfl, hread⟩ := Clause.ofJson_arr_field hnames
    rw [uses, hread, Clause.idUses, if_pos rfl]
    cases rest with
    | nil => rfl
    | cons v more =>
      change _ ++ (Option.map IdUse.sourceField (Clause.optionField? (v :: more))).toList =
        field.uses id ++ (options.uses v ++ [])
      rw [List.append_nil]
      cases v <;> rfl
  | false =>
    have hitems (vs : List Json) : Clause.itemUses (Clause.ofItems vs) = vs.flatMap clause.uses := by
      induction vs with
      | nil => rfl
      | cons v vs ih =>
        rw [Clause.ofItems, Clause.itemUses, ih]
        rfl
    rw [if_neg Bool.false_ne_true, uses_items]
    rcases Clause.ofJson_arr hnames with ⟨name, args, rfl, hread⟩ | hread
    · rw [uses, hread, Clause.idUses, hitems]
      rfl
    · rw [uses, hread, Clause.idUses, hitems]

/-- The ids that a part uses are the one that it is and those that its parts use. -/
theorem uses_eq_parts (hv : v.keysOnce = true) : r.uses v =
    (r.use? v).toList ++ (r.parts v).flatMap fun part => part.2.1.uses part.2.2 := by
  cases r with
  | query =>
    cases v with
    | obj ms =>
      rw [uses_query (Json.nodup_of_keysOnce hv), parts, List.flatMap_map]
      rfl
    | _ => rfl
  | joins =>
    cases v with
    | arr vs => exact (uses_items query vs).symm
    | _ => rfl
  | source =>
    have hparts : source.parts v = [] := by cases v <;> rfl
    rw [hparts]
    cases v with
    | str s =>
      rw [uses, Source.ofTable, use?]
      cases namedCard? s <;> rfl
    | int n => rfl
    | bool b => rfl
    | _ => rfl
  | expressions =>
    cases v with
    | obj es =>
      rw [parts, List.flatMap_map]
      rfl
    | _ => rfl
  | clause =>
    cases v with
    | arr vs => exact uses_clause_eq vs
    | _ => rfl
  | field =>
    have hparts : field.parts v = [] := by cases v <;> rfl
    rw [hparts, uses, use?]
    cases v.isInt <;> rfl
  | options =>
    cases v with
    | obj ms =>
      have huse : options.use? (.obj ms) = none := rfl
      rw [uses, parts, huse]
      cases Members.get? ms Clause.sourceFieldKey with
      | none => rfl
      | some w =>
        change _ = sourceField.uses w ++ []
        rw [uses, Option.filter_some]
        cases w.isInt <;> rfl
    | _ => rfl
  | sourceField =>
    have hparts : sourceField.parts v = [] := by cases v <;> rfl
    rw [hparts, uses, use?]
    cases v.isInt <;> rfl

/-- **The ids of the visit are the ids that are used.** -/
theorem uses_eq_visits (r : Role) (v : Json) (hv : v.keysOnce = true) :
    r.uses v = (r.visits v).map (·.2) := by
  rw [uses_eq_parts hv, visits_eq, List.map_append, List.map_flatMap]
  congr 1
  · cases r.use? v <;> rfl
  · refine List.flatMap_congr fun part hpart => ?_
    rw [List.map_map]
    exact uses_eq_visits _ _ (Json.keysOnce_of_part? hv (part?_of_mem_parts hv hpart))
termination_by sizeOf v
decreasing_by exact sizeOf_of_mem_parts hpart

/-! ### Each place once -/

/-- An id has no parts. -/
theorem parts_of_use? {u : IdUse} (h : r.use? v = some u) : r.parts v = [] := by
  cases r with
  | source => cases v <;> rfl
  | field => cases v <;> rfl
  | sourceField => cases v <;> rfl
  | _ => cases v <;> cases h

theorem nodup_itemSteps (r : Role) (vs : List Json) :
    ((vs.mapIdx fun n v => (Step.item n, r, v)).map (·.1)).Nodup := by
  have hsteps : (vs.mapIdx fun n v => (Step.item n, r, v)).map (·.1) =
      (List.range vs.length).map Step.item := List.ext_getElem (by simp) (by simp)
  rw [hsteps]
  exact List.nodup_range.map fun _ _ h => Step.item.inj h

/-- No member is visited twice. -/
theorem nodup_visited {ms : Members} (hms : (ms.map (·.1)).Nodup) :
    ((InnerQuery.visited ms).map (·.1)).Nodup := by
  have hchosen (keep : String × Json → Bool) : ((ms.filter keep).map (·.1)).Nodup :=
    hms.sublist (List.filter_sublist.map _)
  have hkeep {keep : String × Json → Bool} {key : String} (h : key ∈ (ms.filter keep).map (·.1)) :
      ∃ v, keep (key, v) = true := by
    obtain ⟨m, hm, rfl⟩ := List.mem_map.1 h
    exact ⟨m.2, (List.mem_filter.1 hm).2⟩
  have hsource {key : String} (h : key ∈ (InnerQuery.source? ms).toList.map (·.1)) :
      InnerQuery.isSourceKey key = true := by
    obtain ⟨m, hm, rfl⟩ := List.mem_map.1 h
    exact (Bool.and_eq_true_iff.1 (InnerQuery.mem_of_source? (Option.mem_toList.1 hm)).2).1
  have hnamed {key name : String}
      (h : key ∈ (ms.filter fun m => m.1 == name && isRead m).map (·.1)) : key = name := by
    obtain ⟨v, hv⟩ := hkeep h
    exact eq_of_beq (Bool.and_eq_true_iff.1 hv).1
  have hclause {key : String}
      (h : key ∈ (ms.filter fun m => InnerQuery.clauseKeys.contains m.1).map (·.1)) :
      InnerQuery.clauseKeys.contains key = true := (hkeep h).choose_spec
  rw [InnerQuery.visited, List.map_append, List.map_append, List.map_append]
  refine List.Nodup.append (.append (.append ?_ (hchosen _) ?_) (hchosen _) ?_) (hchosen _) ?_
  · cases InnerQuery.source? ms with
    | none => exact List.nodup_nil
    | some m => exact List.nodup_singleton _
  · intro key h h'
    have hkey := hsource h
    rw [hnamed h'] at hkey
    cases hkey
  · intro key h h'
    have hkey := InnerQuery.of_clauseKey (hclause h')
    rcases List.mem_append.1 h with h | h
    · rw [hsource h] at hkey
      cases hkey.1
    · exact hkey.2.1 (hnamed h)
  · intro key h h'
    have hkey := hnamed h'
    subst hkey
    rcases List.mem_append.1 h with h | h
    · rcases List.mem_append.1 h with h | h
      · exact absurd (hsource h) (by decide)
      · exact absurd (hnamed h) (by decide)
    · exact (InnerQuery.of_clauseKey (hclause h)).2.2 rfl

/-- The parts are at different steps. -/
theorem nodup_steps (hv : v.keysOnce = true) : ((r.parts v).map (·.1)).Nodup := by
  have hkeys {ms : Members} (r : String → Role) (hms : (ms.map (·.1)).Nodup) :
      ((ms.map fun m => (Step.key m.1, r m.1, m.2)).map (·.1)).Nodup := by
    rw [List.map_map]
    have hcomp : ms.map ((·.1) ∘ fun m => (Step.key m.1, r m.1, m.2)) =
        (ms.map (·.1)).map Step.key := by
      rw [List.map_map]
      rfl
    rw [hcomp]
    exact hms.map fun _ _ h => Step.key.inj h
  unfold parts
  split
  · exact hkeys ofKey (nodup_visited (Json.nodup_of_keysOnce hv))
  · exact nodup_itemSteps query _
  · exact hkeys (fun _ => clause) (Json.nodup_of_keysOnce hv)
  · rename_i vs
    split
    · cases h₁ : vs[1]? with
      | none => cases h₂ : vs[2]? <;> simp [h₁, h₂]
      | some v₁ => cases h₂ : vs[2]? <;> simp [h₁, h₂]
    · exact nodup_itemSteps clause vs
  · rename_i ms
    cases Members.get? ms Clause.sourceFieldKey <;> simp
  · exact List.nodup_nil

/-- **No place is met twice.** -/
theorem nodup_visits (r : Role) (v : Json) (hv : v.keysOnce = true) :
    ((r.visits v).map (·.1)).Nodup := by
  rw [visits_eq]
  cases huse : r.use? v with
  | some u =>
    rw [parts_of_use? huse]
    exact List.nodup_singleton _
  | none =>
    rw [Option.map_none, Option.toList_none, List.nil_append, List.map_flatMap, List.nodup_flatMap]
    constructor
    · intro part hpart
      have hnodup := nodup_visits part.2.1 part.2.2
        (Json.keysOnce_of_part? hv (part?_of_mem_parts hv hpart))
      have hcomp : ((part.2.1.visits part.2.2).map fun visit => (part.1 :: visit.1, visit.2)).map
          (·.1) = ((part.2.1.visits part.2.2).map (·.1)).map (part.1 :: ·) := by
        rw [List.map_map, List.map_map]
        rfl
      rw [hcomp]
      exact hnodup.map fun _ _ h => (List.cons.inj h).2
    · have hsteps := List.pairwise_map.1 (nodup_steps (r := r) hv)
      refine hsteps.imp fun {part part'} hne => ?_
      refine List.disjoint_left.2 fun p hp hp' => ?_
      obtain ⟨_, hmem, rfl⟩ := List.mem_map.1 hp
      obtain ⟨visit, -, rfl⟩ := List.mem_map.1 hmem
      obtain ⟨_, hmem', heq⟩ := List.mem_map.1 hp'
      obtain ⟨visit', -, rfl⟩ := List.mem_map.1 hmem'
      exact hne (List.cons.inj heq).1.symm
termination_by sizeOf v
decreasing_by exact sizeOf_of_mem_parts hpart

/-! ### Visits and roles -/

variable {u : IdUse} {p : List Step}

/-- The members that are visited are those that are read and not left out. -/
theorem mem_visited_iff {ms : Members} {key : String} (hms : (ms.map (·.1)).Nodup) :
    (key, v) ∈ InnerQuery.visited ms ↔
      (key, v) ∈ ms ∧ isRead (key, v) = true ∧ InnerQuery.drops ms key = false := by
  have hkept (hsource : InnerQuery.isSourceKey key = false) : InnerQuery.drops ms key = false := by
    rw [InnerQuery.drops, hsource, Bool.false_and]
  rw [InnerQuery.visited, List.mem_append, List.mem_append, List.mem_append, Option.mem_toList,
    List.mem_filter, List.mem_filter, List.mem_filter, Bool.and_eq_true, Bool.and_eq_true, beq_iff_eq,
    beq_iff_eq]
  constructor
  · rintro (((h | ⟨hmem, hkey, hread⟩) | ⟨hmem, hclause⟩) | ⟨hmem, hkey, hread⟩)
    · obtain ⟨hmem, hsource⟩ := InnerQuery.mem_of_source? h
      refine ⟨hmem, (Bool.and_eq_true_iff.1 hsource).2, ?_⟩
      rw [InnerQuery.drops, h, Option.any_some, bne_self_eq_false, Bool.and_false]
    · cases hkey
      exact ⟨hmem, hread, hkept rfl⟩
    · obtain ⟨hsource, hjoins, hexpressions⟩ := InnerQuery.of_clauseKey hclause
      refine ⟨hmem, ?_, hkept hsource⟩
      rw [InnerQuery.isRead_other hsource hjoins hexpressions]
      exact hclause
    · cases hkey
      exact ⟨hmem, hread, hkept rfl⟩
  · rintro ⟨hmem, hread, hdrops⟩
    cases hsource : InnerQuery.isSourceKey key with
    | true =>
      have hm : InnerQuery.isSource (key, v) = true := by
        rw [InnerQuery.isSource, hsource, hread]
        rfl
      exact .inl (.inl (.inl (InnerQuery.source?_eq hms hmem hm hdrops)))
    | false =>
      by_cases hjoins : key = "joins"
      · exact .inl (.inl (.inr ⟨hmem, hjoins, hread⟩))
      · by_cases hexpressions : key = "expressions"
        · exact .inr ⟨hmem, hexpressions, hread⟩
        · rw [InnerQuery.isRead_other hsource hjoins hexpressions] at hread
          exact .inl (.inr ⟨hmem, hread⟩)

theorem mem_parts_query {ms : Members} (hms : (ms.map (·.1)).Nodup)
    (hraw : InnerQuery.raw? ms = none) : (s, r', w) ∈ query.parts (.obj ms) ↔
      query.part? (.obj ms) s = some r' ∧ (Json.obj ms).part? s = some w := by
  rw [parts, mem_keyParts_iff]
  cases s with
  | item n => exact ⟨fun ⟨_, h, _⟩ => (nomatch h), fun h => (nomatch h.1)⟩
  | key key =>
    change _ ↔ _ ∧ Members.get? ms key = some w
    rw [part?, hraw, Option.isSome_none, Bool.false_or]
    constructor
    · rintro ⟨key', heq, hrole, hmem⟩
      cases heq
      obtain ⟨hmem, hread, hdrops⟩ := (mem_visited_iff hms).1 hmem
      have hget := (Members.get?_eq_some_iff hms).2 hmem
      rw [hdrops, if_neg Bool.false_ne_true, hget, Option.filter_some, hread, if_pos rfl]
      exact ⟨congrArg some hrole, rfl⟩
    · rintro ⟨hrole, hget⟩
      cases hdrops : InnerQuery.drops ms key with
      | true =>
        rw [hdrops, if_pos rfl] at hrole
        cases hrole
      | false =>
        rw [hdrops, if_neg Bool.false_ne_true, hget, Option.filter_some] at hrole
        cases hread : isRead (key, w) with
        | true =>
          rw [hread] at hrole
          exact ⟨key, rfl, Option.some.inj hrole,
            (mem_visited_iff hms).2 ⟨Members.mem_of_get? hget, hread, hdrops⟩⟩
        | false =>
          rw [hread] at hrole
          cases hrole

theorem mem_parts_clause {vs : List Json} : (s, r', w) ∈ clause.parts (.arr vs) ↔
    clause.part? (.arr vs) s = some r' ∧ (Json.arr vs).part? s = some w := by
  rw [parts]
  cases s with
  | key key =>
    refine ⟨fun h => ?_, fun h => (nomatch h.1)⟩
    split at h
    · obtain ⟨⟨n, r₁⟩, -, heq⟩ := List.mem_filterMap.1 h
      obtain ⟨u, -, heq⟩ := Option.map_eq_some_iff.1 heq
      cases heq
    · obtain ⟨n, heq, -⟩ := mem_itemParts_iff.1 h
      cases heq
  | item n =>
    change _ ↔ _ ∧ vs[n]? = some w
    rw [part?]
    split
    · rw [List.mem_filterMap]
      constructor
      · rintro ⟨⟨m, r₁⟩, hm, heq⟩
        obtain ⟨u, hu, heq⟩ := Option.map_eq_some_iff.1 heq
        cases heq
        simp only [List.mem_cons, Prod.mk.injEq, List.not_mem_nil, or_false] at hm
        rcases hm with ⟨rfl, rfl⟩ | ⟨rfl, rfl⟩ <;> exact ⟨rfl, hu⟩
      · rintro ⟨hrole, hget⟩
        split at hrole
        · rename_i hn
          cases hrole
          exact ⟨(n, field), by simp [hn], by rw [hget]; rfl⟩
        · split at hrole
          · rename_i hn
            cases hrole
            exact ⟨(n, options), by simp [hn], by rw [hget]; rfl⟩
          · cases hrole
    · rw [mem_itemParts_iff]
      constructor
      · rintro ⟨m, heq, rfl, hget⟩
        cases heq
        exact ⟨rfl, hget⟩
      · rintro ⟨hrole, hget⟩
        cases hrole
        exact ⟨n, rfl, rfl, hget⟩

/-- The parts are what has a role, unless the whole is written as one value. -/
theorem mem_parts_iff (hv : v.keysOnce = true) (hraw : r.raw? v = none) :
    (s, r', w) ∈ r.parts v ↔ r.part? v s = some r' ∧ v.part? s = some w := by
  cases r with
  | query =>
    cases v with
    | obj ms => exact mem_parts_query (Json.nodup_of_keysOnce hv) hraw
    | _ => simp [parts, part?]
  | joins =>
    cases v with
    | arr vs =>
      rw [parts, mem_itemParts_iff]
      cases s <;> simp [part?, Json.part?]
    | _ => simp [parts, part?]
  | expressions =>
    cases v with
    | obj es =>
      have hget {key : String} : Members.get? es key = some w ↔ (key, w) ∈ es :=
        Members.get?_eq_some_iff (Json.nodup_of_keysOnce hv)
      rw [parts, mem_keyParts_iff fun _ => clause]
      cases s <;> simp [part?, Json.part?, hget]
    | _ => simp [parts, part?]
  | clause =>
    cases v with
    | arr vs => exact mem_parts_clause
    | _ => simp [parts, part?]
  | options =>
    cases v with
    | obj ms =>
      rw [parts, Option.mem_toList, Option.map_eq_some_iff]
      cases s with
      | item n => simp [part?]
      | key key =>
        rw [part?]
        constructor
        · rintro ⟨u, hu, heq⟩
          cases heq
          exact ⟨rfl, hu⟩
        · rintro ⟨hrole, hget⟩
          split at hrole
          · rename_i hkey
            subst hkey
            cases hrole
            exact ⟨w, hget, rfl⟩
          · cases hrole
    | _ => simp [parts, part?]
  | _ => cases v <;> simp [parts, part?]

/-- **Where an id has a role, it is met.** -/
theorem mem_visits (hv : v.keysOnce = true) (hr : r.at? v p = some r') (hw : v.at? p = some w)
    (hu : r'.use? w = some u) : (p, u) ∈ r.visits v := by
  rw [visits_eq, List.mem_append]
  induction p generalizing r v with
  | nil =>
    cases hr
    cases hw
    rw [hu]
    exact .inl (List.mem_singleton_self _)
  | cons s p ih =>
    rw [Json.at?, Option.bind_eq_some_iff] at hw
    obtain ⟨x, hx, hw⟩ := hw
    rw [at?, Option.bind_eq_some_iff] at hr
    obtain ⟨r₁, hr₁, hr⟩ := hr
    rw [hx] at hr
    have hmem := ih (Json.keysOnce_of_part? hv hx) hr hw
    rw [← List.mem_append, ← visits_eq] at hmem
    refine .inr (List.mem_flatMap.2 ⟨(s, r₁, x), ?_, ?_⟩)
    · exact (mem_parts_iff hv (written_of_part? hr₁).1).2 ⟨hr₁, hx⟩
    · exact List.mem_map.2 ⟨(p, u), hmem, rfl⟩

/-- **Where an id is met, it stands, and it has its role if the place has one.** -/
theorem use?_of_mem_visits (hv : v.keysOnce = true) (h : (p, u) ∈ r.visits v) :
    ∃ r' w, v.at? p = some w ∧ r'.use? w = some u ∧ ∀ r₁, r.at? v p = some r₁ → r₁ = r' := by
  rw [visits_eq, List.mem_append] at h
  induction p generalizing r v with
  | nil =>
    rcases h with h | h
    · rw [Option.mem_toList, Option.map_eq_some_iff] at h
      obtain ⟨u', hu, heq⟩ := h
      cases heq
      exact ⟨r, v, rfl, hu, fun r₁ hr₁ => (Option.some.inj hr₁).symm⟩
    · obtain ⟨part, -, h⟩ := List.mem_flatMap.1 h
      obtain ⟨visit, -, heq⟩ := List.mem_map.1 h
      cases heq
  | cons s p ih =>
    rcases h with h | h
    · rw [Option.mem_toList, Option.map_eq_some_iff] at h
      obtain ⟨u', -, heq⟩ := h
      cases heq
    · obtain ⟨⟨s', r', w⟩, hpart, h⟩ := List.mem_flatMap.1 h
      obtain ⟨visit, hvisit, heq⟩ := List.mem_map.1 h
      cases heq
      have hx := part?_of_mem_parts hv hpart
      rw [visits_eq, List.mem_append] at hvisit
      obtain ⟨r₂, w₂, hw₂, hu, hrole⟩ := ih (Json.keysOnce_of_part? hv hx) hvisit
      refine ⟨r₂, w₂, ?_, hu, ?_⟩
      · rw [Json.at?, hx]
        exact hw₂
      · intro r₁ hr₁
        rw [at?, Option.bind_eq_some_iff] at hr₁
        obtain ⟨r₃, hr₃, hr₁⟩ := hr₁
        rw [((mem_parts_iff hv (written_of_part? hr₃).1).1 hpart).1] at hr₃
        cases hr₃
        rw [hx] at hr₁
        exact hrole r₁ hr₁

end Role
end CardTransfer
