import CardTransfer.Mbql.IdUse
import CardTransfer.Proofs.Json.Agreement

/-!
# Roles of the parts of a query

A part of an inner query is read in a role: as an inner query itself, as its joins, its source, its
expressions, as a clause, as the field that a clause names, as the options of that field, or as the
field among the options. `image` is what becomes of a part in its role if the ids of the query are
replaced. A list of clauses becomes the list of their images (`toJson_mapFields_arr`), and nothing
changes if every id is put in its own place (`mapIds_same`).
-/

namespace CardTransfer

/-- What a part of a query is read as. -/
inductive Role where
  | query
  | joins
  | source
  | expressions
  | clause
  | field
  | options
  | sourceField
  deriving DecidableEq, Repr

namespace Clause

/-- Whether a list names a field. -/
def namesField : List Json → Bool
  | .str name :: args => (fieldOf? name args).isSome
  | _ => false

/-- A list that names a field is read as that field. -/
theorem ofJson_arr_field {vs : List Json} (h : namesField vs = true) :
    ∃ op id rest, vs = .str (FieldOp.text op) :: id :: rest ∧
      ofJson (.arr vs) = .field op id rest := by
  unfold namesField at h
  split at h
  · rename_i name args
    obtain ⟨⟨op, id, rest⟩, hfield⟩ := Option.isSome_iff_exists.1 h
    obtain ⟨rfl, rfl⟩ := eq_of_fieldOf? hfield
    refine ⟨op, id, rest, rfl, ?_⟩
    rw [ofJson, hfield]
  · cases h

/-- A list that names no field is read as an operation or a list. -/
theorem ofJson_arr {vs : List Json} (h : namesField vs = false) :
    (∃ name args, vs = .str name :: args ∧ ofJson (.arr vs) = .operation name (ofItems args)) ∨
      ofJson (.arr vs) = .list (ofItems vs) := by
  unfold ofJson
  split
  · rename_i name args heq
    cases heq
    have hnone : fieldOf? name args = none := by
      rw [namesField, Option.isSome_eq_false_iff, Option.isNone_iff_eq_none] at h
      exact h
    rw [hnone]
    exact .inl ⟨name, args, rfl, rfl⟩
  · rename_i heq
    cases heq
    exact .inr rfl
  · rename_i hne
    exact absurd rfl (hne vs)

theorem toItems_mapItems (f : Json → Json) (vs : List Json) : toItems (mapItems f (ofItems vs)) =
    vs.map fun v => ((ofJson v).mapFields f).toJson := by
  induction vs with
  | nil => rfl
  | cons v vs ih => rw [ofItems, mapItems, toItems, ih, List.map_cons]

/-- It is written item by item. -/
theorem toJson_mapFields_arr {vs : List Json} (h : namesField vs = false) (f : Json → Json) :
    ((ofJson (.arr vs)).mapFields f).toJson =
      .arr (vs.map fun v => ((ofJson v).mapFields f).toJson) := by
  rcases ofJson_arr h with ⟨name, args, rfl, heq⟩ | heq
  · rw [heq, mapFields, toJson, toItems_mapItems, List.map_cons]
    rfl
  · rw [heq, mapFields, toJson, toItems_mapItems]

end Clause

/-- Puts every id in its own place. -/
def IdChange.same : IdChange := ⟨id, id, id⟩

namespace InnerQuery

theorem mapNamed_same (clauses : List (String × Clause)) : Clause.mapNamed id clauses = clauses := by
  unfold Clause.mapNamed
  simp [Clause.mapFields_id]

mutual

/-- A query with every id in its own place is the same. -/
theorem mapIds_same : ∀ q : InnerQuery, mapIds .same q = q
  | .mk source joins clauses expressions extra keys => by
    rw [mapIds, mapSource_same source, mapJoins_same joins]
    simp [IdChange.same, mapNamed_same]

theorem mapSource_same : ∀ s : Source, mapSource .same s = s
  | .absent => rfl
  | .table v => by simp [mapSource, IdChange.same]
  | .card v => rfl
  | .query inner => by rw [mapSource, mapIds_same inner]

theorem mapJoins_same : ∀ qs : List InnerQuery, mapJoins .same qs = qs
  | [] => rfl
  | q :: qs => by rw [mapJoins, mapIds_same q, mapJoins_same qs]

end

end InnerQuery

namespace Role

variable (f : IdChange)

/-- An id with its replacement if it is an integer. -/
def changed (g : Json → Json) (v : Json) : Json := if v.isInt then g v else v

/-- What becomes of a part in its role. -/
def image : Role → Json → Json
  | query, v => (InnerQuery.mapIds f (InnerQuery.join v)).toJson
  | joins, .arr vs => .arr (vs.map fun v => (InnerQuery.mapIds f (InnerQuery.join v)).toJson)
  | source, v =>
    ((InnerQuery.sourceMember? (InnerQuery.mapSource f (Source.ofTable v))).map (·.2)).getD v
  | expressions, .obj es =>
    .obj (es.map fun e => (e.1, ((Clause.ofJson e.2).mapFields f.field).toJson))
  | clause, v => ((Clause.ofJson v).mapFields f.field).toJson
  | field, v => changed f.field v
  | options, .obj ms =>
    match Members.get? ms Clause.sourceFieldKey with
    | some v => .obj (Members.insert ms Clause.sourceFieldKey (changed f.field v))
    | none => .obj ms
  | sourceField, v => changed f.field v
  | _, v => v

/-- The role of a member that is read. -/
def ofKey (key : String) : Role :=
  match key with
  | "source-table" => source
  | "source-query" => query
  | "joins" => joins
  | "expressions" => expressions
  | _ => clause

end Role
end CardTransfer

/-!
## Members of a written query

An inner query is written member by member: one that is read as its image in its role, any other as
it is (`image_query`). The source stands in for every member whose key can name a source. So a member
is found in the written query unless it is one of two sources and not the one that is kept
(`part?_image_query`).
-/

namespace CardTransfer
namespace InnerQuery

/-! ### The source -/

/-- Whether a key can name a source. -/
def isSourceKey (key : String) : Bool := key == "source-table" || key == "source-query"

/-- Whether a member can be the source. -/
def isSource (m : String × Json) : Bool := isSourceKey m.1 && isRead m

/-- The member that is the source: the last that can be. -/
def source? (ms : Members) : Option (String × Json) := (ms.filter isSource).getLast?

/-- A member as a source. -/
def sourceOfMember (m : String × Json) : Source :=
  if m.1 == "source-table" then Source.ofTable m.2 else subquery m.2

variable {ms : Members} {m : String × Json} {key : String} {v : Json}

theorem mem_of_source? (h : source? ms = some m) : m ∈ ms ∧ isSource m = true :=
  List.mem_filter.1 (List.mem_of_getLast? h)

theorem source?_cons : source? (m :: ms) = (source? ms).or (if isSource m then some m else none) := by
  unfold source?
  rw [List.filter_cons]
  split
  · rw [List.getLast?_cons]
    cases (ms.filter isSource).getLast? <;> rfl
  · rw [Option.or_none]

/-- A source is written under its own key. -/
theorem sourceMember?_mapSource (f : IdChange) (hm : isSource m = true) :
    sourceMember? (mapSource f (sourceOfMember m)) = some (m.1, (Role.ofKey m.1).image f m.2) := by
  obtain ⟨key, v⟩ := m
  rw [isSource, isSourceKey, Bool.and_eq_true, Bool.or_eq_true, beq_iff_eq, beq_iff_eq] at hm
  obtain ⟨rfl | rfl, hread⟩ := hm
  · have htable (v : Json) : ∃ w, sourceMember? (mapSource f (Source.ofTable v)) =
        some ("source-table", w) := by
      unfold Source.ofTable
      split
      · split <;> exact ⟨_, rfl⟩
      · exact ⟨_, rfl⟩
    obtain ⟨w, hw⟩ := htable v
    have himage : (Role.ofKey "source-table").image f v = w := by
      change ((sourceMember? (mapSource f (Source.ofTable v))).map (·.2)).getD v = w
      rw [hw]
      rfl
    rw [himage]
    exact hw
  · cases v with
    | obj ms => rfl
    | _ => cases hread

theorem sourceOfMember_ne (hm : isSource m = true) : sourceOfMember m ≠ .absent := by
  intro habsent
  have h := sourceMember?_mapSource ⟨id, id, id⟩ hm
  rw [habsent] at h
  cases h

/-- The source is that of the last member that can be one. -/
theorem sourceOf_eq (ms : Members) : sourceOf ms = ((source? ms).map sourceOfMember).getD .absent := by
  induction ms with
  | nil => rfl
  | cons m ms ih =>
    obtain ⟨key, v⟩ := m
    rw [source?_cons, sourceOf, ih]
    cases hsource : source? ms with
    | some m' =>
      have hne := sourceOfMember_ne (mem_of_source? hsource).2
      simp only [Option.map_some, Option.getD_some, Option.some_or]
    | none =>
      simp only [Option.map_none, Option.getD_none, Option.none_or]
      by_cases ht : key = "source-table"
      · subst ht
        rfl
      · by_cases hq : key = "source-query"
        · subst hq
          cases v <;> rfl
        · simp [isSource, isSourceKey, ht, hq]

/-! ### The other members -/

/-- A member as it is written. -/
def memberImage (f : IdChange) (m : String × Json) : String × Json :=
  (m.1, if isRead m then (Role.ofKey m.1).image f m.2 else m.2)

/-- The member that is written for a member: of two sources the one that is kept. -/
def standIn (ms : Members) (m : String × Json) : String × Json :=
  if isSourceKey m.1 then (source? ms).getD m else m

theorem joinsToJson_mapJoins (f : IdChange) (vs : List Json) :
    joinsToJson (mapJoins f (joinItems vs)) = vs.map fun v => (mapIds f (join v)).toJson := by
  induction vs with
  | nil => rfl
  | cons v vs ih => rw [joinItems, mapJoins, joinsToJson, ih, List.map_cons]

theorem joinsOf_eq (ms : Members) : joinsOf ms = ((ms.get? "joins").map joinList).getD [] := by
  induction ms with
  | nil => rfl
  | cons m ms ih =>
    obtain ⟨key, v⟩ := m
    unfold Members.get? at ih ⊢
    rw [joinsOf, List.lookup_cons, ih]
    by_cases hk : key = "joins"
    · subst hk
      rfl
    · rw [if_neg (by simpa using hk), beq_eq_false_iff_ne.2 (Ne.symm hk)]

/-- A clause is found under its key. -/
theorem get?_clauseMembers (f : Json → Json) (ms : Members) :
    Members.get? (clauseMembers (Clause.mapNamed f (clausesOf ms))) key =
      if clauseKeys.contains key then (ms.get? key).map fun v => ((Clause.ofJson v).mapFields f).toJson
      else none := by
  have hmembers : clauseMembers (Clause.mapNamed f (clausesOf ms)) =
      (ms.filter fun m => clauseKeys.contains m.1).map fun m =>
        (m.1, ((Clause.ofJson m.2).mapFields f).toJson) := by
    unfold clauseMembers Clause.mapNamed clausesOf
    rw [List.map_map, List.map_map]
    rfl
  rw [hmembers, Members.get?_map fun v => ((Clause.ofJson v).mapFields f).toJson,
    Members.get?_filter_key clauseKeys.contains]
  split <;> rfl

theorem clauseMembers_expressions {es : Members} (f : Json → Json)
    (h : ms.get? "expressions" = some (.obj es)) :
    clauseMembers (Clause.mapNamed f (expressionsOf ms)) =
      es.map fun e => (e.1, ((Clause.ofJson e.2).mapFields f).toJson) := by
  unfold clauseMembers Clause.mapNamed expressionsOf
  rw [h]
  simp only [List.map_map]
  rfl

section

variable (source : Option (String × Json)) (joins : List Json) (clauses expressions extra : Members)

theorem writeKey_source (hkey : isSourceKey key = true) :
    writeKey source joins clauses expressions extra key =
      source.or ((extra.get? key).map fun v => (key, v)) := by
  unfold isSourceKey at hkey
  unfold writeKey
  simp only
  rw [if_pos hkey]
  cases source <;> rfl

theorem writeKey_joins : writeKey source joins clauses expressions extra "joins" =
    ((extra.get? "joins").map fun v => ("joins", v)).or (some ("joins", .arr joins)) := by
  change Option.orElse _ _ = _
  cases extra.get? "joins" <;> rfl

theorem writeKey_expressions : writeKey source joins clauses expressions extra "expressions" =
    ((extra.get? "expressions").map fun v => ("expressions", v)).or
      (some ("expressions", .obj expressions)) := by
  change Option.orElse _ _ = _
  cases extra.get? "expressions" <;> rfl

theorem writeKey_other (hsource : isSourceKey key = false) (hjoins : key ≠ "joins")
    (hexpressions : key ≠ "expressions") : writeKey source joins clauses expressions extra key =
      if clauseKeys.contains key then (clauses.get? key).map fun v => (key, v)
      else (extra.get? key).map fun v => (key, v) := by
  unfold writeKey
  simp only
  rw [if_neg (by rw [← isSourceKey, hsource]; exact Bool.false_ne_true), if_neg (by simpa using hjoins),
    if_neg (c := (key == "expressions") = true) (by simpa using hexpressions)]

/-- A member beside the source, the joins and the expressions is read exactly if it is a clause. -/
theorem isRead_other (hsource : isSourceKey key = false) (hjoins : key ≠ "joins")
    (hexpressions : key ≠ "expressions") : isRead (key, v) = clauseKeys.contains key := by
  rw [isSourceKey, Bool.or_eq_false_iff, beq_eq_false_iff_ne, beq_eq_false_iff_ne] at hsource
  unfold isRead
  split <;> simp_all

theorem ofKey_other (hsource : isSourceKey key = false) (hjoins : key ≠ "joins")
    (hexpressions : key ≠ "expressions") : Role.ofKey key = .clause := by
  rw [isSourceKey, Bool.or_eq_false_iff, beq_eq_false_iff_ne, beq_eq_false_iff_ne] at hsource
  unfold Role.ofKey
  split <;> simp_all

end

/-- What is written for a member of an inner query. -/
theorem writeKey_eq (f : IdChange) (hms : (ms.map (·.1)).Nodup) (hmem : m ∈ ms) :
    writeKey (sourceMember? (mapSource f (sourceOf ms))) (joinsToJson (mapJoins f (joinsOf ms)))
      (clauseMembers (Clause.mapNamed f.field (clausesOf ms)))
      (clauseMembers (Clause.mapNamed f.field (expressionsOf ms))) (extraOf ms) m.1 =
    some (memberImage f (standIn ms m)) := by
  obtain ⟨key, v⟩ := m
  have hget : ms.get? key = some v := (Members.get?_eq_some_iff hms).2 hmem
  have hextra : (extraOf ms).get? key = if isRead (key, v) then none else some v := by
    unfold extraOf
    rw [Members.get?_filter hms, hget, Option.filter_some]
    cases isRead (key, v) <;> rfl
  cases hsource : isSourceKey key with
  | true =>
    rw [writeKey_source _ _ _ _ _ hsource, hextra, sourceOf_eq, standIn, if_pos hsource]
    cases hs : source? ms with
    | some m' =>
      obtain ⟨-, hm'⟩ := mem_of_source? hs
      have hread : isRead m' = true := (Bool.and_eq_true_iff.1 hm').2
      rw [Option.map_some, Option.getD_some, sourceMember?_mapSource f hm', Option.some_or,
        Option.getD_some, memberImage, if_pos hread]
    | none =>
      have hnot : isSource (key, v) ≠ true := by
        intro hv
        have hnil : ms.filter isSource = [] := List.getLast?_eq_none_iff.1 hs
        exact List.filter_eq_nil_iff.1 hnil _ hmem hv
      have hread : isRead (key, v) = false := by
        rw [isSource, hsource, Bool.true_and] at hnot
        exact Bool.eq_false_iff.2 hnot
      rw [Option.getD_none, memberImage, hread]
      rfl
  | false =>
    have hself : standIn ms (key, v) = (key, v) := by
      unfold standIn
      rw [hsource]
      rfl
    rw [hself, memberImage]
    by_cases hjoins : key = "joins"
    · subst hjoins
      rw [writeKey_joins, hextra, joinsOf_eq, hget]
      cases v with
      | arr vs =>
        rw [Option.map_some, Option.getD_some, joinList, joinsToJson_mapJoins]
        rfl
      | _ => rfl
    · by_cases hexpressions : key = "expressions"
      · subst hexpressions
        rw [writeKey_expressions, hextra]
        cases v with
        | obj es =>
          rw [clauseMembers_expressions f.field hget]
          rfl
        | _ => rfl
      · rw [writeKey_other _ _ _ _ _ hsource hjoins hexpressions, hextra, get?_clauseMembers, hget]
        simp only [isRead_other hsource hjoins hexpressions, ofKey_other hsource hjoins hexpressions]
        cases clauseKeys.contains key <;> rfl

/-! ### The query -/

/-- The value that is written for all of an inner query. -/
def raw? (ms : Members) : Option Json := ms.get? rawKey

/-- Whether the members under a key are left out: one of two sources, which is not the one kept. -/
def drops (ms : Members) (key : String) : Bool :=
  isSourceKey key && (source? ms).any (·.1 != key)

theorem get?_extraOf_rawKey (ms : Members) : (extraOf ms).get? rawKey = raw? ms := by
  unfold raw? extraOf Members.get?
  induction ms with
  | nil => rfl
  | cons m ms ih =>
    obtain ⟨key, v⟩ := m
    by_cases hk : key = rawKey
    · subst hk
      have hread : isRead (rawKey, v) = false := rfl
      rw [List.filter_cons, if_pos (by simp [hread]), List.lookup_cons_self, List.lookup_cons_self]
    · have hb : (rawKey == key) = false := beq_eq_false_iff_ne.2 (Ne.symm hk)
      rw [List.lookup_cons, hb, ← ih, List.filter_cons]
      split
      · rw [List.lookup_cons, hb]
      · rfl

/-- An inner query may be written as one value. -/
theorem image_query_raw {w : Json} (f : IdChange) (hraw : raw? ms = some w) :
    Role.query.image f (.obj ms) = w := by
  change (mapIds f (assemble ms (sourceOf ms) (joinsOf ms))).toJson = w
  rw [assemble, mapIds, toJson, get?_extraOf_rawKey, hraw]

/-- Otherwise it is written member by member. -/
theorem image_query (f : IdChange) (hms : (ms.map (·.1)).Nodup) (hraw : raw? ms = none) :
    Role.query.image f (.obj ms) =
      .obj (Members.ofList (ms.map fun m => memberImage f (standIn ms m))) := by
  change (mapIds f (assemble ms (sourceOf ms) (joinsOf ms))).toJson = _
  rw [assemble, mapIds, toJson, get?_extraOf_rawKey, hraw]
  simp only
  rw [List.filterMap_map, ← List.filterMap_eq_map]
  congr 2
  refine List.filterMap_congr fun m hm => ?_
  exact writeKey_eq f hms hm

theorem standIn_mem (hmem : m ∈ ms) : standIn ms m ∈ ms := by
  unfold standIn
  split
  · cases hs : source? ms with
    | none => exact hmem
    | some m' => exact (mem_of_source? hs).1
  · exact hmem

/-- Nothing is left out of a query that does not have both keys for a source. -/
theorem drops_eq_false (hone : ms.get? "source-table" = none ∨ ms.get? "source-query" = none)
    (hget : ms.get? key = some v) : drops ms key = false := by
  cases hs : source? ms with
  | none => rw [drops, hs, Option.any_none, Bool.and_false]
  | some m =>
    obtain ⟨hmem, hm⟩ := mem_of_source? hs
    have hm : isSourceKey m.1 = true := (Bool.and_eq_true_iff.1 hm).1
    have hthere : ms.get? m.1 ≠ none := fun h => Members.get?_eq_none_iff.1 h m hmem rfl
    have hthere' : ms.get? key ≠ none := by
      rw [hget]
      exact Option.some_ne_none v
    have hkeys (hkey : isSourceKey key = true) : m.1 = key := by
      rw [isSourceKey, Bool.or_eq_true, beq_iff_eq, beq_iff_eq] at hm hkey
      rcases hone with hone | hone
      · rw [hm.resolve_left fun h => hthere (h ▸ hone), hkey.resolve_left fun h => hthere' (h ▸ hone)]
      · rw [hm.resolve_right fun h => hthere (h ▸ hone), hkey.resolve_right fun h => hthere' (h ▸ hone)]
    rw [drops, hs, Option.any_some]
    cases hkey : isSourceKey key with
    | false => rfl
    | true => rw [hkeys hkey, Bool.true_and, bne_self_eq_false]

/-- What stands in for a member is not left out. -/
theorem drops_standIn (ms : Members) (m : String × Json) : drops ms (standIn ms m).1 = false := by
  unfold drops standIn
  split
  · cases source? ms with
    | none => rw [Option.any_none, Bool.and_false]
    | some m' => simp
  · rename_i hm
    rw [Bool.eq_false_iff.2 hm, Bool.false_and]

/-- Any member that is not left out stands for itself. -/
theorem standIn_eq_self (hms : (ms.map (·.1)).Nodup) (hmem : (key, v) ∈ ms)
    (hdrops : drops ms key = false) : standIn ms (key, v) = (key, v) := by
  unfold standIn
  split
  · rename_i hsource
    cases hs : source? ms with
    | none => rfl
    | some m' =>
      rw [drops, hsource, hs, Bool.true_and, Option.any_some, bne_eq_false_iff_eq] at hdrops
      exact List.inj_on_of_nodup_map hms (mem_of_source? hs).1 hmem hdrops
  · rfl

/-- The member under a key is written as its image, unless it is left out. -/
theorem part?_image_query (f : IdChange) (hms : (ms.map (·.1)).Nodup) (hraw : raw? ms = none) :
    (Role.query.image f (.obj ms)).part? (.key key) =
      if drops ms key then none else (ms.get? key).map fun v => (memberImage f (key, v)).2 := by
  have hmem {w : Json} (h : (key, w) ∈ ms.map fun m => memberImage f (standIn ms m)) :
      drops ms key = false ∧ ∃ v, (key, v) ∈ ms ∧ (memberImage f (key, v)).2 = w := by
    obtain ⟨m, hm, heq⟩ := List.mem_map.1 h
    have hdrops := drops_standIn ms m
    have hstand := standIn_mem hm
    generalize standIn ms m = m' at heq hdrops hstand
    obtain ⟨k, v⟩ := m'
    cases heq
    exact ⟨hdrops, v, hstand, rfl⟩
  rw [image_query f hms hraw]
  change Members.get? _ key = _
  cases hdrops : drops ms key with
  | true =>
    refine Members.get?_ofList_eq_none fun w hw => ?_
    rw [(hmem hw).1] at hdrops
    cases hdrops
  | false =>
    cases hget : ms.get? key with
    | none =>
      refine Members.get?_ofList_eq_none fun w hw => ?_
      obtain ⟨-, v, hv, -⟩ := hmem hw
      exact Members.get?_eq_none_iff.1 hget _ hv rfl
    | some v =>
      have hv : (key, v) ∈ ms := Members.mem_of_get? hget
      refine Members.get?_ofList (fun w hw => ?_) ?_
      · obtain ⟨-, v', hv', rfl⟩ := hmem hw
        rw [(Members.get?_eq_some_iff hms).2 hv', Option.some.injEq] at hget
        rw [hget]
      · have himage : memberImage f (standIn ms (key, v)) = (key, (memberImage f (key, v)).2) := by
          rw [standIn_eq_self hms hv hdrops]
          rfl
        exact List.mem_map.2 ⟨(key, v), hv, himage⟩

end InnerQuery
end CardTransfer
