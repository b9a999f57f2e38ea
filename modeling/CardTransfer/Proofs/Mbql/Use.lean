import CardTransfer.Mbql.Transfer
import CardTransfer.Proofs.Mbql.Member

/-!
# Places in queries

The parts of an inner query are read in the roles that `Role.at?` gives their places, step by step:

| in the role of | the part | is read as |
| --- | --- | --- |
| a query | a member that is read, and is not left out | its key says |
| joins | an item | a query |
| expressions | the value of a member | a clause |
| a clause that names a field | the second item | a field |
| | the third item | options |
| another clause that is a list | an item | a clause |
| options | the value under `source-field` | a field |

Nothing else is read. Replacing ids goes place by place: a part that is read becomes its image, at the
same place (`at?_image`), and what stands at any other place does not depend on the replacements
(`at?_image_of_unread`). It stays as it is if the query is `Regular`, that is if no inner query that is
read is written as one value or has two sources (`at?_image_of_regular`).

All three rest on what one step does (`part?_image`), which is proved by cases on the role; the places
follow by induction.
-/

namespace CardTransfer

open Json (Step)
open InnerQuery (isRead memberImage)

namespace Role

/-- The value that is written for all of an inner query. -/
def raw? : Role → Json → Option Json
  | query, .obj ms => InnerQuery.raw? ms
  | _, _ => none

/-- Whether the part of an inner query at a step is left out. -/
def drops : Role → Json → Step → Bool
  | query, .obj ms, .key key => InnerQuery.drops ms key
  | _, _, _ => false

/-- The role of a part of a document that is read in a role. -/
def part? : Role → Json → Step → Option Role
  | query, .obj ms, .key key =>
    if (InnerQuery.raw? ms).isSome || InnerQuery.drops ms key then none
    else ((Members.get? ms key).filter fun v => isRead (key, v)).map fun _ => ofKey key
  | joins, .arr _, .item _ => some query
  | expressions, .obj _, .key _ => some clause
  | clause, .arr vs, .item n =>
    if Clause.namesField vs then
      if n = 1 then some field else if n = 2 then some options else none
    else some clause
  | options, .obj _, .key key => if key = Clause.sourceFieldKey then some sourceField else none
  | _, _, _ => none

/-- The role of what stands at a place of a document that is read in a role. -/
def at? (r : Role) (v : Json) : List Step → Option Role
  | [] => some r
  | s :: p => (r.part? v s).bind fun r' => (v.part? s).bind fun w => r'.at? w p

/-- Whether an inner query of some members is written member by member. -/
def regularMembers (ms : Members) : Bool :=
  (InnerQuery.raw? ms).isNone && !((ms.get? "source-table").isSome && (ms.get? "source-query").isSome)

/-- Every inner query that is read is written member by member. -/
def Regular (r : Role) (v : Json) : Prop :=
  ∀ p ms, r.at? v p = some query → v.at? p = some (.obj ms) → regularMembers ms = true

variable {f g : IdChange} {r r' : Role} {v w : Json} {s : Step} {p : List Step}

/-- A place in a part is a place in the whole. -/
theorem at?_append (r : Role) (v : Json) (p q : List Step) :
    r.at? v (p ++ q) = (r.at? v p).bind fun r' => (v.at? p).bind fun w => r'.at? w q := by
  induction p generalizing r v with
  | nil => rfl
  | cons s p ih =>
    rw [List.cons_append, at?, at?, Json.at?]
    cases r.part? v s with
    | none => rfl
    | some r₁ =>
      cases v.part? s with
      | none => rfl
      | some u => exact ih r₁ u

/-- The role of a part of what stands at a place. -/
theorem at?_concat (hw : v.at? p = some w) (hs : (w.part? s).isSome = true) :
    r.at? v (p ++ [s]) = (r.at? v p).bind fun r' => r'.part? w s := by
  rw [at?_append, hw]
  cases r.at? v p with
  | none => rfl
  | some r' =>
    obtain ⟨u, hu⟩ := Option.isSome_iff_exists.1 hs
    rw [Option.bind_some, Option.bind_some, Option.bind_some, at?, hu]
    cases r'.part? w s <;> rfl

/-! ### One step -/

/-- The options are what follows the id. -/
theorem mapOption_cons (more : List Json) :
    Clause.mapOption f.field (v :: more) = options.image f v :: more := by
  cases v with
  | obj ms =>
    have hoption : Clause.optionField? (.obj ms :: more) =
        (Members.get? ms Clause.sourceFieldKey).filter Json.isInt := rfl
    rw [image]
    unfold Clause.mapOption
    cases hget : Members.get? ms Clause.sourceFieldKey with
    | none =>
      rw [hget, Option.filter_none] at hoption
      rw [hoption]
    | some w =>
      rw [hget, Option.filter_some] at hoption
      cases hint : w.isInt with
      | true =>
        rw [hint] at hoption
        simp only [hoption, if_true, changed, hint]
      | false =>
        rw [hint] at hoption
        simp [hoption, changed, hint, Members.insert_eq_self hget]
  | _ => rfl

/-- The parts of a clause. -/
theorem part?_image_clause {vs : List Json} {n : Nat} (hw : vs[n]? = some w) :
    (clause.image f (.arr vs)).part? (.item n) =
      some (match clause.part? (.arr vs) (.item n) with
        | some r' => r'.image f w
        | none => w) := by
  rw [part?]
  cases hnames : Clause.namesField vs with
  | false =>
    rw [image, Clause.toJson_mapFields_arr hnames]
    change (vs.map _)[n]? = _
    rw [List.getElem?_map, hw]
    rfl
  | true =>
    obtain ⟨op, id, rest, rfl, hread⟩ := Clause.ofJson_arr_field hnames
    rw [image, hread]
    change (_ :: _ :: Clause.mapOption f.field rest)[n]? = _
    match n with
    | 0 =>
      cases hw
      rfl
    | 1 =>
      cases hw
      rfl
    | n + 2 =>
      cases rest with
      | nil => cases hw
      | cons u more =>
        rw [mapOption_cons]
        match n with
        | 0 =>
          cases hw
          rfl
        | n + 1 => simpa using hw

/-- A part of an image is the image of the part in its role, or the part itself if it has none. -/
theorem part?_image (hv : v.keysOnce = true) (hraw : r.raw? v = none) (hw : v.part? s = some w) :
    (r.image f v).part? s =
      if r.drops v s then none
      else some (match r.part? v s with
        | some r' => r'.image f w
        | none => w) := by
  unfold Json.part? at hw
  split at hw
  · rename_i ms key
    cases r with
    | query =>
      have hraw : InnerQuery.raw? ms = none := hraw
      rw [InnerQuery.part?_image_query f (Json.nodup_of_keysOnce hv) hraw, hw, part?, hraw, hw]
      change (if InnerQuery.drops ms key then _ else _) = if InnerQuery.drops ms key then _ else _
      cases InnerQuery.drops ms key with
      | true => rfl
      | false =>
        simp only [Option.map_some, Option.filter_some, memberImage]
        cases isRead (key, w) <;> rfl
    | expressions =>
      change Members.get? (List.map _ ms) key = _
      rw [Members.get?_map fun v => ((Clause.ofJson v).mapFields f.field).toJson, hw]
      rfl
    | options =>
      rw [image, part?]
      by_cases hkey : key = Clause.sourceFieldKey
      · subst hkey
        rw [hw, if_pos rfl]
        exact Members.get?_insert_self ..
      · rw [if_neg hkey]
        cases Members.get? ms Clause.sourceFieldKey with
        | none => exact hw
        | some u => exact (Members.get?_insert_of_ne ms _ hkey).trans hw
    | _ => exact hw
  · rename_i vs n
    cases r with
    | joins =>
      change (List.map _ vs)[n]? = _
      rw [List.getElem?_map, hw]
      rfl
    | clause => exact part?_image_clause hw
    | _ => exact hw
  · cases hw

theorem image_eq_of_raw? {u : Json} (hraw : r.raw? v = some u) : r.image f v = u := by
  unfold raw? at hraw
  split at hraw
  · exact InnerQuery.image_query_raw f hraw
  · cases hraw

/-- What is read is written at its step. -/
theorem written_of_part? (hr : r.part? v s = some r') : r.raw? v = none ∧ r.drops v s = false := by
  unfold part? at hr
  split at hr
  · rename_i ms key
    split at hr
    · cases hr
    · rename_i h
      rw [Bool.or_eq_true, not_or, Option.not_isSome_iff_eq_none] at h
      exact ⟨h.1, Bool.eq_false_iff.2 h.2⟩
  · exact ⟨rfl, rfl⟩
  · exact ⟨rfl, rfl⟩
  · exact ⟨rfl, rfl⟩
  · exact ⟨rfl, rfl⟩
  · cases hr

/-! ### Places -/

/-- **What is read becomes its image, at the same place.** -/
theorem at?_image (hv : v.keysOnce = true) (hr : r.at? v p = some r') (hw : v.at? p = some w) :
    (r.image f v).at? p = some (r'.image f w) := by
  induction p generalizing r v with
  | nil =>
    cases hr
    cases hw
    rfl
  | cons s p ih =>
    rw [Json.at?, Option.bind_eq_some_iff] at hw
    obtain ⟨u, hu, hw⟩ := hw
    rw [at?, Option.bind_eq_some_iff] at hr
    obtain ⟨r₁, hr₁, hr⟩ := hr
    rw [hu] at hr
    obtain ⟨hraw, hdrops⟩ := written_of_part? hr₁
    rw [Json.at?, part?_image hv hraw hu, hdrops, hr₁]
    exact ih (Json.keysOnce_of_part? hv hu) hr hw

/-- **What is not read does not depend on the replacements.** -/
theorem at?_image_of_unread (hv : v.keysOnce = true) (hr : r.at? v p = none)
    (hw : v.at? p = some w) : (r.image f v).at? p = (r.image g v).at? p := by
  induction p generalizing r v with
  | nil => cases hr
  | cons s p ih =>
    rw [Json.at?, Option.bind_eq_some_iff] at hw
    obtain ⟨u, hu, hw⟩ := hw
    rw [at?, hu] at hr
    cases hraw : r.raw? v with
    | some x => rw [image_eq_of_raw? hraw, image_eq_of_raw? hraw]
    | none =>
      rw [Json.at?, Json.at?, part?_image hv hraw hu, part?_image hv hraw hu]
      cases r.drops v s with
      | true => rfl
      | false =>
        cases hr₁ : r.part? v s with
        | none => rfl
        | some r₁ =>
          rw [hr₁] at hr
          exact ih (Json.keysOnce_of_part? hv hu) hr hw

/-- An inner query that is written member by member leaves nothing out. -/
theorem Regular.written (h : Regular r v) (hw : v.part? s = some w) :
    r.raw? v = none ∧ r.drops v s = false := by
  cases r with
  | query =>
    cases v with
    | obj ms =>
      have hms : regularMembers ms = true := h [] ms rfl rfl
      rw [regularMembers, Bool.and_eq_true, Option.isNone_iff_eq_none] at hms
      obtain ⟨hraw, hone⟩ := hms
      refine ⟨hraw, ?_⟩
      cases s with
      | key key => exact InnerQuery.drops_eq_false (by simpa using hone) hw
      | item n => rfl
    | _ => exact ⟨rfl, rfl⟩
  | _ => exact ⟨rfl, rfl⟩

theorem Regular.part (h : Regular r v) (hr : r.part? v s = some r') (hw : v.part? s = some w) :
    Regular r' w := by
  intro p ms hquery hms
  refine h (s :: p) ms ?_ ?_
  · rw [at?, hr, hw]
    exact hquery
  · rw [Json.at?, hw]
    exact hms

/-- **What is not read stays as it is if the query is regular.** -/
theorem at?_image_of_regular (hv : v.keysOnce = true) (hregular : Regular r v)
    (hw : v.at? p = some w) : (r.image f v).at? p = some (match r.at? v p with
      | some r' => r'.image f w
      | none => w) := by
  induction p generalizing r v with
  | nil =>
    cases hw
    rfl
  | cons s p ih =>
    rw [Json.at?, Option.bind_eq_some_iff] at hw
    obtain ⟨u, hu, hw⟩ := hw
    obtain ⟨hraw, hdrops⟩ := hregular.written hu
    rw [Json.at?, part?_image hv hraw hu, hdrops, at?, hu]
    cases hr₁ : r.part? v s with
    | none => exact hw
    | some r₁ => exact ih (Json.keysOnce_of_part? hv hu) (hregular.part hr₁ hu) hw

end Role
end CardTransfer

/-!
## Uses and places

The ids that a query uses are found at its places: what is read at a place uses ids that the query
uses (`uses_subset`). So an id that is read as a table or a field is a gap unless it has a
counterpart, and a transfer without such gaps has a counterpart for each (`resolved_of_complete`).
-/

namespace CardTransfer

open Json (Step)
open InnerQuery (isRead)

namespace InnerQuery

variable {ms : Members} {key : String} {v : Json}

/-- A source that is not left out is the one there is. -/
theorem source?_eq (hms : (ms.map (·.1)).Nodup) (hmem : (key, v) ∈ ms)
    (hsource : isSource (key, v) = true) (hdrops : drops ms key = false) :
    source? ms = some (key, v) := by
  cases hs : source? ms with
  | none =>
    have hnil : ms.filter isSource = [] := List.getLast?_eq_none_iff.1 hs
    exact absurd hsource (List.filter_eq_nil_iff.1 hnil _ hmem)
  | some m =>
    have hstand := standIn_eq_self hms hmem hdrops
    rw [standIn, if_pos (Bool.and_eq_true_iff.1 hsource).1, hs] at hstand
    rw [← hstand]
    rfl

theorem joinUses_joinItems (vs : List Json) :
    joinUses (joinItems vs) = vs.flatMap fun v => (join v).idUses := by
  induction vs with
  | nil => rfl
  | cons v vs ih => rw [joinItems, joinUses, ih, List.flatMap_cons]

end InnerQuery

namespace Role

/-- The ids that a part uses in its role. -/
def uses : Role → Json → List IdUse
  | query, v => (InnerQuery.join v).idUses
  | joins, .arr vs => vs.flatMap fun v => (InnerQuery.join v).idUses
  | source, v => InnerQuery.sourceUses (Source.ofTable v)
  | expressions, .obj es => es.flatMap fun e => (Clause.ofJson e.2).idUses
  | clause, v => (Clause.ofJson v).idUses
  | field, v => if v.isInt then [.field v] else []
  | options, .obj ms =>
    (((Members.get? ms Clause.sourceFieldKey).filter Json.isInt).map IdUse.sourceField).toList
  | sourceField, v => if v.isInt then [.sourceField v] else []
  | _, _ => []

variable {r r' : Role} {v w : Json} {s : Step} {p : List Step}

/-- A member that is read uses ids that the query uses. -/
theorem uses_member {ms : Members} {key : String} (hms : (ms.map (·.1)).Nodup)
    (hget : Members.get? ms key = some w) (hread : InnerQuery.isRead (key, w) = true)
    (hdrops : InnerQuery.drops ms key = false) : (ofKey key).uses w ⊆ query.uses (.obj ms) := by
  have hmem : (key, w) ∈ ms := Members.mem_of_get? hget
  have huses : query.uses (.obj ms) = InnerQuery.sourceUses (InnerQuery.sourceOf ms) ++
      InnerQuery.joinUses (InnerQuery.joinsOf ms) ++
      Clause.namedUses (InnerQuery.clausesOf ms) ++
      Clause.namedUses (InnerQuery.expressionsOf ms) := by
    change (InnerQuery.assemble ms _ _).idUses = _
    rw [InnerQuery.assemble, InnerQuery.idUses]
  rw [huses]
  intro u hu
  rw [List.mem_append, List.mem_append, List.mem_append]
  cases hsource : InnerQuery.isSourceKey key with
  | true =>
    have hs : InnerQuery.source? ms = some (key, w) := by
      refine InnerQuery.source?_eq hms hmem ?_ hdrops
      rw [InnerQuery.isSource, hsource, hread]
      rfl
    refine .inl (.inl (.inl ?_))
    rw [InnerQuery.sourceOf_eq, hs, Option.map_some, Option.getD_some]
    rw [InnerQuery.isSourceKey, Bool.or_eq_true, beq_iff_eq, beq_iff_eq] at hsource
    rcases hsource with rfl | rfl
    · exact hu
    · cases w with
      | obj ms' => exact hu
      | _ => cases hread
  | false =>
    by_cases hjoins : key = "joins"
    · subst hjoins
      cases w with
      | arr vs =>
        refine .inl (.inl (.inr ?_))
        rw [InnerQuery.joinsOf_eq, hget]
        change u ∈ InnerQuery.joinUses (InnerQuery.joinItems vs)
        rw [InnerQuery.joinUses_joinItems]
        exact hu
      | _ => cases hread
    · by_cases hexpressions : key = "expressions"
      · subst hexpressions
        cases w with
        | obj es =>
          refine .inr ?_
          rw [InnerQuery.expressionsOf, hget]
          unfold Clause.namedUses
          rw [List.flatMap_map]
          exact hu
        | _ => cases hread
      · rw [InnerQuery.isRead_other hsource hjoins hexpressions] at hread
        rw [InnerQuery.ofKey_other hsource hjoins hexpressions] at hu
        have hclause : (key, w) ∈ ms.filter fun m => InnerQuery.clauseKeys.contains m.1 :=
          List.mem_filter.2 ⟨hmem, hread⟩
        refine .inl (.inr (List.mem_flatMap.2 ⟨(key, Clause.ofJson w), ?_, hu⟩))
        exact List.mem_map.2 ⟨(key, w), hclause, rfl⟩

/-- A part of a clause uses ids that the clause uses. -/
theorem uses_clause {vs : List Json} {n : Nat} (hr : clause.part? (.arr vs) (.item n) = some r')
    (hw : vs[n]? = some w) : r'.uses w ⊆ clause.uses (.arr vs) := by
  have hitems (vs : List Json) (hmem : w ∈ vs) :
      (Clause.ofJson w).idUses ⊆ Clause.itemUses (Clause.ofItems vs) := by
    intro u hu
    induction vs with
    | nil => cases hmem
    | cons v vs ih =>
      rw [Clause.ofItems, Clause.itemUses, List.mem_append]
      rcases List.mem_cons.1 hmem with rfl | hmem
      · exact .inl hu
      · exact .inr (ih hmem)
  rw [part?] at hr
  cases hnames : Clause.namesField vs with
  | false =>
    rw [hnames] at hr
    cases hr
    intro u hu
    have hmem : w ∈ vs := List.mem_of_getElem? hw
    rw [uses]
    rcases Clause.ofJson_arr hnames with ⟨name, args, rfl, hread⟩ | hread
    · rw [hread, Clause.idUses]
      rcases List.mem_cons.1 hmem with rfl | hmem
      · cases hu
      · exact hitems args hmem hu
    · rw [hread, Clause.idUses]
      exact hitems vs hmem hu
  | true =>
    obtain ⟨op, id, rest, rfl, hread⟩ := Clause.ofJson_arr_field hnames
    rw [hnames, if_pos rfl] at hr
    intro u hu
    rw [uses, hread, Clause.idUses, List.mem_append]
    split at hr
    · rename_i hn
      subst hn
      cases hr
      cases hw
      exact .inl hu
    · split at hr
      · rename_i hn
        subst hn
        cases hr
        refine .inr ?_
        cases rest with
        | nil => cases hw
        | cons v more =>
          cases hw
          cases w with
          | obj ms => exact hu
          | _ => cases hu
      · cases hr

/-- What is read at a step uses ids that the whole uses. -/
theorem uses_part? (hv : v.keysOnce = true) (hr : r.part? v s = some r') (hw : v.part? s = some w) :
    r'.uses w ⊆ r.uses v := by
  obtain ⟨-, hdrops⟩ := written_of_part? hr
  have hpart := hr
  unfold part? at hr
  split at hr
  · rename_i ms key
    have hget : Members.get? ms key = some w := hw
    split at hr
    · cases hr
    · rw [hget, Option.filter_some] at hr
      cases hread : isRead (key, w) with
      | false =>
        rw [hread] at hr
        cases hr
      | true =>
        rw [hread] at hr
        cases hr
        exact uses_member (Json.nodup_of_keysOnce hv) hget hread hdrops
  · rename_i vs n
    cases hr
    intro u hu
    exact List.mem_flatMap.2 ⟨w, List.mem_of_getElem? hw, hu⟩
  · rename_i es key
    cases hr
    intro u hu
    exact List.mem_flatMap.2 ⟨(key, w), Members.mem_of_get? hw, hu⟩
  · rename_i vs n
    exact uses_clause hpart hw
  · rename_i ms key
    split at hr
    · rename_i hkey
      subst hkey
      cases hr
      have hget : Members.get? ms Clause.sourceFieldKey = some w := hw
      intro u hu
      rw [uses, hget, Option.filter_some]
      rw [uses] at hu
      cases hint : w.isInt with
      | true =>
        rw [hint] at hu
        exact hu
      | false =>
        rw [hint] at hu
        cases hu
    · cases hr
  · cases hr

/-- **What is read at a place uses ids that the whole uses.** -/
theorem uses_at? (hv : v.keysOnce = true) (hr : r.at? v p = some r') (hw : v.at? p = some w) :
    r'.uses w ⊆ r.uses v := by
  induction p generalizing r v with
  | nil =>
    cases hr
    cases hw
    exact List.Subset.refl _
  | cons s p ih =>
    rw [Json.at?, Option.bind_eq_some_iff] at hw
    obtain ⟨u, hu, hw⟩ := hw
    rw [at?, Option.bind_eq_some_iff] at hr
    obtain ⟨r₁, hr₁, hr⟩ := hr
    rw [hu] at hr
    exact List.Subset.trans (ih (Json.keysOnce_of_part? hv hu) hr hw) (uses_part? hv hr₁ hu)

end Role
end CardTransfer
