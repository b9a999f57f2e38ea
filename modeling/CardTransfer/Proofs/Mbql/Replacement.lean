import CardTransfer.Proofs.Mbql.Use

/-!
# Ids after a transfer without gaps

If a transfer leaves no table and no field without counterpart, then every id that is read as one is
replaced by its counterpart (`replaced_where_read`). What is not read stays as it is: the lists in
the options of a clause look like fields but are no clauses, and so are the lists in members that are
not read. Their ids survive the transfer, and no gap is recorded (`defaultQuery_survives`).
-/

namespace CardTransfer

open Json (Step)

namespace Ids

theorem eq_nil_of_distinct {ids : Ids} (h : ids.distinct = []) : ids = [] := by
  have hgrows (ids found : Ids) (hne : found ≠ []) : ids.foldl add found ≠ [] := by
    induction ids generalizing found with
    | nil => exact hne
    | cons a ids ih =>
      refine ih _ ?_
      unfold add
      split
      · exact hne
      · exact List.append_ne_nil_of_right_ne_nil _ (List.cons_ne_nil _ _)
  cases ids with
  | nil => rfl
  | cons a ids => exact absurd h (hgrows ids (add [] a) (List.cons_ne_nil _ _))

end Ids

namespace Role

variable {r : Role} {v : Json} {f : IdChange}

/-- An integer is written as it is unless it is read as an id. -/
theorem image_int (hv : v.isInt = true) (hsource : r ≠ source) (hfield : r ≠ field)
    (hoption : r ≠ sourceField) : r.image f v = v := by
  cases v with
  | int n => cases r <;> first | rfl | contradiction
  | bool b => cases r <;> first | rfl | contradiction
  | _ => cases hv

theorem image_source_int (hv : v.isInt = true) : source.image f v = f.table v := by
  cases v with
  | int n => rfl
  | bool b => rfl
  | _ => cases hv

theorem uses_source_int (hv : v.isInt = true) : source.uses v = [.table v] := by
  cases v with
  | int n => rfl
  | bool b => rfl
  | _ => cases hv

/-- The second item of a list that names a field by an integer is that field. -/
theorem part?_clause_field {op : FieldOp} {rest : List Json} (hv : v.isInt = true) :
    clause.part? (.arr (.str op.text :: v :: rest)) (.item 1) = some field := by
  have hnames : Clause.namesField (.str op.text :: v :: rest) = true := by
    cases v with
    | int n => cases op <;> rfl
    | bool b => cases op <;> rfl
    | _ => cases hv
  rw [part?, hnames]
  rfl

/-- An item is read as part of a clause or as a join. -/
theorem part?_item {vs : List Json} {n : Nat} {r' : Role}
    (hr : r.part? (.arr vs) (.item n) = some r') : r = clause ∨ r' = query := by
  cases r with
  | clause => exact .inl rfl
  | joins => exact .inr (Option.some.inj hr).symm
  | _ => cases hr

/-- What stands under `source-table` is read as a source, or as an expression of that name. -/
theorem part?_sourceTable {r' : Role} (hr : r.part? v (.key "source-table") = some r') :
    r' = source ∨ r' = clause := by
  unfold part? at hr
  split at hr
  · rename_i heq
    cases heq
    split at hr
    · cases hr
    · obtain ⟨w, -, rfl⟩ := Option.map_eq_some_iff.1 hr
      exact .inl rfl
  · rename_i heq
    cases heq
  · cases hr
    exact .inr rfl
  · rename_i heq
    cases heq
  · rename_i heq
    cases heq
    rw [if_neg (by decide)] at hr
    cases hr
  · cases hr

end Role

namespace StructuredTransfer

variable {c : Correspondence} {cards : IdMap Json} {source target : Int} {q ms : Members}

/-- A transfer without gaps lists none. -/
theorem gaps_of_complete (hcomplete : (ofQuery c cards source target q).complete = true) :
    ∀ u ∈ (StructuredQuery.ofMembers q).query.idUses, isGap c cards u = true →
      tableOf? u = none ∧ fieldOf? u = none := by
  have hempty {α : Type} {gaps : Ids} {g : Json → α} (h : ((Ids.distinct gaps).map g).isEmpty = true) :
      gaps = [] := by
    rw [List.isEmpty_iff, List.map_eq_nil_iff] at h
    exact Ids.eq_nil_of_distinct h
  rw [complete, Bool.and_eq_true] at hcomplete
  have htables := hempty hcomplete.1
  have hfields := hempty hcomplete.2
  rw [List.filterMap_eq_nil_iff] at htables hfields
  intro u hu hgap
  have hmem := List.mem_filter.2 ⟨hu, hgap⟩
  exact ⟨htables u hmem, hfields u hmem⟩

theorem resolveTable_of_complete {id : Json}
    (hcomplete : (ofQuery c cards source target q).complete = true)
    (hu : .table id ∈ (StructuredQuery.ofMembers q).query.idUses) :
    ∃ m, c.resolveTable id = some m := by
  cases hresolve : c.resolveTable id with
  | some m => exact ⟨m, rfl⟩
  | none =>
    have hgap : isGap c cards (.table id) = true := by rw [isGap, hresolve, Option.isNone_none]
    cases (gaps_of_complete hcomplete _ hu hgap).1

theorem resolveField_of_complete {id : Json}
    (hcomplete : (ofQuery c cards source target q).complete = true)
    (hu : .field id ∈ (StructuredQuery.ofMembers q).query.idUses) :
    ∃ m, c.resolveField id = some m := by
  cases hresolve : c.resolveField id with
  | some m => exact ⟨m, rfl⟩
  | none =>
    have hgap : isGap c cards (.field id) = true := by rw [isGap, hresolve, Option.isNone_none]
    cases (gaps_of_complete hcomplete _ hu hgap).2

theorem ofMembers_query (hq : Members.get? q "query" = some (.obj ms)) :
    (StructuredQuery.ofMembers q).query = InnerQuery.ofMembers ms := by
  rw [StructuredQuery.ofMembers, hq]
  rfl

/-- The inner query after a transfer. -/
theorem get?_query_ofQuery (hq : Members.get? q "query" = some (.obj ms)) :
    Members.get? (ofQuery c cards source target q).query "query" =
      some (Role.query.image (change c cards) (.obj ms)) := by
  have hextra : Members.get? (q.filter fun m => m.1 != "database" && m.1 != "query") "query" =
      none := by
    rw [Members.get?_filter_key fun key => key != "database" && key != "query"]
    rfl
  have hquery : (ofQuery c cards source target q).query =
      [("database", (transferDatabase source target (StructuredQuery.ofMembers q).database).1)] ++
        (q.filter fun m => m.1 != "database" && m.1 != "query") ++
        [("query", ((StructuredQuery.ofMembers q).query.mapIds (change c cards)).toJson)] := rfl
  rw [hquery, ofMembers_query hq]
  unfold Members.get? at hextra ⊢
  rw [List.lookup_append, List.lookup_append, hextra]
  rfl

/-! ### Where ids are replaced -/

/-- Whether a result holds at a place what the query holds there without any replacement; in a regular
query that is what stood there before. -/
def Untouched (ms : Members) (result : Json) (p : List Step) : Prop :=
  result.at? p = (InnerQuery.ofMembers ms).toJson.at? p ∧
    (Role.query.Regular (.obj ms) → result.at? p = (Json.obj ms).at? p)

theorem untouched_of_unread {p : List Step} {id : Json} (hkeys : (Json.obj ms).keysOnce = true)
    (hid : (Json.obj ms).at? p = some id) (hint : id.isInt = true)
    (hread : ∀ r, Role.query.at? (.obj ms) p = some r → r ≠ .source ∧ r ≠ .field ∧ r ≠ .sourceField)
    (f : IdChange) : Untouched ms (Role.query.image f (.obj ms)) p := by
  have hsame : (InnerQuery.ofMembers ms).toJson = Role.query.image .same (.obj ms) := by
    rw [Role.image, InnerQuery.mapIds_same]
    rfl
  unfold Untouched
  rw [hsame, hid]
  cases hr : Role.query.at? (.obj ms) p with
  | none =>
    refine ⟨Role.at?_image_of_unread hkeys hr hid, fun hregular => ?_⟩
    rw [Role.at?_image_of_regular hkeys hregular hid, hr]
  | some r =>
    obtain ⟨hsource, hfield, hoption⟩ := hread r hr
    have hstays (g : IdChange) : (Role.query.image g (.obj ms)).at? p = some id := by
      rw [Role.at?_image hkeys hr hid, Role.image_int hint hsource hfield hoption]
    rw [hstays f, hstays .same]
    exact ⟨rfl, fun _ => rfl⟩

section

variable {p : List Step} {op : FieldOp} {id : Json} {rest : List Json}

/-- A field that is read is replaced by its counterpart. -/
theorem replaced_field (hq : Members.get? q "query" = some (.obj ms))
    (hkeys : (Json.obj ms).keysOnce = true)
    (hcomplete : (ofQuery c cards source target q).complete = true)
    (hlist : (Json.obj ms).at? p = some (.arr (.str op.text :: id :: rest))) (hint : id.isInt = true)
    (hr : Role.query.at? (.obj ms) p = some .clause) :
    ∃ m, c.resolveField id = some m ∧
      (Role.query.image (change c cards) (.obj ms)).at? (p ++ [.item 1]) = some m := by
  have hid : (Json.obj ms).at? (p ++ [.item 1]) = some id := by
    rw [Json.at?_append, hlist]
    rfl
  have hfield : Role.query.at? (.obj ms) (p ++ [.item 1]) = some .field := by
    rw [Role.at?_concat hlist rfl, hr]
    exact Role.part?_clause_field hint
  have huse : .field id ∈ (StructuredQuery.ofMembers q).query.idUses := by
    rw [ofMembers_query hq]
    refine Role.uses_at? (r := .query) hkeys hfield hid ?_
    rw [Role.uses, if_pos hint]
    exact List.mem_singleton_self _
  obtain ⟨m, hm⟩ := resolveField_of_complete hcomplete huse
  have himage : Role.field.image (change c cards) id = m := by
    rw [Role.image, Role.changed, if_pos hint]
    change (c.resolveField id).getD id = m
    rw [hm, Option.getD_some]
  exact ⟨m, hm, by rw [Role.at?_image hkeys hfield hid, himage]⟩

/-- The id in a list that is not read as a clause stays. -/
theorem untouched_field (hkeys : (Json.obj ms).keysOnce = true)
    (hlist : (Json.obj ms).at? p = some (.arr (.str op.text :: id :: rest))) (hint : id.isInt = true)
    (hr : Role.query.at? (.obj ms) p ≠ some .clause) (f : IdChange) :
    Untouched ms (Role.query.image f (.obj ms)) (p ++ [.item 1]) := by
  have hid : (Json.obj ms).at? (p ++ [.item 1]) = some id := by
    rw [Json.at?_append, hlist]
    rfl
  refine untouched_of_unread hkeys hid hint (fun r' hr' => ?_) f
  rw [Role.at?_concat hlist rfl, Option.bind_eq_some_iff] at hr'
  obtain ⟨r, hr₀, hr'⟩ := hr'
  rcases Role.part?_item hr' with rfl | rfl
  · contradiction
  · exact ⟨by decide, by decide, by decide⟩

/-- A table that is read as the source is replaced by its counterpart. -/
theorem replaced_table (hq : Members.get? q "query" = some (.obj ms))
    (hkeys : (Json.obj ms).keysOnce = true)
    (hcomplete : (ofQuery c cards source target q).complete = true)
    (hid : (Json.obj ms).at? p = some id) (hint : id.isInt = true)
    (hr : Role.query.at? (.obj ms) p = some .source) :
    ∃ m, c.resolveTable id = some m ∧
      (Role.query.image (change c cards) (.obj ms)).at? p = some m := by
  have huse : .table id ∈ (StructuredQuery.ofMembers q).query.idUses := by
    rw [ofMembers_query hq]
    refine Role.uses_at? (r := .query) hkeys hr hid ?_
    rw [Role.uses_source_int hint]
    exact List.mem_singleton_self _
  obtain ⟨m, hm⟩ := resolveTable_of_complete hcomplete huse
  have himage : Role.source.image (change c cards) id = m := by
    rw [Role.image_source_int hint]
    change (c.resolveTable id).getD id = m
    rw [hm, Option.getD_some]
  exact ⟨m, hm, by rw [Role.at?_image hkeys hr hid, himage]⟩

/-- A table that is not read as the source stays. -/
theorem untouched_table (hkeys : (Json.obj ms).keysOnce = true)
    (hid : (Json.obj ms).at? (p ++ [.key "source-table"]) = some id) (hint : id.isInt = true)
    (hr : Role.query.at? (.obj ms) (p ++ [.key "source-table"]) ≠ some .source) (f : IdChange) :
    Untouched ms (Role.query.image f (.obj ms)) (p ++ [.key "source-table"]) := by
  obtain ⟨w, hw, hthere⟩ : ∃ w, (Json.obj ms).at? p = some w ∧
      (w.part? (.key "source-table")).isSome = true := by
    rw [Json.at?_append, Option.bind_eq_some_iff] at hid
    obtain ⟨w, hw, hid⟩ := hid
    rw [Json.at?, Option.bind_eq_some_iff] at hid
    obtain ⟨u, hu, -⟩ := hid
    exact ⟨w, hw, Option.isSome_of_mem hu⟩
  refine untouched_of_unread hkeys hid hint (fun r' hr' => ?_) f
  have hpart := hr'
  rw [Role.at?_concat hw hthere, Option.bind_eq_some_iff] at hpart
  obtain ⟨r, -, hpart⟩ := hpart
  rcases Role.part?_sourceTable hpart with rfl | rfl
  · contradiction
  · exact ⟨by decide, by decide, by decide⟩

end

/-- **Ids are replaced where they are read, and nowhere else.** If a transfer has no gap, then

1. the id in a list that names a field is replaced by the counterpart of the field where the list is
   read as a clause, and stays where it is not,
2. the table under `source-table` is replaced by its counterpart where it is read as the source of a
   query, and stays where it is not. -/
theorem replaced_where_read (hq : Members.get? q "query" = some (.obj ms))
    (hkeys : (Json.obj ms).keysOnce = true)
    (hcomplete : (ofQuery c cards source target q).complete = true) :
    ∃ result, Members.get? (ofQuery c cards source target q).query "query" = some result ∧
      (∀ p op id rest,
        (Json.obj ms).at? p = some (.arr (.str (FieldOp.text op) :: id :: rest)) → id.isInt = true →
        if Role.query.at? (.obj ms) p = some .clause then
          ∃ m, c.resolveField id = some m ∧ result.at? (p ++ [.item 1]) = some m
        else Untouched ms result (p ++ [.item 1])) ∧
      ∀ p id, (Json.obj ms).at? (p ++ [.key "source-table"]) = some id → id.isInt = true →
        if Role.query.at? (.obj ms) (p ++ [.key "source-table"]) = some .source then
          ∃ m, c.resolveTable id = some m ∧ result.at? (p ++ [.key "source-table"]) = some m
        else Untouched ms result (p ++ [.key "source-table"]) := by
  refine ⟨_, get?_query_ofQuery hq, ?_, ?_⟩
  · intro p op id rest hlist hint
    split
    · rename_i hr
      exact replaced_field hq hkeys hcomplete hlist hint hr
    · rename_i hr
      exact untouched_field hkeys hlist hint hr _
  · intro p id hid hint
    split
    · rename_i hr
      exact replaced_table hq hkeys hcomplete hid hint hr
    · rename_i hr
      exact untouched_table hkeys hid hint hr _

/-! ### A field in the options of a clause -/

/-- Table 50 takes the place of table 5, field 560 that of field 56. -/
def smallCorrespondence : Correspondence :=
  { (default : Correspondence) with
    tables := [(.int 5, .int 50)]
    fields := [(.int 56, .int 560)] }

/-- A field that is read, and the same field as the default of a case. -/
def caseMembers : Members :=
  [("source-table", .int 5),
    ("fields", .arr [.arr [.str "field", .int 56, .null]]),
    ("expressions", .obj [("x", .arr [.str "case", .arr [],
      .obj [("default", .arr [.str "field", .int 56, .null])]])])]

def caseQuery : Members := [("database", .int 1), ("query", .obj caseMembers)]

/-- The transfer has no gap, and replaces the table and the field that are read. -/
theorem replaced_where_read_caseQuery :
    (ofQuery smallCorrespondence [] 1 2 caseQuery).complete = true ∧
      ∃ result, Members.get? (ofQuery smallCorrespondence [] 1 2 caseQuery).query "query" =
        some result ∧
        result.at? [.key "source-table"] = some (.int 50) ∧
        result.at? [.key "fields", .item 0, .item 1] = some (.int 560) ∧
        Untouched caseMembers result
          [.key "expressions", .key "x", .item 2, .key "default", .item 1] := by
  have hcomplete : (ofQuery smallCorrespondence [] 1 2 caseQuery).complete = true := by
    decide +kernel
  refine ⟨hcomplete, ?_⟩
  have hkeys : (Json.obj caseMembers).keysOnce = true := by decide +kernel
  obtain ⟨result, hresult, hfields, htables⟩ := replaced_where_read rfl hkeys hcomplete
  have htable := htables [] (.int 5) rfl rfl
  have hfield := hfields [.key "fields", .item 0] .field (.int 56) [.null] rfl rfl
  have hdefault := hfields [.key "expressions", .key "x", .item 2, .key "default"] .field (.int 56)
    [.null] rfl rfl
  rw [if_pos (by decide +kernel)] at htable hfield
  rw [if_neg (by decide +kernel)] at hdefault
  obtain ⟨m, hm, htable⟩ := htable
  cases hm
  obtain ⟨m, hm, hfield⟩ := hfield
  cases hm
  exact ⟨result, hresult, htable, hfield, hdefault⟩

/-- The field in the options stays, though the transfer has no gap and the field a counterpart. -/
theorem caseQuery_survives :
    (ofQuery smallCorrespondence [] 1 2 caseQuery).complete = true ∧
      (Json.obj caseMembers).at? [.key "expressions", .key "x", .item 2, .key "default"] =
        some (.arr [.str "field", .int 56, .null]) ∧
      smallCorrespondence.resolveField (.int 56) = some (.int 560) ∧
      (Members.get? (ofQuery smallCorrespondence [] 1 2 caseQuery).query "query").bind
        (·.at? [.key "expressions", .key "x", .item 2, .key "default", .item 1]) =
        some (.int 56) := by
  refine ⟨by decide +kernel, rfl, rfl, rfl⟩

end StructuredTransfer
end CardTransfer
