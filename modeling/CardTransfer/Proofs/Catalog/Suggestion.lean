import CardTransfer.Catalog.Ranking
import CardTransfer.Catalog.Suggestion
import CardTransfer.Proofs.Catalog.Correspondence
import CardTransfer.Proofs.Json.IdMap
import CardTransfer.Proofs.Store.Mappings
import Mathlib.Data.Set.List

/-!
# Mappings that are made can be stored

What is suggested, confirmed or set by hand between catalogs of the kinds that they should be is a mapping
whose row is read back as it is (`Lasts`, `Plain`): its ids are those of the catalogs or those given, its
names are names of the catalogs, and its alternatives those that were stored.
-/

/-!
## The order of candidates

Scores are doubles, but only ten of them occur: five ways in which names agree, with and without the
bonus. They are in the order of whole numbers (`Agreement.tableScore_lt_iff`), which is total. So
candidates whose ids are integers are in a total order, and putting them in order does so
(`Grade.sorted`).
-/

namespace CardTransfer

namespace Agreement

/-- The score of a table, from how names agree and whether they are the same in lower case. -/
def tableScore (a : Agreement) (sameName : Bool) : Float :=
  if sameName then a.score + nameBonus else a.score

/-- The score in hundredths. -/
def weight (a : Agreement) (sameName : Bool) : Nat :=
  (match a with
    | exact => 100
    | display => 95
    | normalized => 92
    | partialName => 75
    | none => 0) + if sameName then 30 else 0

theorem tableScore_lt_iff (a b : Agreement) (c d : Bool) :
    a.tableScore c < b.tableScore d ↔ a.weight c < b.weight d := by
  cases a <;> cases b <;> cases c <;> cases d <;> decide +kernel

theorem eq_of_weight {a b : Agreement} {c d : Bool} (h : a.weight c = b.weight d) : a = b ∧ c = d := by
  revert h
  cases a <;> cases b <;> cases c <;> cases d <;> decide

theorem eq_of_tableScore {a b : Agreement} {c d : Bool} (h : a.tableScore c = b.tableScore d) :
    a = b ∧ c = d := by
  have hlt : ¬a.weight c < b.weight d := by
    rw [← tableScore_lt_iff, h, tableScore_lt_iff]
    exact Nat.lt_irrefl _
  have hgt : ¬b.weight d < a.weight c := by
    rw [← tableScore_lt_iff, h, tableScore_lt_iff]
    exact Nat.lt_irrefl _
  exact eq_of_weight (by omega)

end Agreement

/-- What ranks a candidate whose id is an integer. -/
structure Grade where
  agreement : Agreement
  sameName : Bool
  sameSchema : Bool
  id : Int
  name : Json

namespace Grade

variable {g h k : Grade}

/-- The candidate. -/
def ranked (g : Grade) : Ranked :=
  ⟨g.agreement.tableScore g.sameName, g.sameSchema, .int g.id, g.name, g.agreement.reason⟩

/-- The weight of its score. -/
def weight (g : Grade) : Nat := g.agreement.weight g.sameName

theorem le_iff : g.ranked.le h.ranked = true ↔ h.weight < g.weight ∨ g.weight = h.weight ∧
    (g.sameSchema = true ∧ h.sameSchema = false ∨ g.sameSchema = h.sameSchema ∧ g.id ≤ h.id) := by
  have hgh : g.ranked.score < h.ranked.score ↔ g.weight < h.weight := Agreement.tableScore_lt_iff ..
  have hhg : h.ranked.score < g.ranked.score ↔ h.weight < g.weight := Agreement.tableScore_lt_iff ..
  unfold Ranked.le
  simp only [hgh, hhg]
  rcases Nat.lt_trichotomy h.weight g.weight with hlt | heq | hgt
  · simp [hlt]
  · rw [if_neg (by omega), if_neg (by omega)]
    have hle : Ids.le g.ranked.id h.ranked.id = true ↔ g.id ≤ h.id := Ids.le_int
    show (if (g.sameSchema != h.sameSchema) = true then g.sameSchema else _) = true ↔ _
    cases hg : g.sameSchema <;> cases hh : h.sameSchema <;> simp [hle, heq]
  · rw [if_neg (by omega), if_pos hgt]
    simp only [Bool.false_eq_true, false_iff]
    omega

theorem le_total (g h : Grade) : g.ranked.le h.ranked = true ∨ h.ranked.le g.ranked = true := by
  rw [le_iff, le_iff]
  cases g.sameSchema <;> cases h.sameSchema <;> simp <;> omega

theorem le_trans (g h k : Grade) (hgh : g.ranked.le h.ranked = true)
    (hhk : h.ranked.le k.ranked = true) : g.ranked.le k.ranked = true := by
  rw [le_iff] at hgh hhk ⊢
  cases hg : g.sameSchema <;> cases hh : h.sameSchema <;> cases hk : k.sameSchema <;>
    simp [hg, hh, hk] at hgh hhk ⊢ <;> omega

/-- **Candidates are put in order, and none is lost or added.** -/
theorem sorted {found ranked : List Ranked} (hfound : ∀ r ∈ found, ∃ g : Grade, r = g.ranked)
    (h : Ranked.sort found = .ok ranked) :
    ranked.Perm found ∧ ranked.Pairwise fun a b => a.le b = true := by
  have hranked : ranked = Sorting.sort Ranked.le found := by
    unfold Ranked.sort at h
    split at h
    · cases h
    · exact (Except.ok.inj h).symm
  -- the comparison is transitive on what candidates are made of
  obtain ⟨gs, hgs⟩ : found ∈ Set.range (List.map Grade.ranked) := by
    rw [Set.range_list_map]
    exact fun r hr => (hfound r hr).imp fun g hg => hg.symm
  have hsorted := Sorting.sort_pairwise le_total le_trans gs
  refine ⟨hranked ▸ Sorting.sort_perm Ranked.le found, ?_⟩
  rw [hranked, ← hgs, ← Sorting.map_sort (fun g h => rfl)]
  exact List.pairwise_map.2 hsorted

/-- The first candidate comes before every one. -/
theorem head_le {found ranked : List Ranked} {r r' : Ranked}
    (hfound : ∀ r ∈ found, ∃ g : Grade, r = g.ranked) (h : Ranked.sort found = .ok ranked)
    (hr : ranked.head? = some r) (hr' : r' ∈ found) : r.le r' = true := by
  obtain ⟨hperm, hsorted⟩ := sorted hfound h
  obtain ⟨rest, rfl⟩ : ∃ rest, ranked = r :: rest := List.head?_eq_some_iff.1 hr
  rcases List.mem_cons.1 (hperm.mem_iff.2 hr') with rfl | hmem
  · obtain ⟨g, rfl⟩ := hfound _ hr'
    exact or_self_iff.1 (le_total g g)
  · exact List.rel_of_pairwise_cons hsorted hmem

end Grade
end CardTransfer

namespace CardTransfer

open Store

/-! ### Names -/

/-- Texts with a dot between them are read back as they are. -/
theorem lasting_dotted (s t : KeptText) : (Json.str (s.1 ++ "." ++ t.1)).Lasting := by
  have hs : Json.joinHalves s.1.toList = s.1.toList := by
    have h := congrArg String.toList s.2
    rwa [Json.rereadText, String.toList_ofList] at h
  have ht : Json.joinHalves t.1.toList = t.1.toList := by
    have h := congrArg String.toList t.2
    rwa [Json.rereadText, String.toList_ofList] at h
  refine .str ?_
  have hlist : (s.1 ++ "." ++ t.1).toList = s.1.toList ++ '.' :: t.1.toList := by
    rw [String.toList_append, String.toList_append, List.append_assoc]
    rfl
  rw [Json.rereadText, hlist, Json.joinHalves_append_cons (by decide), hs, ht, ← hlist,
    String.ofList_toList]

theorem lasting_empty : (Json.str "").Lasting := .str (by decide +kernel)

section

variable {source target : Catalog} {t u : Table} {f : Field}

theorem Table.Typed.lasting_id (h : t.Typed) : t.id.Lasting := by
  obtain ⟨n, hn⟩ := h.id
  exact hn ▸ n.lasting

theorem Table.Typed.lasting_qualifiedName (h : t.Typed) : t.qualifiedName.Lasting := by
  obtain ⟨name, hname⟩ := h.name
  obtain ⟨schema, hschema⟩ := h.schema
  unfold Table.qualifiedName
  rw [hname, hschema]
  split
  · exact lasting_dotted schema name
  · exact name.lasting

end

/-! ### Mappings of tables -/

namespace TableMapping

/-- What is confirmed without a question are stored mappings. -/
theorem exists_of_autoConfirmed {threshold : Json} {rows ms : List TableMapping} {m : TableMapping}
    (h : autoConfirmed threshold rows = .ok ms) (hm : m ∈ ms) : ∃ m' ∈ rows, m = m'.confirm := by
  unfold autoConfirmed at h
  dsimp only at h
  split at h
  · cases h
    cases hm
  · obtain ⟨t, -, h⟩ := bind_eq_ok.1 h
    cases h
    obtain ⟨m', hm', rfl⟩ := List.mem_map.1 hm
    exact ⟨m', (List.mem_filter.1 hm').1, rfl⟩

/-- A stored mapping that is confirmed without a question can be stored again. -/
theorem fit_confirm {row : Json} {m : TableMapping} (h : tableReader.Fine row m) :
    tableReader.Fit m.confirm := by
  have hlasts := lasts_of_fine h
  have hplain : m.Plain := h.plain
  exact fit_table ⟨hlasts.source, hlasts.sourceName, hlasts.suggested, hlasts.suggestedName,
    hlasts.alternatives, hlasts.suggested⟩ ⟨hplain.source, hplain.suggested, hplain.suggested⟩

end TableMapping

/-- What a candidate for a table is made of. -/
theorem of_mem_rankTables {t : Table} {candidates : List Table} {ranked : List Ranked} {r : Ranked}
    (h : rankTables t candidates = .ok ranked) (hr : r ∈ ranked) :
    ∃ u ∈ candidates, r.id = u.id ∧ r.name = u.qualifiedName ∧ ∃ a : Agreement, r.reason = a.reason := by
  obtain ⟨found, hfound, hsort⟩ := bind_eq_ok.1 h
  have hmem : r ∈ found.filterMap id := by
    unfold Ranked.sort at hsort
    split at hsort
    · cases hsort
    · rw [← Except.ok.inj hsort] at hr
      exact Sorting.mem_sort.1 hr
  obtain ⟨o, ho, rfl⟩ := List.mem_filterMap.1 hmem
  obtain ⟨u, hu, hrank⟩ := mem_of_mapM hfound ho
  obtain ⟨naming, -, hrank⟩ := bind_eq_ok.1 hrank
  obtain ⟨naming', -, hrank⟩ := bind_eq_ok.1 hrank
  change ite ((_ : Float) ≤ 0) (Except.ok none) (Except.ok (some _)) = _ at hrank
  rcases ite_eq_iff.1 hrank with ⟨-, hrank⟩ | ⟨-, hrank⟩
  · cases hrank
  · cases hrank
    exact ⟨u, hu, rfl, rfl, _, rfl⟩

namespace Correspondence

variable {c : Correspondence} {t : Table} {rows ms : List TableMapping} {m : TableMapping}

/-- **What is suggested can be stored**, and does not count. -/
theorem fit_suggestion (hsource : t.Typed) (htarget : c.target.Typed) {ranked : List Ranked}
    (h : c.rank t = .ok ranked) : tableReader.Fit (TableMapping.suggestion t ranked) := by
  have hreason (a : Agreement) : (Json.str a.reason).Lasting := by
    refine .str ?_
    cases a <;> decide +kernel
  have hparts : ∀ r ∈ ranked, r.id.Lasting ∧ r.id.isCompound = false ∧ r.name.Lasting ∧
      (Json.str r.reason).Lasting := by
    intro r hr
    obtain ⟨u, hu, hid, hname, a, ha⟩ := of_mem_rankTables h hr
    rw [hid, hname, ha]
    exact ⟨(htarget u hu).lasting_id, (htarget u hu).isCompound_id, (htarget u hu).lasting_qualifiedName,
      hreason a⟩
  have hhead : ((ranked.head?.map Ranked.id).getD .null).Lasting ∧
      ((ranked.head?.map Ranked.id).getD .null).isCompound = false ∧
      ((ranked.head?.map Ranked.name).getD (.str "")).Lasting := by
    cases ranked with
    | nil => exact ⟨.null, rfl, lasting_empty⟩
    | cons r ranked =>
      obtain ⟨hid, hplain, hname, -⟩ := hparts r (List.mem_cons_self ..)
      exact ⟨hid, hplain, hname⟩
  refine fit_table ⟨hsource.lasting_id, hsource.lasting_qualifiedName, hhead.1, hhead.2.2, ?_, .null⟩
    ⟨hsource.isCompound_id, hhead.2.1, rfl⟩
  intro candidate hcandidate
  obtain ⟨r, hr, rfl⟩ := List.mem_map.1 hcandidate
  obtain ⟨hid, -, hname, hreason⟩ := hparts r (List.mem_of_mem_take hr)
  exact ⟨hid, hname, .float _, hreason⟩

/-- Only tables whose mapping is neither confirmed nor ignored get a suggestion, so that no mapping that
counts is lost. -/
theorem of_suggestTables (hsource : c.source.Typed) (htarget : c.target.Typed)
    (h : c.suggestTables rows = .ok ms) (hm : m ∈ ms) : tableReader.Fit m ∧ m.settled? = none ∧
      (tableReader.verdict rows m.source).join = none := by
  obtain ⟨pairs, hpairs, h⟩ := bind_eq_ok.1 h
  have hstored : pairs = rows.map fun m => (m.source, m) := by
    refine eq_map_of_mapM hpairs fun m _ p hp => ?_
    obtain ⟨id, hid, hp⟩ := bind_eq_ok.1 hp
    rw [← Except.ok.inj hp, Json.eq_of_asKey hid]
  obtain ⟨t, ht, hsuggest⟩ := mem_of_mapM h hm
  obtain ⟨ht, hopen⟩ := List.mem_filter.1 ht
  obtain ⟨ranked, hranked, hm⟩ := bind_eq_ok.1 hsuggest
  rw [← Except.ok.inj hm]
  refine ⟨fit_suggestion (hsource t ht) htarget hranked, rfl, ?_⟩
  have hverdict : tableReader.verdict rows t.id =
      ((IdMap.ofList (rows.map fun m => (m.source, m))).get? t.id).map TableMapping.settled? := by
    rw [← IdMap.get?_map, ← IdMap.ofList_map, List.map_map]
    rfl
  show (tableReader.verdict rows t.id).join = none
  rw [hstored, Bool.not_eq_true'] at hopen
  unfold isDecided at hopen
  rw [hverdict]
  cases hget : (IdMap.ofList (rows.map fun m => (m.source, m))).get? t.id with
  | none => rfl
  | some m =>
    rw [hget, Option.any_some, Bool.or_eq_false_iff] at hopen
    rw [Option.map_some, TableMapping.settled?, hopen.1]
    rfl

/-- **A mapping of a table set by hand can be stored.** -/
theorem fit_manualTable (hsource : c.source.Typed) (htarget : c.target.Typed)
    (hrows : ∀ m ∈ rows, m.Lasts) (source target : ShortInt) :
    tableReader.Fit (c.manualTable source.json target.json rows) := by
  have hname {catalog : Catalog} (h : catalog.Typed) (id : Json) :
      (((catalog.tableById? id).map Table.qualifiedName).getD (.str "")).Lasting := by
    cases hfound : catalog.tableById? id with
    | none => exact lasting_empty
    | some t => exact (h t (mem_of_tableById? hfound)).lasting_qualifiedName
  refine fit_table ⟨source.lasting, hname hsource _, target.lasting, hname htarget _, ?_, target.lasting⟩
    ⟨rfl, rfl, rfl⟩
  show ∀ candidate ∈ ((rows.find? (·.source.sameId source.json)).map (·.alternatives)).getD [], _
  cases hfound : rows.find? (·.source.sameId source.json) with
  | none => exact nofun
  | some m => exact (hrows m (List.mem_of_find?_eq_some hfound)).alternatives

/-- **A mapping of a field that is set is of the kinds that it should be.** -/
theorem exists_typedField (hsource : c.source.Typed) (htarget : c.target.Typed)
    (source target : ShortInt) (method : MappingMethod) (confidence : Float) : ∃ m : TypedField,
      m.mapping = c.confirmedField source.json target.json method (.float confidence) := by
  have hfield {catalog : Catalog} (h : catalog.Typed) (id : Json) : ∃ (name : KeptText)
      (table : Option ShortInt), ((catalog.fieldById? id).map Field.name).getD (.str "") = name.json ∧
        ((catalog.fieldById? id).map Field.table).getD .null = ShortInt.json? table := by
    cases hfound : catalog.fieldById? id with
    | none => exact ⟨⟨"", by decide +kernel⟩, none, rfl, rfl⟩
    | some f =>
      obtain ⟨t, ht, hf⟩ := List.mem_flatMap.1 (List.mem_reverse.1 (List.mem_of_find?_eq_some hfound))
      obtain ⟨name, hname⟩ := ((h t ht).fields f hf).name
      obtain ⟨table, htable⟩ := ((h t ht).fields f hf).table
      exact ⟨name, some table, hname, htable⟩
  obtain ⟨name, table, hname, htable⟩ := hfield hsource source.json
  obtain ⟨name', table', hname', htable'⟩ := hfield htarget target.json
  refine ⟨⟨source, name, table, some target, name', table', confidence, method, true, some target⟩, ?_⟩
  unfold confirmedField
  rw [hname, htable, hname', htable']
  rfl

end Correspondence
end CardTransfer
