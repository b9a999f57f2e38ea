import CardTransfer.Proofs.Decimal.Exact
import CardTransfer.Proofs.Session.AutoConfirm
import CardTransfer.Proofs.Store.StoredTables

/-!
# What the passes over all tables do to the rows

Suggesting and confirming without a question each read the whole file of table mappings and write it anew,
with some rows put in. Every row under another id comes out as it went in (`Stands.upsertTables`), so what
is left to know is which rows are put in: for suggestions, one for each table of the source whose row is not
decided (`Suggestions`); for confirmed ones, the rows above the threshold (`StoredTable.Above`).

A suggested row is not decided either. So the same tables get the same suggestions the second time, and
those rows are there already: **suggesting twice changes nothing** (`bulk_passes_keep_decisions`).
-/

namespace CardTransfer

open Store
open Correspondence (Open isDecided)

/-! ### The order of candidates -/

namespace Agreement

theorem tableScore_pos_iff (a : Agreement) (c : Bool) : 0 < a.tableScore c ↔ ¬a.tableScore c ≤ 0 := by
  cases a <;> cases c <;> decide +kernel

end Agreement

/-- A double, or the nearest one between 0 and 1. -/
def clamped (x : Float) : Float := if x < 0 then 0 else if 1 < x then 1 else x

theorem clamped_tableScore (a : Agreement) (c : Bool) :
    clamped (a.tableScore c) = confidenceOf (a.tableScore c) := by
  cases a <;> cases c <;> decide +kernel

/-- What a table of the target is as a candidate for a source table: its score comes of how the names
agree. -/
structure Ranked.Of (r : Ranked) (t u : Table) : Prop where
  names : ∃ a b, t.naming = .ok a ∧ u.naming = .ok b ∧ r.reason = (a.agreement b).reason ∧
    r.score = (a.agreement b).tableScore (Naming.lowerName a.name == Naming.lowerName b.name)
  schema : r.sameSchema = u.schema.same t.schema
  id : r.id = u.id
  name : r.name = u.qualifiedName

/-- Whether a candidate comes before another: by score, then by schema, then by id. -/
def Ranked.Before (r r' : Ranked) : Prop :=
  r'.score < r.score ∨ r.score = r'.score ∧ (r.sameSchema = true ∧ r'.sameSchema = false ∨
    r.sameSchema = r'.sameSchema ∧ ∃ m n : Int, r.id = .int m ∧ r'.id = .int n ∧ m < n)

/-- The candidates for a table: all tables of the target with a positive score, in their order. -/
structure Catalog.Ranking (target : Catalog) (t : Table) (ranked : List Ranked) : Prop where
  mem_iff : ∀ r, r ∈ ranked ↔ (∃ u ∈ target.tables, r.Of t u) ∧ 0 < r.score
  order : ranked.Pairwise Ranked.Before

section

variable {target : Catalog} {t u : Table} {r : Ranked} {ranked : List Ranked}

/-- **A table is a candidate if its score is positive.** -/
theorem rankTable?_eq_some_iff : rankTable? t u = .ok (some r) ↔ r.Of t u ∧ 0 < r.score := by
  constructor
  · intro h
    obtain ⟨a, ha, h⟩ := bind_eq_ok.1 h
    obtain ⟨b, hb, h⟩ := bind_eq_ok.1 h
    change ite ((_ : Float) ≤ 0) (Except.ok none) (Except.ok (some _)) = _ at h
    rcases ite_eq_iff.1 h with ⟨-, h⟩ | ⟨hpos, h⟩
    · cases h
    · cases h
      exact ⟨⟨⟨a, b, ha, hb, rfl, rfl⟩, rfl, rfl, rfl⟩, (Agreement.tableScore_pos_iff ..).2 hpos⟩
  · rintro ⟨⟨⟨a, b, ha, hb, hreason, hscore⟩, hschema, hid, hname⟩, hpos⟩
    rw [hscore] at hpos
    obtain ⟨score, sameSchema, id, name, reason⟩ := r
    cases hreason
    cases hscore
    cases hschema
    cases hid
    cases hname
    unfold rankTable?
    rw [ha, hb]
    exact if_neg ((Agreement.tableScore_pos_iff ..).1 hpos)

/-- A candidate that is not after another, and not of the same id, comes before it. -/
theorem Grade.before_of_le {g g' : Grade} (h : g.ranked.le g'.ranked = true) (hne : g.id ≠ g'.id) :
    g.ranked.Before g'.ranked := by
  rcases Grade.le_iff.1 h with hlt | ⟨heq, hrest⟩
  · exact .inl ((Agreement.tableScore_lt_iff ..).2 hlt)
  · obtain ⟨hagreement, hname⟩ := Agreement.eq_of_weight heq
    refine .inr ⟨?_, hrest.imp_right fun h => ⟨h.1, _, _, rfl, rfl, lt_of_le_of_ne h.2 hne⟩⟩
    show g.agreement.tableScore g.sameName = g'.agreement.tableScore g'.sameName
    rw [hagreement, hname]

/-- Each table is a candidate once at most. -/
theorem ids_sublist {us : List Table} {found : List (Option Ranked)} (h : us.mapM (rankTable? t) = .ok found) :
    ((found.filterMap fun o => o).map (·.id)).Sublist (us.map (·.id)) := by
  induction us generalizing found with
  | nil =>
    cases h
    exact .slnil
  | cons u us ih =>
    obtain ⟨o, os, ho, hos, rfl⟩ := mapM_cons_eq_ok.1 h
    cases o with
    | none => exact (ih hos).cons _
    | some r =>
      have hid : r.id = u.id := (rankTable?_eq_some_iff.1 ho).1.id
      show List.Sublist (r.id :: _) (u.id :: _)
      rw [hid]
      exact (ih hos).cons_cons _

/-- **Tables are ranked by score, then by schema, then by id.** -/
theorem ranking_of_rankTables (htarget : target.Typed) (once : (target.tables.map (·.id.key)).Nodup)
    (h : rankTables t target.tables = .ok ranked) : target.Ranking t ranked := by
  obtain ⟨found, hfound, hsort⟩ := bind_eq_ok.1 h
  have hgrade : ∀ r ∈ found.filterMap id, ∃ g : Grade, r = g.ranked := fun r hr =>
    ((mem_found_iff hfound).1 hr).exists_grade htarget
  obtain ⟨hperm, hsorted⟩ := Grade.sorted hgrade hsort
  constructor
  case mem_iff =>
    intro r
    rw [hperm.mem_iff, mem_found_iff hfound]
    constructor
    · rintro ⟨u, hu, hrank⟩
      obtain ⟨hof, hpos⟩ := rankTable?_eq_some_iff.1 hrank
      exact ⟨⟨u, hu, hof⟩, hpos⟩
    · rintro ⟨⟨u, hu, hof⟩, hpos⟩
      exact ⟨u, hu, rankTable?_eq_some_iff.2 ⟨hof, hpos⟩⟩
  case order =>
    have hkeys : ((found.filterMap id).map (·.id.key)).Nodup := by
      have hsub := (ids_sublist hfound).map Json.key
      rw [List.map_map, List.map_map] at hsub
      exact once.sublist hsub
    have hdistinct := List.pairwise_map.1 ((hperm.map (·.id.key)).nodup_iff.2 hkeys)
    refine (hsorted.and hdistinct).imp_of_mem fun {a b} ha hb hab => ?_
    obtain ⟨g, rfl⟩ := hgrade a (hperm.mem_iff.1 ha)
    obtain ⟨g', rfl⟩ := hgrade b (hperm.mem_iff.1 hb)
    exact Grade.before_of_le hab.1 fun heq => hab.2 (congrArg (fun n => (Json.int n).key) heq)

theorem textOf_str (s : String) : Naming.textOf (.str s) = .ok s := by
  unfold Naming.textOf Json.orElse
  split
  · rfl
  · rename_i hempty
    have hs : s = "" := by simpa [Json.truthy] using hempty
    rw [hs]
    rfl

/-- The display names of tables are texts. -/
def Catalog.Texts (c : Catalog) : Prop := ∀ t ∈ c.tables, ∃ s, t.display = .str s

theorem Table.Typed.exists_naming (h : t.Typed) (hdisplay : ∃ s, t.display = .str s) :
    ∃ a, t.naming = .ok a := by
  obtain ⟨name, hname⟩ := h.exists_name
  obtain ⟨display, hdisplay⟩ := hdisplay
  refine ⟨⟨name, display⟩, ?_⟩
  rw [Table.naming, Naming.ofNames, hname, hdisplay, textOf_str, textOf_str]
  rfl

/-- **Tables can be ranked.** -/
theorem exists_rankTables (ht : t.Typed) (hdisplay : ∃ s, t.display = .str s) (htarget : target.Typed)
    (htexts : target.Texts) : ∃ ranked, rankTables t target.tables = .ok ranked := by
  obtain ⟨a, ha⟩ := ht.exists_naming hdisplay
  obtain ⟨found, hfound⟩ : ∃ found, target.tables.mapM (rankTable? t) = .ok found := by
    refine mapM_isOk fun u hu => ?_
    obtain ⟨b, hb⟩ := (htarget u hu).exists_naming (htexts u hu)
    unfold rankTable?
    rw [ha, hb]
    by_cases hscore : (a.agreement b).tableScore (Naming.lowerName a.name == Naming.lowerName b.name) ≤ 0
    · exact ⟨none, if_pos hscore⟩
    · exact ⟨some _, if_neg hscore⟩
  -- integers can be compared
  have hdecided : ((found.filterMap id).any fun a => (found.filterMap id).any a.undecided) = false := by
    rw [List.any_eq_false]
    intro r hr
    rw [Bool.not_eq_true, List.any_eq_false]
    intro r' hr'
    obtain ⟨g, rfl⟩ := ((mem_found_iff hfound).1 hr).exists_grade htarget
    obtain ⟨g', rfl⟩ := ((mem_found_iff hfound).1 hr').exists_grade htarget
    have horder : Ids.order? g.ranked.id g'.ranked.id = some (compare g.id g'.id) := rfl
    rw [Ranked.undecided, horder]
    simp
  refine ⟨Sorting.sort Ranked.le (found.filterMap id), bind_eq_ok.2 ⟨found, hfound, ?_⟩⟩
  rw [Ranked.sort, hdecided]
  rfl

end

/-! ### What is suggested -/

/-- A suggestion for a table, from the candidates in their order: nothing is decided, the first three are
the alternatives, the first one is the target, and the confidence is its score, or 0 if there is none. -/
structure TableMapping.Proposes (m : TableMapping) (t : Table) (ranked : List Ranked) : Prop where
  source : m.source = t.id
  sourceName : m.sourceName = t.qualifiedName
  confirmed : m.confirmed = false
  final : m.final = .null
  ignored : m.ignored = false
  alternatives : m.alternatives = (ranked.take 3).map (·.candidate)
  suggested : m.suggested = (ranked.head?.map (·.id)).getD .null
  suggestedName : m.suggestedName = (ranked.head?.map (·.name)).getD (.str "")
  confidence : m.confidence = clamped ((ranked.head?.map (·.score)).getD 0)

section

variable {target : Catalog} {t u : Table} {ranked : List Ranked}

theorem Catalog.Ranking.proposes (h : target.Ranking t ranked) :
    (TableMapping.suggestion t ranked).Proposes t ranked := by
  refine ⟨rfl, rfl, rfl, rfl, rfl, rfl, rfl, rfl, ?_⟩
  cases ranked with
  | nil =>
    show (0.0 : Float) = clamped 0
    decide +kernel
  | cons r ranked =>
    obtain ⟨⟨u, -, hof⟩, -⟩ := (h.mem_iff r).1 (List.mem_cons_self ..)
    obtain ⟨a, b, -, -, -, hscore⟩ := hof.names
    show confidenceOf r.score = clamped r.score
    rw [hscore, clamped_tableScore]

theorem Table.Typed.exists_qualifiedName (h : t.Typed) : ∃ s : KeptText, t.qualifiedName = s.json := by
  obtain ⟨s, hs⟩ : ∃ s, t.qualifiedName = .str s := by
    obtain ⟨name, hname⟩ := h.name
    unfold Table.qualifiedName
    split
    · exact ⟨_, rfl⟩
    · exact ⟨_, hname⟩
  have hlasting := h.lasting_qualifiedName
  rw [hs] at hlasting ⊢
  cases hlasting with
  | str same => exact ⟨⟨s, same⟩, rfl⟩

/-- A candidate is of the kinds that it should be. -/
theorem Ranked.Of.exists_typed {r : Ranked} (h : r.Of t u) (hu : u.Typed) :
    ∃ c : TypedCandidate, c.candidate = r.candidate := by
  obtain ⟨n, hn⟩ := hu.id
  obtain ⟨name, hname⟩ := hu.exists_qualifiedName
  obtain ⟨a, b, -, -, hreason, -⟩ := h.names
  have hkept (a : Agreement) : Json.rereadText a.reason = a.reason := by cases a <;> decide +kernel
  refine ⟨⟨n, name, r.score, ⟨(a.agreement b).reason, hkept _⟩⟩, ?_⟩
  rw [Ranked.candidate, h.id, h.name, hn, hname, hreason]
  rfl

/-- **A suggestion is read back as it is.** -/
theorem Catalog.Ranking.exists_kept (h : target.Ranking t ranked) (ht : t.Typed) (htarget : target.Typed) :
    ∃ m : KeptTable, m.1.mapping = .suggestion t ranked := by
  obtain ⟨n, hn⟩ := ht.id
  obtain ⟨name, hname⟩ := ht.exists_qualifiedName
  have htyped : ∀ r ∈ ranked, ∃ c : TypedCandidate, c.candidate = r.candidate := by
    intro r hr
    obtain ⟨⟨u, hu, hof⟩, -⟩ := (h.mem_iff r).1 hr
    exact hof.exists_typed (htarget u hu)
  obtain ⟨cs, hcs⟩ : (ranked.take alternativeCount).map (·.candidate) ∈
      Set.range (List.map TypedCandidate.candidate) := by
    rw [Set.range_list_map]
    exact List.forall_mem_map.2 fun r hr => htyped r (List.mem_of_mem_take hr)
  -- the first candidate, if there is one
  obtain ⟨suggested, suggestedName, hsuggested, hsuggestedName, hunsigned⟩ :
      ∃ (k : Option ShortInt) (s : KeptText), (ranked.head?.map (·.id)).getD .null = ShortInt.json? k ∧
        (ranked.head?.map (·.name)).getD (.str "") = s.json ∧
        unsigned ((ranked.head?.map fun r => confidenceOf r.score).getD 0.0) =
          (ranked.head?.map fun r => confidenceOf r.score).getD 0.0 := by
    cases ranked with
    | nil => exact ⟨none, ⟨"", by decide +kernel⟩, rfl, rfl, by decide +kernel⟩
    | cons r ranked =>
      obtain ⟨⟨u, hu, hof⟩, -⟩ := (h.mem_iff r).1 (List.mem_cons_self ..)
      obtain ⟨a, b, -, -, -, hscore⟩ := hof.names
      obtain ⟨k, hk⟩ := (htarget u hu).id
      obtain ⟨s, hs⟩ := (htarget u hu).exists_qualifiedName
      refine ⟨some k, s, hof.id.trans hk, hof.name.trans hs, ?_⟩
      show unsigned (confidenceOf r.score) = confidenceOf r.score
      rw [hscore]
      exact Agreement.unsigned_confidenceOf ..
  refine ⟨⟨⟨n, name, suggested, suggestedName, _, cs, false, none, false⟩, hunsigned⟩, ?_⟩
  unfold TypedTable.mapping TableMapping.suggestion
  rw [hcs, hn, hname, hsuggested, hsuggestedName]
  rfl

end

/-! ### Rows that are decided, and rows that are not -/

namespace StoredTable

/-- A row whose mapping is confirmed or ignored. -/
def Decided (e : StoredTable) : Prop := e.mapping.1.confirmed = true ∨ e.mapping.1.ignored = true

/-- A row that is confirmed without a question: it is not decided, and has a suggestion whose confidence is
above the threshold. -/
structure Above (e : StoredTable) (threshold : Number) : Prop where
  confirmed : e.mapping.1.confirmed = false
  ignored : e.mapping.1.ignored = false
  suggested : e.mapping.1.suggested ≠ none
  confidence : threshold.lt (.float e.mapping.1.confidence) = true

theorem clears_iff {e : StoredTable} {k : Number} : e.table.clears k = true ↔ e.Above k := by
  have hsuggested : e.table.suggested.toOption.isSome = true ↔ e.mapping.1.suggested ≠ none := by
    show (ShortInt.json? e.mapping.1.suggested).toOption.isSome = true ↔ _
    cases e.mapping.1.suggested with
    | none => exact ⟨nofun, fun h => absurd rfl h⟩
    | some n => exact ⟨fun _ => nofun, fun _ => rfl⟩
  unfold TableMapping.clears
  simp only [Bool.and_eq_true, Bool.not_eq_true', hsuggested]
  exact ⟨fun ⟨⟨⟨hc, hi⟩, hs⟩, hlt⟩ => ⟨hc, hi, hs, hlt⟩, fun ⟨hc, hi, hs, hlt⟩ => ⟨⟨⟨hc, hi⟩, hs⟩, hlt⟩⟩

theorem above_inOrder {e : StoredTable} {k : Number} : e.inOrder.Above k ↔ e.Above k :=
  ⟨fun h => ⟨h.confirmed, h.ignored, h.suggested, h.confidence⟩,
    fun h => ⟨h.confirmed, h.ignored, h.suggested, h.confidence⟩⟩

/-- **A row above a threshold is above every lower one.** -/
theorem Above.mono {e : StoredTable} {j k : Number} (h : e.Above k) (hjk : j.lt k = true) : e.Above j := by
  obtain ⟨p, q, hp, hq, hpq⟩ := Number.lt_iff.1 hjk
  obtain ⟨q', x, hq', hx, hlt⟩ := Number.lt_iff.1 h.confidence
  cases hq.symm.trans hq'
  exact ⟨h.confirmed, h.ignored, h.suggested, Number.lt_iff.2 ⟨p, x, hp, hx, hpq.trans hlt⟩⟩

end StoredTable

/-- A table of the source whose row, if there is one, is not decided. -/
def OpenIn (f : Int → Option StoredTable) (t : Table) : Prop :=
  ∀ n e, t.id = .int n → f n = some e → ¬e.Decided

namespace Correspondence

variable {c : Correspondence} {d : Directory} {f g : Int → Option StoredTable} {es cs : List StoredTable}
  {t : Table}

theorem open_iff (h : RowsAre d es f) (ht : t.Typed) :
    Open (es.map (·.table)) t ↔ OpenIn f t := by
  obtain ⟨n, hn⟩ := ht.id
  unfold Open isDecided
  rw [hn, ShortInt.json, h.get?_mappings]
  constructor
  · intro hopen k e hk he hdecided
    rw [hn] at hk
    cases hk
    rw [he] at hopen
    rcases hdecided with hconfirmed | hignored
    · have htrue : e.table.confirmed = true := hconfirmed
      simp [htrue] at hopen
    · have htrue : e.table.ignored = true := hignored
      simp [htrue] at hopen
  · intro hopen
    cases he : f n.1 with
    | none => rfl
    | some e =>
      have hnot := hopen n.1 e hn he
      unfold StoredTable.Decided at hnot
      rw [not_or, Bool.not_eq_true, Bool.not_eq_true] at hnot
      show (e.mapping.1.confirmed || e.mapping.1.ignored) = false
      rw [hnot.1, hnot.2]
      rfl

/-- Suggestions are made for the tables whose rows are not decided. -/
theorem suggestTables_eq (c : Correspondence) (es : List StoredTable) :
    c.suggestTables (es.map (·.table)) =
      (c.source.tables.filter fun t => !isDecided (IdMap.ofList
        ((es.map (·.table)).map fun m => (m.source, m))) t).mapM fun t => do
          return TableMapping.suggestion t (← c.rank t) := by
  have hpairs : ((es.map (·.table)).mapM fun m => do return (← m.source.asKey, m)) =
      (.ok ((es.map (·.table)).map fun m => (m.source, m)) : Except Fault _) :=
    mapM_eq_ok_map (List.forall_mem_map.2 fun e _ => rfl)
  unfold suggestTables
  rw [hpairs, ok_bind]

/-- **The same suggestions are made** where the same tables are open. -/
theorem suggestTables_congr {d' : Directory} (h : RowsAre d es f) (h' : RowsAre d' cs g) (hsource : c.source.Typed)
    (hsame : ∀ t ∈ c.source.tables, OpenIn f t ↔ OpenIn g t) :
    c.suggestTables (es.map (·.table)) =
      c.suggestTables (cs.map (·.table)) := by
  rw [suggestTables_eq, suggestTables_eq]
  refine congrArg (List.mapM _) (List.filter_congr fun t ht => ?_)
  have hopen := (open_iff h (hsource t ht)).trans ((hsame t ht).trans (open_iff h' (hsource t ht)).symm)
  exact congrArg _ (Bool.eq_iff_iff.2 (not_iff_not.1 (by
    rw [Bool.not_eq_true, Bool.not_eq_true]
    exact hopen)))

end Correspondence

/-- Rows that stand for mappings are steady. -/
theorem Store.RowsAre.hasMappings {d : Directory} {f : Int → Option StoredTable} {es : List StoredTable}
    {fs : List FieldMapping} (h : RowsAre d es f) (hfields : fieldReader.Holds d fs)
    (hsteady : fieldReader.Steady fs) : HasMappings d (es.map (·.table)) fs :=
  ⟨h.holds, hfields, RowReader.steady_of_nodup h.nodup_keys, hsteady⟩

namespace Session

variable {s t : Session} {d : Directory} {f g : Int → Option StoredTable} {es : List StoredTable}
  {us : List KeptTable} {threshold : Json} {k : Number} {c : Correspondence}

/-- A session between catalogs of the kinds that they should be, whose tables have ids of their own. Its
stored rows of tables stand for a function, and those of fields can be read. -/
structure Orderly (s : Session) (f : Int → Option StoredTable) : Prop where
  source : s.correspondence.source.Typed
  target : s.correspondence.target.Typed
  sourceTexts : s.correspondence.source.Texts
  targetTexts : s.correspondence.target.Texts
  sourceOnce : (s.correspondence.source.tables.map (·.id.key)).Nodup
  targetOnce : (s.correspondence.target.tables.map (·.id.key)).Nodup
  rows : Stands s.directory f
  fields : ∃ fs, fieldReader.Holds s.directory fs ∧ fieldReader.Steady fs

/-- The rows of fields are where they were after mappings of tables have been stored. -/
theorem Orderly.upsertTables (h : Orderly s f) {ms : List TableMapping}
    (hup : Store.upsertTables s.directory ms = .ok d) (hrows : Stands d g) :
    Orderly { s with directory := d } g := by
  obtain ⟨fs, hfields, hsteady⟩ := h.fields
  obtain ⟨text, hwrite⟩ := RowFile.exists_write hup
  exact { h with
    rows := hrows
    fields := ⟨fs, hfields.congr (Place.tables.sameAt .fields (by decide) hwrite), hsteady⟩ }

/-! ### Suggesting -/

/-- Suggestions for the tables whose rows are not decided, one for each. -/
structure Suggestions (c : Correspondence) (f : Int → Option StoredTable) (us : List KeptTable) : Prop where
  sound : ∀ u ∈ us, ∃ t ∈ c.source.tables, OpenIn f t ∧
    ∃ ranked, c.target.Ranking t ranked ∧ u.1.mapping = .suggestion t ranked
  complete : ∀ t ∈ c.source.tables, OpenIn f t → ∃ u ∈ us,
    ∃ ranked, c.target.Ranking t ranked ∧ u.1.mapping = .suggestion t ranked
  once : (us.map (·.1.source.1)).Nodup

/-- **Suggestions are made**, whatever rows there are. -/
theorem Orderly.exists_suggestions (h : Orderly s f) (hes : RowsAre s.directory es f) :
    ∃ us : List KeptTable, s.correspondence.suggestTables (es.map (·.table)) =
      .ok (us.map fun u => u.1.mapping) ∧ Suggestions s.correspondence f us := by
  obtain ⟨ms, hms⟩ : ∃ ms, s.correspondence.suggestTables (es.map (·.table)) = .ok ms := by
    rw [Correspondence.suggestTables_eq]
    refine mapM_isOk fun t ht => ?_
    have ht := (List.mem_filter.1 ht).1
    obtain ⟨ranked, hranked⟩ := exists_rankTables (h.source t ht) (h.sourceTexts t ht) h.target h.targetTexts
    exact ⟨_, bind_eq_ok.2 ⟨ranked, hranked, rfl⟩⟩
  obtain ⟨hsound, hcomplete, hsources⟩ := Correspondence.suggested_iff hms
  have hranking {t : Table} {ranked : List Ranked}
      (hranked : rankTables t s.correspondence.target.tables = .ok ranked) :
      s.correspondence.target.Ranking t ranked := ranking_of_rankTables h.target h.targetOnce hranked
  obtain ⟨us, rfl⟩ : ms ∈ Set.range (List.map fun u : KeptTable => u.1.mapping) := by
    rw [Set.range_list_map]
    intro m hm
    obtain ⟨t, ht, -, ranked, hranked, rfl⟩ := hsound m hm
    exact (hranking hranked).exists_kept (h.source t ht) h.target
  refine ⟨us, hms, fun u hu => ?_, fun t ht hopen => ?_, ?_⟩
  · obtain ⟨t, ht, hopen, ranked, hranked, heq⟩ := hsound _ (List.mem_map_of_mem hu)
    exact ⟨t, ht, (Correspondence.open_iff hes (h.source t ht)).1 hopen, ranked, hranking hranked, heq⟩
  · obtain ⟨ranked, hranked, hmem⟩ :=
      hcomplete t ht ((Correspondence.open_iff hes (h.source t ht)).2 hopen)
    obtain ⟨u, hu, heq⟩ := List.mem_map.1 hmem
    exact ⟨u, hu, ranked, hranking hranked, heq⟩
  · have hkeys := hsources.map Json.key
    rw [List.map_map, List.map_map, List.map_map] at hkeys
    have honce := h.sourceOnce.sublist hkeys
    exact List.Nodup.of_map (fun n => (Json.int n).key) (by rwa [List.map_map])

namespace Suggestions

/-- A suggestion has the id of an open table. -/
theorem exists_open (h : Suggestions c f us) {u : KeptTable} (hu : u ∈ us) :
    ∃ t ∈ c.source.tables, OpenIn f t ∧ t.id = .int u.1.source.1 := by
  obtain ⟨t, ht, hopen, ranked, -, heq⟩ := h.sound u hu
  exact ⟨t, ht, hopen, (congrArg TableMapping.source heq).symm⟩

/-- **A decided row stays.** -/
theorem withTables_of_decided (h : Suggestions c f us) {n : Int} {e : StoredTable} (he : f n = some e)
    (hdecided : e.Decided) : withTables f us n = some e := by
  rw [withTables_of_ne fun u hu heq => ?_, he]
  obtain ⟨t, -, hopen, hid⟩ := h.exists_open hu
  exact hopen n e (heq ▸ hid) he hdecided

/-- **A row of an id that is not in the source stays.** -/
theorem withTables_of_unknown (h : Suggestions c f us) {n : Int} (hn : ∀ t ∈ c.source.tables, t.id ≠ .int n) :
    withTables f us n = f n := by
  refine withTables_of_ne fun u hu heq => ?_
  obtain ⟨t, ht, -, hid⟩ := h.exists_open hu
  exact hn t ht (heq ▸ hid)

/-- **An open table has the suggestion for it.** -/
theorem exists_of_open (h : Suggestions c f us) {t : Table} (ht : t ∈ c.source.tables) (hopen : OpenIn f t) :
    ∃ n, ∃ u : KeptTable, t.id = .int n ∧ withTables f us n = some u.written ∧
      ∃ ranked, c.target.Ranking t ranked ∧ u.1.mapping = .suggestion t ranked := by
  obtain ⟨u, hu, ranked, hranking, heq⟩ := h.complete t ht hopen
  exact ⟨u.1.source.1, u, (congrArg TableMapping.source heq).symm, withTables_of_mem h.once hu, ranked,
    hranking, heq⟩

/-- **The same tables are open afterwards.** -/
theorem openIn_iff (h : Suggestions c f us) {t : Table} (ht : t ∈ c.source.tables) :
    OpenIn f t ↔ OpenIn (withTables f us) t := by
  constructor
  · intro hopen n e hn he
    obtain ⟨n', u, hn', hu, ranked, -, heq⟩ := h.exists_of_open ht hopen
    cases hn.symm.trans hn'
    cases he.symm.trans hu
    rintro (hconfirmed | hignored)
    · cases hconfirmed.symm.trans (congrArg TableMapping.confirmed heq)
    · cases hignored.symm.trans (congrArg TableMapping.ignored heq)
  · intro hopen n e hn he hdecided
    exact hopen n e hn (h.withTables_of_decided he hdecided) hdecided

end Suggestions

/-- A load finds the same targets if the stored mappings settle the same. -/
theorem exists_reloaded_of_same {ts ts' : List TableMapping} {fs : List FieldMapping}
    (hsource : s.correspondence.source.Typed) (htarget : s.correspondence.target.Typed)
    (h : HasMappings s.directory ts fs) (h' : HasMappings d ts' fs)
    (hsame : ∀ id, (tableReader.verdict ts' id).join = (tableReader.verdict ts id).join)
    (hc : reloaded s = .ok c) : ∃ c', reloaded { s with directory := d } = .ok c' ∧
      (∀ id, c'.resolveTable id = c.resolveTable id) ∧ ∀ id, c'.resolveField id = c.resolveField id := by
  obtain ⟨start, hstart, -⟩ := bind_eq_ok.1 hc
  obtain ⟨m, n, hm, hn, hhash, hget, -⟩ := h.exists_settled
  obtain ⟨m', n', hm', hn', -, hget', -⟩ := h'.exists_settled
  cases hn'.symm.trans hn
  obtain ⟨fresh, hbuilt, -⟩ := Correspondence.exists_built hsource htarget hhash n
  cases (reloaded_eq hstart h hm hn hbuilt).symm.trans hc
  have htargets : IdMap.Same m m' := fun id => by rw [hget, hget', hsame]
  obtain ⟨fresh', hbuilt', htables, -, hfields, -⟩ :=
    hbuilt.congr hsource htarget hhash htargets fun _ => rfl
  refine ⟨fresh', reloaded_eq (s := { s with directory := d }) hstart h' hm' hn hbuilt', fun id => ?_,
    fun id => ?_⟩
  · exact (congrArg (Option.bind · Json.toOption) (htables id)).symm
  · unfold Correspondence.resolveField
    rw [hfields]

/-- What suggesting does: only the rows of open tables are different afterwards, and each of them is a
suggestion; the targets of tables and fields are what they were, in memory and after a load. -/
structure Suggested (s t : Session) (f g : Int → Option StoredTable) : Prop where
  rest : t = { s with directory := t.directory }
  files : ∀ path, path ≠ tableFile.path → t.directory.files.lookup path = s.directory.files.lookup path
  resolveTable : ∀ id, t.correspondence.resolveTable id = s.correspondence.resolveTable id
  resolveField : ∀ id, t.correspondence.resolveField id = s.correspondence.resolveField id
  reloaded : ∀ c, reloaded s = .ok c → ∃ c', Session.reloaded t = .ok c' ∧
    (∀ id, c'.resolveTable id = c.resolveTable id) ∧ ∀ id, c'.resolveField id = c.resolveField id
  decided : ∀ n e, f n = some e → e.Decided → g n = some e
  unknown : ∀ n, (∀ u ∈ s.correspondence.source.tables, u.id ≠ .int n) → g n = f n
  suggested : ∀ u ∈ s.correspondence.source.tables, OpenIn f u → ∃ n, ∃ m : KeptTable, ∃ ranked,
    u.id = .int n ∧ g n = some m.written ∧ s.correspondence.target.Ranking u ranked ∧
      m.1.mapping.Proposes u ranked

/-- **Suggesting returns, and returns the same the second time**, without any change. -/
theorem Orderly.exists_run_suggestTables (h : Orderly s f) : ∃ us t g, suggestTables.run s = (.ok us, t) ∧
    Suggested s t f g ∧ suggestTables.run t = (.ok us, t) ∧ Orderly t g := by
  obtain ⟨es, hes⟩ := h.rows
  obtain ⟨us, hsuggest, hus⟩ := h.exists_suggestions hes
  have hrows := tableMappings_of_holds hes.holds
  have hdecided := fun n e => hus.withTables_of_decided (n := n) (e := e)
  have hunknown := fun n => hus.withTables_of_unknown (n := n)
  have hsuggested : ∀ u ∈ s.correspondence.source.tables, OpenIn f u → ∃ n, ∃ m : KeptTable, ∃ ranked,
      u.id = .int n ∧ withTables f us n = some m.written ∧ s.correspondence.target.Ranking u ranked ∧
        m.1.mapping.Proposes u ranked := by
    intro u hu hopen
    obtain ⟨n, m, hn, hm, ranked, hranking, heq⟩ := hus.exists_of_open hu hopen
    exact ⟨n, m, ranked, hn, hm, hranking, heq ▸ hranking.proposes⟩
  cases us with
  | nil =>
    have hrun := run_suggestTables_nil hrows hsuggest
    exact ⟨[], s, f, hrun, ⟨rfl, fun _ _ => rfl, fun _ => rfl, fun _ => rfl,
      fun c hc => ⟨c, hc, fun _ => rfl, fun _ => rfl⟩, hdecided, hunknown, hsuggested⟩, hrun, h⟩
  | cons u us =>
    obtain ⟨d, hup, hstands, hagain⟩ := Stands.upsertTables h.rows hus.once
    obtain ⟨cs, hcs⟩ := hstands
    have hsuggest' : s.correspondence.suggestTables (cs.map (·.table)) =
        .ok ((u :: us).map fun u => u.1.mapping) := by
      rw [← Correspondence.suggestTables_congr hes hcs h.source fun t ht => hus.openIn_iff ht]
      exact hsuggest
    refine ⟨_, { s with directory := d }, withTables f (u :: us), run_suggestTables hrows hsuggest hup,
      ⟨rfl, fun path hne => lookup_of_upsertTables hup hne, fun _ => rfl, fun _ => rfl, fun c hc => ?_, hdecided,
        hunknown, hsuggested⟩,
      run_suggestTables (s := { s with directory := d }) (tableMappings_of_holds hcs.holds) hsuggest' hagain,
      h.upsertTables hup ⟨cs, hcs⟩⟩
    -- suggestions settle nothing
    obtain ⟨fs, hfields, hsteady⟩ := h.fields
    have hmappings := hes.hasMappings hfields hsteady
    have hfit := fun m => Correspondence.of_suggestTables (m := m) h.source h.target hsuggest
    obtain ⟨ts, hmappings', hverdict⟩ := hmappings.upsertTables (fun m hm => (hfit m hm).1) hup
    refine exists_reloaded_of_same h.source h.target hmappings hmappings' (fun id => ?_) hc
    rw [hverdict]
    exact RowReader.join_verdict_append (fun m hm => (hfit m hm).2) id

/-! ### Confirming -/

/-- What confirming does: exactly the rows above the threshold are different afterwards, and they are
confirmed. -/
structure Confirmed (s t : Session) (f g : Int → Option StoredTable) (k : Number) (ms : List TableMapping) :
    Prop where
  rest : t = { s with directory := t.directory, correspondence := t.correspondence }
  files : ∀ path, path ≠ tableFile.path → t.directory.files.lookup path = s.directory.files.lookup path
  above : ∀ n e, f n = some e → e.Above k → g n = some e.mapping.confirm.written
  others : ∀ n, (∀ e, f n = some e → ¬e.Above k) → g n = f n
  mem_iff : ∀ m, m ∈ ms ↔ ∃ n e, f n = some e ∧ e.Above k ∧ m = e.mapping.confirm.1.mapping

/-- The confirmed mappings of the rows above a threshold. -/
structure Confirmations (f : Int → Option StoredTable) (k : Number) (us : List KeptTable) : Prop where
  mem_iff : ∀ u, u ∈ us ↔ ∃ n e, f n = some e ∧ e.Above k ∧ u = e.mapping.confirm
  once : (us.map (·.1.source.1)).Nodup

/-- **The rows above the threshold are confirmed.** -/
theorem exists_confirmations (hes : RowsAre d es f) (hk : threshold.number? = some k) :
    ∃ us : List KeptTable, TableMapping.autoConfirmed threshold (es.map (·.table)) =
      .ok (us.map fun u => u.1.mapping) ∧ Confirmations f k us := by
  refine ⟨(es.filter (·.table.clears k)).map fun e => e.mapping.confirm, ?_, fun u => ?_, ?_⟩
  · rw [TableMapping.autoConfirmed_eq hk, List.filter_map, List.map_map, List.map_map]
    rfl
  · simp only [List.mem_map, List.mem_filter, StoredTable.clears_iff]
    constructor
    · rintro ⟨e, ⟨he, habove⟩, rfl⟩
      exact ⟨e.id, e.inOrder, (hes.under _ _).2 ⟨e, he, rfl, rfl⟩, StoredTable.above_inOrder.2 habove, rfl⟩
    · rintro ⟨n, e, he, habove, rfl⟩
      obtain ⟨e', he', -, rfl⟩ := (hes.under n e).1 he
      exact ⟨e', ⟨he', StoredTable.above_inOrder.1 habove⟩, rfl⟩
  · rw [List.map_map]
    exact hes.once.sublist (List.filter_sublist.map _)

/-- **Confirming returns**, and leaves an orderly session. -/
theorem Orderly.exists_run_autoConfirm (h : Orderly s f) (hk : threshold.number? = some k) :
    ∃ ms t g, (autoConfirm threshold).run s = (.ok ms, t) ∧ Orderly t g ∧ Confirmed s t f g k ms := by
  obtain ⟨es, hes⟩ := h.rows
  obtain ⟨us, hconfirmed, hus⟩ := exists_confirmations hes hk
  have hrows := tableMappings_of_holds hes.holds
  have habove : ∀ n e, f n = some e → e.Above k → withTables f us n = some e.mapping.confirm.written := by
    intro n e he habove
    have hid : e.mapping.confirm.1.source.1 = n := (hes.inOrder_of_under he).1
    rw [← hid]
    exact withTables_of_mem hus.once ((hus.mem_iff _).2 ⟨n, e, he, habove, rfl⟩)
  have hothers : ∀ n, (∀ e, f n = some e → ¬e.Above k) → withTables f us n = f n := by
    intro n hn
    refine withTables_of_ne fun u hu heq => ?_
    obtain ⟨n', e, he, habove, rfl⟩ := (hus.mem_iff u).1 hu
    have hid : e.mapping.confirm.1.source.1 = n' := (hes.inOrder_of_under he).1
    rw [← hid, heq] at he
    exact hn e he habove
  have hmem : ∀ m, m ∈ us.map (fun u => u.1.mapping) ↔
      ∃ n e, f n = some e ∧ e.Above k ∧ m = e.mapping.confirm.1.mapping := by
    intro m
    rw [List.mem_map]
    constructor
    · rintro ⟨u, hu, rfl⟩
      obtain ⟨n, e, he, habove, rfl⟩ := (hus.mem_iff u).1 hu
      exact ⟨n, e, he, habove, rfl⟩
    · rintro ⟨n, e, he, habove, rfl⟩
      exact ⟨_, (hus.mem_iff _).2 ⟨n, e, he, habove, rfl⟩, rfl⟩
  cases us with
  | nil => exact ⟨[], s, f, run_autoConfirm_nil hrows hconfirmed, h, rfl, fun _ _ => rfl, habove, hothers, hmem⟩
  | cons u us =>
    obtain ⟨d, hup, ⟨cs, hcs⟩, -⟩ := Stands.upsertTables h.rows hus.once
    have horderly := h.upsertTables hup ⟨cs, hcs⟩
    -- with the rows that are stored then, the correspondence can be built
    obtain ⟨fs, hfields, hsteady⟩ := horderly.fields
    have hmappings : HasMappings d _ fs := hcs.hasMappings hfields hsteady
    obtain ⟨m, n, hm, hn, hhash, -, -⟩ := hmappings.exists_settled
    obtain ⟨fresh, hbuilt, -⟩ := Correspondence.exists_built h.source h.target hhash n
    have hrebuild : s.correspondence.rebuild (tableMappings d) (fieldMappings d) = (fresh, .ok ()) := by
      rw [tableMappings_of_holds hmappings.tables, fieldMappings_of_holds hmappings.fields]
      exact hbuilt.rebuild rfl rfl hm hn
    refine ⟨_, { s with directory := d, correspondence := fresh }, withTables f (u :: us),
      run_autoConfirm hrows hconfirmed hup hrebuild, ?_, rfl, fun path hne => lookup_of_upsertTables hup hne,
      habove, hothers, hmem⟩
    obtain ⟨hs, ht, -, -⟩ := hbuilt
    exact ⟨hs ▸ h.source, ht ▸ h.target, hs ▸ h.sourceTexts, ht ▸ h.targetTexts, hs ▸ h.sourceOnce,
      ht ▸ h.targetOnce, ⟨cs, hcs⟩, horderly.fields⟩

/-- What confirming does at every threshold; a higher one confirms no others. -/
def AutoConfirms (s : Session) (f : Int → Option StoredTable) : Prop :=
  ∀ threshold k, threshold.number? = some k → ∃ ms t g, (autoConfirm threshold).run s = (.ok ms, t) ∧
    Orderly t g ∧ Confirmed s t f g k ms ∧
    ∀ threshold' k', threshold'.number? = some k' → k.lt k' = true →
      ∃ ms' t', (autoConfirm threshold').run s = (.ok ms', t') ∧ ms' ⊆ ms

theorem Orderly.autoConfirms (h : Orderly s f) : AutoConfirms s f := by
  intro threshold k hk
  obtain ⟨ms, t, g, hrun, horderly, hconfirmed⟩ := h.exists_run_autoConfirm hk
  refine ⟨ms, t, g, hrun, horderly, hconfirmed, fun threshold' k' hk' hlt => ?_⟩
  obtain ⟨ms', t', g', hrun', -, hconfirmed'⟩ := h.exists_run_autoConfirm hk'
  refine ⟨ms', t', hrun', fun m hm => ?_⟩
  obtain ⟨n, e, he, habove, rfl⟩ := (hconfirmed'.mem_iff m).1 hm
  exact (hconfirmed.mem_iff _).2 ⟨n, e, he, habove.mono hlt, rfl⟩

/-- **Suggesting and confirming leave decided rows alone.** Suggesting changes the rows of open tables only, and
nothing the second time; confirming, before or after, changes the rows above the threshold only. -/
theorem bulk_passes_keep_decisions (h : Orderly s f) : AutoConfirms s f ∧ ∃ us t g,
    suggestTables.run s = (.ok us, t) ∧ Suggested s t f g ∧ suggestTables.run t = (.ok us, t) ∧
      Orderly t g ∧ AutoConfirms t g := by
  obtain ⟨us, t, g, hrun, hsuggested, hagain, horderly⟩ := h.exists_run_suggestTables
  exact ⟨h.autoConfirms, us, t, g, hrun, hsuggested, hagain, horderly, horderly.autoConfirms⟩

/-- A mapping of a table that the source does not have, which is ignored. -/
def ignoredMapping : KeptTable :=
  ⟨{ tiedMapping with source := smallInt 6, ignored := true }, Agreement.unsigned_confidenceOf .exact true⟩

theorem orderly_tiedSession : Orderly tiedSession fun _ => none where
  source := typed_tiedSession.1
  target := typed_tiedSession.2
  sourceTexts := List.forall_mem_singleton.2 ⟨"", rfl⟩
  targetTexts := List.forall_mem_cons.2 ⟨⟨"", rfl⟩, List.forall_mem_singleton.2 ⟨"", rfl⟩⟩
  sourceOnce := List.nodup_singleton _
  targetOnce := by decide
  rows := stands_empty
  fields := ⟨[], hasMappings_empty.fields, hasMappings_empty.steadyFields⟩

theorem bulk_passes_keep_decisions_ignored : ∃ s f, Orderly s f ∧ f 6 = some ignoredMapping.written ∧
    (∃ u ∈ s.correspondence.source.tables, OpenIn f u) ∧ AutoConfirms s f ∧ ∃ us t g,
    suggestTables.run s = (.ok us, t) ∧ Suggested s t f g ∧ suggestTables.run t = (.ok us, t) ∧
      Orderly t g ∧ AutoConfirms t g := by
  have once : ([ignoredMapping].map (·.1.source.1)).Nodup := List.nodup_singleton _
  obtain ⟨d, hup, hstands, -⟩ := stands_empty.upsertTables once
  have horderly := orderly_tiedSession.upsertTables hup hstands
  refine ⟨_, _, horderly, withTables_of_mem once (List.mem_singleton_self _),
    ⟨_, List.mem_singleton_self _, fun n e hn he => ?_⟩, bulk_passes_keep_decisions horderly⟩
  -- the table in the source has another id
  cases hn
  cases he.symm.trans (withTables_of_ne (List.forall_mem_singleton.2 (by decide)))

end Session

end CardTransfer
