import CardTransfer.Proofs.Catalog.Suggestion
import CardTransfer.Proofs.Session.Precedence

/-!
# What is confirmed without a question

A suggestion names the first of the candidates in their order: by score, and among equals by schema and
id. Only its confidence is compared with the threshold, so that two candidates that are equally good do
not keep a table from being confirmed (`confirmed_iff_clears`); the resolution by name would find nothing
there (`tie_is_confirmed`).
-/

namespace CardTransfer

open Store

/-! ### The best candidate -/

/-- No confidence is zero with a sign. -/
theorem Agreement.unsigned_confidenceOf (a : Agreement) (c : Bool) :
    unsigned (confidenceOf (a.tableScore c)) = confidenceOf (a.tableScore c) := by
  cases a <;> cases c <;> decide +kernel

/-- A candidate for a table: a table of the target whose name agrees with its own. -/
def Catalog.Offers (target : Catalog) (t : Table) (r : Ranked) : Prop :=
  ∃ u ∈ target.tables, rankTable? t u = .ok (some r)

/-- The best candidate for a table: none comes before it, by score, and among equals by schema and id. -/
structure Catalog.Best (target : Catalog) (t : Table) (r : Ranked) : Prop where
  offered : target.Offers t r
  first : ∀ r', target.Offers t r' → r.le r' = true

section

variable {target : Catalog} {t u : Table} {r r' : Ranked} {ranked : List Ranked}

/-- A candidate is what its grade makes of it. -/
theorem exists_grade (hu : u.Typed) (h : rankTable? t u = .ok (some r)) : ∃ g : Grade, r = g.ranked := by
  obtain ⟨source, -, h⟩ := bind_eq_ok.1 h
  obtain ⟨candidate, -, h⟩ := bind_eq_ok.1 h
  obtain ⟨n, hn⟩ := hu.id
  change ite ((_ : Float) ≤ 0) (Except.ok none) (Except.ok (some _)) = _ at h
  rcases ite_eq_iff.1 h with ⟨-, h⟩ | ⟨-, h⟩
  · cases h
  · cases h
    refine ⟨⟨source.agreement candidate, Naming.lowerName source.name == Naming.lowerName candidate.name,
      u.schema.same t.schema, n.1, u.qualifiedName⟩, ?_⟩
    unfold Grade.ranked
    congr 1

theorem Catalog.Offers.exists_grade (htarget : target.Typed) (h : target.Offers t r) :
    ∃ g : Grade, r = g.ranked := by
  obtain ⟨u, hu, hrank⟩ := h
  exact CardTransfer.exists_grade (htarget u hu) hrank

/-- The score of the best candidate is settled. -/
theorem Catalog.Best.score_eq (htarget : target.Typed) (h : target.Best t r) (h' : target.Best t r') :
    r.score = r'.score := by
  have hle := h.first r' h'.offered
  have hge := h'.first r h.offered
  obtain ⟨g, rfl⟩ := h.offered.exists_grade htarget
  obtain ⟨g', rfl⟩ := h'.offered.exists_grade htarget
  rw [Grade.le_iff] at hle hge
  have hweight : g.weight = g'.weight := by omega
  obtain ⟨hagreement, hname⟩ := Agreement.eq_of_weight hweight
  show g.agreement.tableScore g.sameName = g'.agreement.tableScore g'.sameName
  rw [hagreement, hname]

/-- **The best candidate has the highest score.** -/
theorem Catalog.Best.highest (htarget : target.Typed) (h : target.Best t r) (h' : target.Offers t r') :
    ¬r.score < r'.score := by
  have hle := h.first r' h'
  obtain ⟨g, rfl⟩ := h.offered.exists_grade htarget
  obtain ⟨g', rfl⟩ := h'.exists_grade htarget
  rw [Grade.le_iff] at hle
  show ¬g.agreement.tableScore g.sameName < g'.agreement.tableScore g'.sameName
  rw [Agreement.tableScore_lt_iff]
  show ¬g.weight < g'.weight
  omega

/-- The candidates among the tables are what is offered. -/
theorem mem_found_iff {found : List (Option Ranked)} (h : target.tables.mapM (rankTable? t) = .ok found) :
    r ∈ found.filterMap id ↔ target.Offers t r := by
  rw [List.mem_filterMap]
  constructor
  · rintro ⟨o, ho, rfl⟩
    exact mem_of_mapM h ho
  · rintro ⟨u, hu, hrank⟩
    obtain ⟨o, ho, hrank'⟩ := exists_of_mapM h hu
    rw [hrank] at hrank'
    exact ⟨o, ho, (Except.ok.inj hrank').symm⟩

/-- **The candidates are put in order.** -/
theorem sorted_rankTables (htarget : target.Typed) (h : rankTables t target.tables = .ok ranked) :
    (∀ r, r ∈ ranked ↔ target.Offers t r) ∧ ranked.Pairwise fun a b => a.le b = true := by
  obtain ⟨found, hfound, hsort⟩ := bind_eq_ok.1 h
  obtain ⟨hperm, hsorted⟩ :=
    Grade.sorted (fun r hr => ((mem_found_iff hfound).1 hr).exists_grade htarget) hsort
  exact ⟨fun r => hperm.mem_iff.trans (mem_found_iff hfound), hsorted⟩

/-- **The first candidate is the best one.** -/
theorem best_of_head? (htarget : target.Typed) (h : rankTables t target.tables = .ok ranked)
    (hr : ranked.head? = some r) : target.Best t r := by
  obtain ⟨found, hfound, hsort⟩ := bind_eq_ok.1 h
  have hgrade : ∀ r ∈ found.filterMap id, ∃ g : Grade, r = g.ranked := fun r hr =>
    ((mem_found_iff hfound).1 hr).exists_grade htarget
  refine ⟨((sorted_rankTables htarget h).1 r).1 (List.mem_of_head? hr), fun r' hr' => ?_⟩
  exact Grade.head_le hgrade hsort hr ((mem_found_iff hfound).2 hr')

end

/-! ### Suggestions in the store -/

namespace TableMapping

variable {m m' : TableMapping}

theorem Akin.clears_eq (h : m.Akin m') (threshold : Number) : m.clears threshold = m'.clears threshold := by
  rw [clears, clears, h.confirmed, h.ignored, h.suggested, h.confidence]

/-- What is confirmed without a question. -/
theorem autoConfirmed_eq {threshold : Json} {n : Number} (hn : threshold.number? = some n)
    (rows : List TableMapping) :
    autoConfirmed threshold rows = .ok ((rows.filter (clears n)).map confirm) := by
  unfold autoConfirmed
  dsimp only
  split
  · rename_i hopen
    rw [List.isEmpty_iff, List.filter_eq_nil_iff] at hopen
    have hnone : rows.filter (clears n) = [] := by
      refine List.filter_eq_nil_iff.2 fun m' hm' hclears => hopen m' hm' ?_
      unfold clears at hclears
      rw [Bool.and_eq_true] at hclears
      exact hclears.1
    rw [hnone]
    rfl
  · rw [Json.comparand, hn]
    rfl

/-- **What is confirmed are the suggestions that clear the threshold.** -/
theorem mem_autoConfirmed_iff {threshold : Json} {n : Number} (hn : threshold.number? = some n)
    {rows ms : List TableMapping} (h : autoConfirmed threshold rows = .ok ms) :
    m ∈ ms ↔ ∃ m' ∈ rows, m'.clears n = true ∧ m = m'.confirm := by
  obtain rfl := Except.ok.inj ((autoConfirmed_eq hn rows).symm.trans h)
  rw [List.mem_map]
  simp only [List.mem_filter, and_assoc, eq_comm (a := m)]

end TableMapping

/-- **Rows that are read after suggestions have been stored**: the suggestions, and the earlier mappings of
other ids. -/
theorem exists_stored {d d' : Directory} {ts us : List TableMapping} (h : tableReader.Holds d ts)
    (hus : ∀ u ∈ us, tableReader.Fine u.toRow u) (honce : (us.map (·.source.key)).Nodup)
    (hup : upsertTables d us = .ok d') : ∃ ts', tableReader.Holds d' ts' ∧
      (∀ m ∈ ts', (∃ u ∈ us, m.Akin u) ∨
        ∃ m' ∈ ts, m.Akin m' ∧ ∀ u ∈ us, u.source.sameId m'.source = false) ∧
      ∀ u ∈ us, ∃ m ∈ ts', m.Akin u := by
  obtain ⟨ps, hrows, rfl, hps⟩ := h
  let added : List (Json × TableMapping) := us.map fun u => (u.toRow, u)
  have hadded : ∀ p ∈ added, tableReader.Fine p.1 p.2 := List.forall_mem_map.2 hus
  have hup' : tableFile.upsert d (added.map fun p => (p.2.source, p.1)) = .ok d' := by
    rw [← hup, upsertTables, List.map_map]
    rfl
  obtain ⟨qs, later, hholds, once, hqs, hlatest, hlater⟩ := RowReader.exists_latest (R := tableReader)
    hrows hps hadded (Place.tables.not_mem_parents .tables) hup'
  have hakin : ∀ q ∈ qs, (later q).Akin q.2 := by
    intro q hq
    have hfine : tableReader.Fine q.1 q.2 :=
      (List.mem_append.1 (hqs q hq)).elim (hps q) (hadded q)
    obtain ⟨m', hm', hsame, -⟩ := (TableMapping.ofRow_eq_ok.1 hfine.read).exists_inOrder hfine.lasting
      hfine.plain
    obtain rfl : later q = m' :=
      Except.ok.inj ((hlater q hq).1.symm.trans (TableMapping.ofRow_eq_ok.2 hm'))
    exact hsame
  -- a suggestion is the last row of its id
  have hlast : ∀ u ∈ us, ∀ id, u.source.sameId id = true →
      (tableReader.latest qs).get? id = some (u.toRow, u) := by
    intro u hu id hsame
    have hmem : (u.source, (u.toRow, u)) ∈ us.map fun u => (u.source, (u.toRow, u)) :=
      List.mem_map_of_mem hu
    have honce' : (IdMap.keys (us.map fun u => (u.source, (u.toRow, u)))).Nodup := by
      unfold IdMap.keys
      rw [List.map_map]
      exact honce
    have hget : IdMap.get? (IdMap.ofList (us.map fun u => (u.source, (u.toRow, u)))) id =
        some (u.toRow, u) := by
      rw [IdMap.ofList_eq_self honce', ← IdMap.get?_congr ((Json.sameId_iff _ _).1 hsame)]
      exact IdMap.get?_of_mem honce' hmem
    rw [hlatest, RowReader.latest, List.map_append, IdMap.get?_ofList_append, List.map_map]
    exact congrArg (Option.or · _) hget
  have hkeys : (IdMap.keys (qs.map fun q => (q.2.source, q))).Nodup := by
    unfold IdMap.keys
    rw [List.map_map]
    exact once
  have hown : ∀ q ∈ qs, (tableReader.latest qs).get? q.2.source = some q := by
    intro q hq
    rw [RowReader.latest]
    show IdMap.get? (IdMap.ofList (qs.map fun q => (q.2.source, q))) _ = _
    rw [IdMap.ofList_eq_self hkeys]
    exact IdMap.get?_of_mem hkeys (List.mem_map_of_mem (f := fun q => (q.2.source, q)) hq)
  refine ⟨qs.map later, hholds, List.forall_mem_map.2 fun q hq => ?_, fun u hu => ?_⟩
  · by_cases hsame : ∃ u ∈ us, u.source.sameId q.2.source = true
    · obtain ⟨u, hu, hid⟩ := hsame
      have heq := (hown q hq).symm.trans (hlast u hu _ hid)
      refine .inl ⟨u, hu, ?_⟩
      have hq2 : q.2 = u := congrArg Prod.snd (Option.some.inj heq)
      exact hq2 ▸ hakin q hq
    · have hnone : ∀ u ∈ us, u.source.sameId q.2.source = false := fun u hu =>
        Bool.eq_false_iff.2 fun hid => hsame ⟨u, hu, hid⟩
      rcases List.mem_append.1 (hqs q hq) with hmem | hmem
      · exact .inr ⟨q.2, List.mem_map_of_mem hmem, hakin q hq, hnone⟩
      · obtain ⟨u, hu, rfl⟩ := List.mem_map.1 hmem
        exact .inl ⟨u, hu, hakin _ hq⟩
  · have hget := hlast u hu u.source (Json.sameId_refl _)
    obtain ⟨p, hp, -, heq⟩ := IdMap.exists_of_get?_ofList hget
    obtain ⟨q, hq, rfl⟩ := List.mem_map.1 hp
    have hq2 : q.2 = u := congrArg Prod.snd heq
    exact ⟨later q, List.mem_map_of_mem hq, hq2 ▸ hakin q hq⟩

namespace Correspondence

variable {c : Correspondence} {ts us : List TableMapping} {t : Table} {u : TableMapping}
  {ranked : List Ranked}

/-- A table whose mapping is neither confirmed nor ignored, going by the last row of its id. -/
def Open (ts : List TableMapping) (t : Table) : Prop :=
  isDecided (IdMap.ofList (ts.map fun m => (m.source, m))) t = false

/-- **Suggestions are made for the open tables.** -/
theorem suggested_iff (h : c.suggestTables ts = .ok us) :
    (∀ u ∈ us, ∃ t ∈ c.source.tables, Open ts t ∧
      ∃ ranked, rankTables t c.target.tables = .ok ranked ∧ u = .suggestion t ranked) ∧
    (∀ t ∈ c.source.tables, Open ts t →
      ∃ ranked, rankTables t c.target.tables = .ok ranked ∧ .suggestion t ranked ∈ us) ∧
    (us.map (·.source)).Sublist (c.source.tables.map (·.id)) := by
  obtain ⟨pairs, hpairs, h⟩ := bind_eq_ok.1 h
  have hstored : pairs = ts.map fun m => (m.source, m) := by
    refine eq_map_of_mapM hpairs fun m _ p hp => ?_
    obtain ⟨id, hid, hp⟩ := bind_eq_ok.1 hp
    rw [← Except.ok.inj hp, Json.eq_of_asKey hid]
  rw [hstored] at h
  have hopen : ∀ t, t ∈ c.source.tables.filter (fun t =>
      !isDecided (IdMap.ofList (ts.map fun m => (m.source, m))) t) ↔ t ∈ c.source.tables ∧ Open ts t := by
    intro t
    rw [List.mem_filter, Bool.not_eq_true', Open]
  refine ⟨fun u hu => ?_, fun t ht hopen' => ?_, ?_⟩
  · obtain ⟨t, ht, hsuggest⟩ := mem_of_mapM h hu
    obtain ⟨ranked, hranked, hu⟩ := bind_eq_ok.1 hsuggest
    exact ⟨t, ((hopen t).1 ht).1, ((hopen t).1 ht).2, ranked, hranked, (Except.ok.inj hu).symm⟩
  · obtain ⟨u, hu, hsuggest⟩ := exists_of_mapM h ((hopen t).2 ⟨ht, hopen'⟩)
    obtain ⟨ranked, hranked, heq⟩ := bind_eq_ok.1 hsuggest
    exact ⟨ranked, hranked, Except.ok.inj heq ▸ hu⟩
  · have hsources := map_eq_of_mapM (k := fun u : TableMapping => u.source) (g := fun t : Table => t.id) h
      fun t _ u hu => by
        obtain ⟨ranked, -, hu⟩ := bind_eq_ok.1 hu
        rw [← Except.ok.inj hu]
        rfl
    rw [hsources]
    exact List.filter_sublist.map _

/-- A suggestion is the best candidate, if there is one. -/
theorem suggestion_cases (htarget : c.target.Typed) (h : rankTables t c.target.tables = .ok ranked) :
    (∃ r, c.target.Best t r ∧ (TableMapping.suggestion t ranked).suggested = r.id ∧
      (TableMapping.suggestion t ranked).confidence = confidenceOf r.score) ∨
    (∀ r, ¬c.target.Offers t r) ∧ (TableMapping.suggestion t ranked).suggested = .null ∧
      (TableMapping.suggestion t ranked).confidence = 0.0 := by
  cases ranked with
  | nil =>
    refine .inr ⟨fun r hr => ?_, rfl, rfl⟩
    exact absurd (((sorted_rankTables htarget h).1 r).2 hr) (List.not_mem_nil)
  | cons r ranked => exact .inl ⟨r, best_of_head? htarget h rfl, rfl, rfl⟩

/-- A suggestion that clears a threshold suggests the best candidate, which does so too. -/
theorem exists_best_of_clears (htarget : c.target.Typed)
    (h : rankTables t c.target.tables = .ok ranked) {n : Number}
    (hclears : (TableMapping.suggestion t ranked).clears n = true) : ∃ r, c.target.Best t r ∧
      (TableMapping.suggestion t ranked).suggested = r.id ∧
      n.lt (.float (confidenceOf r.score)) = true := by
  unfold TableMapping.clears at hclears
  rw [Bool.and_eq_true, Bool.and_eq_true] at hclears
  rcases suggestion_cases htarget h with ⟨r, hbest, hid, hconfidence⟩ | ⟨-, hid, -⟩
  · rw [hconfidence] at hclears
    exact ⟨r, hbest, hid, hclears.2⟩
  · rw [hid] at hclears
    cases hclears.1.2

/-- **A suggestion clears a threshold if the best candidate does.** -/
theorem clears_of_best (htarget : c.target.Typed) (h : rankTables t c.target.tables = .ok ranked)
    {n : Number} {r : Ranked} (hbest : c.target.Best t r)
    (hlt : n.lt (.float (confidenceOf r.score)) = true) :
    (TableMapping.suggestion t ranked).clears n = true := by
  have hclears : (TableMapping.suggestion t ranked).clears n =
      ((TableMapping.suggestion t ranked).suggested.toOption.isSome &&
        n.lt (.float (TableMapping.suggestion t ranked).confidence)) := rfl
  rcases suggestion_cases htarget h with ⟨r', hbest', hid, hconfidence⟩ | ⟨hnone, -, -⟩
  · rw [hclears, hid, hconfidence, hbest'.score_eq htarget hbest, hlt]
    obtain ⟨g, rfl⟩ := hbest'.offered.exists_grade htarget
    rfl
  · exact absurd hbest.offered (hnone r)

/-- A suggestion is read back as it is. -/
theorem fine_suggestion (hsource : t.Typed) (htarget : c.target.Typed)
    (h : rankTables t c.target.tables = .ok ranked) :
    tableReader.Fine (TableMapping.suggestion t ranked).toRow (.suggestion t ranked) := by
  obtain ⟨b, hfine, -⟩ := fit_suggestion hsource htarget h
  have hread : TableMapping.ofRow (TableMapping.suggestion t ranked).toRow = .ok b := hfine.read
  rw [TableMapping.ofRow_eq_ok.2 (TableMapping.reads_toRow _)] at hread
  have hconfidence : unsigned (TableMapping.suggestion t ranked).confidence =
      (TableMapping.suggestion t ranked).confidence := by
    rcases suggestion_cases htarget h with ⟨r, hbest, -, hconfidence⟩ | ⟨-, -, hconfidence⟩
    · obtain ⟨g, rfl⟩ := hbest.offered.exists_grade htarget
      rw [hconfidence]
      exact Agreement.unsigned_confidenceOf ..
    · rw [hconfidence]
      decide +kernel
  rw [hconfidence] at hread
  obtain rfl := Except.ok.inj hread
  exact hfine

end Correspondence

namespace Session

open Correspondence (Open)

variable {s s₁ s₂ : Session} {ts us ms : List TableMapping} {threshold : Json} {n : Number}

/-- What suggesting leaves in the store. -/
theorem exists_suggested (hsource : s.correspondence.source.Typed)
    (htarget : s.correspondence.target.Typed)
    (honce : (s.correspondence.source.tables.map (·.id.key)).Nodup)
    (hrows : tableReader.Holds s.directory ts) (h : suggestTables.run s = (.ok us, s₁)) :
    s.correspondence.suggestTables ts = .ok us ∧ ∃ ts₁, tableReader.Holds s₁.directory ts₁ ∧
      (∀ m ∈ ts₁, (∃ u ∈ us, m.Akin u) ∨
        ∃ m' ∈ ts, m.Akin m' ∧ ∀ u ∈ us, u.source.sameId m'.source = false) ∧
      ∀ u ∈ us, ∃ m ∈ ts₁, m.Akin u := by
  unfold suggestTables readStore at h
  simp only [Steps.run_bind, Steps.run_get, Steps.run_ofExcept, tableMappings_of_holds hrows] at h
  cases hsuggest : s.correspondence.suggestTables ts with
  | error f =>
    rw [hsuggest] at h
    cases h
  | ok us' =>
    rw [hsuggest] at h
    obtain ⟨hall, -, hsources⟩ := Correspondence.suggested_iff hsuggest
    cases us' with
    | nil =>
      cases h
      exact ⟨rfl, ts, hrows, fun m hm => .inr ⟨m, hm, .refl m, nofun⟩, nofun⟩
    | cons u us' =>
      change ((do writeStore (upsertTables · (u :: us')); return u :: us' : Action _).run s) = _ at h
      unfold writeStore at h
      simp only [Steps.run_bind, Steps.run_get, Steps.run_ofExcept] at h
      cases hup : upsertTables s.directory (u :: us') with
      | error f =>
        rw [hup] at h
        cases h
      | ok d =>
        rw [hup] at h
        cases h
        have hfine : ∀ u' ∈ u :: us', tableReader.Fine u'.toRow u' := by
          intro u' hu'
          obtain ⟨t, ht, -, ranked, hranked, rfl⟩ := hall u' hu'
          exact Correspondence.fine_suggestion (hsource t ht) htarget hranked
        have hdistinct : ((u :: us').map (·.source.key)).Nodup := by
          have hkeys := hsources.map Json.key
          rw [List.map_map, List.map_map] at hkeys
          exact honce.sublist hkeys
        exact ⟨rfl, exists_stored hrows hfine hdistinct hup⟩

/-- What is confirmed are the mappings in the store that clear the threshold. -/
theorem mem_confirmed_iff (hn : threshold.number? = some n) (hrows : tableReader.Holds s.directory ts)
    (h : (autoConfirm threshold).run s = (.ok ms, s₁)) {m : TableMapping} :
    m ∈ ms ↔ ∃ m' ∈ ts, m'.clears n = true ∧ m = m'.confirm := by
  refine TableMapping.mem_autoConfirmed_iff hn ?_
  unfold autoConfirm readStore at h
  simp only [Steps.run_bind, Steps.run_get, Steps.run_ofExcept, tableMappings_of_holds hrows] at h
  cases hconfirmed : TableMapping.autoConfirmed threshold ts with
  | error f =>
    rw [hconfirmed] at h
    cases h
  | ok us =>
    rw [hconfirmed] at h
    cases us with
    | nil =>
      cases h
      rfl
    | cons u us =>
      change ((do writeStore (upsertTables · (u :: us)); rebuild; return u :: us : Action _).run s) = _ at h
      obtain ⟨_, s', -, h⟩ := Steps.run_bind_eq_ok.1 h
      obtain ⟨_, t, -, h⟩ := Steps.run_bind_eq_ok.1 h
      exact congrArg Prod.fst h

/-- What is confirmed after suggestions have been made. -/
structure ConfirmedFrom (source target : Catalog) (ts : List TableMapping) (n : Number)
    (ms : List TableMapping) : Prop where
  origin : ∀ m ∈ ms,
    (∃ t ∈ source.tables, Open ts t ∧ m.source = t.id ∧
      ∃ r, target.Best t r ∧ m.final = r.id ∧ n.lt (.float (confidenceOf r.score)) = true) ∨
    ∃ m' ∈ ts, m'.clears n = true ∧ m.source = m'.source ∧ m.final = m'.suggested ∧
      ∀ t ∈ source.tables, Open ts t → t.id.sameId m'.source = false
  confirmed : ∀ t ∈ source.tables, Open ts t → ((∃ m ∈ ms, m.source.sameId t.id = true) ↔
    ∃ r, target.Best t r ∧ n.lt (.float (confidenceOf r.score)) = true)

/-- **A table is confirmed exactly if its best candidate clears the threshold**, whether or not another
one is as good. -/
theorem confirmed_iff_clears (hsource : s.correspondence.source.Typed)
    (htarget : s.correspondence.target.Typed)
    (honce : (s.correspondence.source.tables.map (·.id.key)).Nodup)
    (hrows : tableReader.Holds s.directory ts) (hn : threshold.number? = some n)
    (hsuggest : suggestTables.run s = (.ok us, s₁))
    (hconfirm : (autoConfirm threshold).run s₁ = (.ok ms, s₂)) :
    ConfirmedFrom s.correspondence.source s.correspondence.target ts n ms := by
  obtain ⟨hus, ts₁, hrows₁, hread, hstored⟩ := exists_suggested hsource htarget honce hrows hsuggest
  obtain ⟨hall, hopen, -⟩ := Correspondence.suggested_iff hus
  have hmem := fun m => mem_confirmed_iff (m := m) hn hrows₁ hconfirm
  constructor
  case origin =>
    intro m hm
    obtain ⟨m', hm', hclears, rfl⟩ := (hmem m).1 hm
    rcases hread m' hm' with ⟨u, hu, hakin⟩ | ⟨m₀, hm₀, hakin, hother⟩
    · obtain ⟨t, ht, htopen, ranked, hranked, rfl⟩ := hall u hu
      rw [hakin.clears_eq] at hclears
      obtain ⟨r, hbest, hid, hlt⟩ := Correspondence.exists_best_of_clears htarget hranked hclears
      exact .inl ⟨t, ht, htopen, hakin.source, r, hbest, hakin.suggested.trans hid, hlt⟩
    · refine .inr ⟨m₀, hm₀, hakin.clears_eq n ▸ hclears, hakin.source, hakin.suggested, ?_⟩
      intro t ht htopen
      obtain ⟨ranked, -, hu⟩ := hopen t ht htopen
      exact hother _ hu
  case confirmed =>
    intro t ht htopen
    obtain ⟨ranked, hranked, hu⟩ := hopen t ht htopen
    constructor
    · rintro ⟨m, hm, hsame⟩
      obtain ⟨m', hm', hclears, rfl⟩ := (hmem m).1 hm
      change m'.source.sameId t.id = true at hsame
      rcases hread m' hm' with ⟨u, hu', hakin⟩ | ⟨m₀, -, hakin, hother⟩
      · obtain ⟨t', ht', -, ranked', hranked', rfl⟩ := hall u hu'
        -- ids tell the tables apart
        have hkey : t'.id.key = t.id.key := by
          rw [hakin.source] at hsame
          exact (Json.sameId_iff _ _).1 hsame
        obtain rfl := List.inj_on_of_nodup_map honce ht' ht hkey
        rw [hakin.clears_eq] at hclears
        obtain ⟨r, hbest, -, hlt⟩ := Correspondence.exists_best_of_clears htarget hranked' hclears
        exact ⟨r, hbest, hlt⟩
      · have hno := hother _ hu
        change t.id.sameId m₀.source = false at hno
        rw [hakin.source, Json.sameId, Bool.beq_comm] at hsame
        cases hno.symm.trans hsame
    · rintro ⟨r, hbest, hlt⟩
      obtain ⟨m, hm, hakin⟩ := hstored _ hu
      have hclears := Correspondence.clears_of_best htarget hranked hbest hlt
      rw [← hakin.clears_eq] at hclears
      refine ⟨m.confirm, (hmem _).2 ⟨m, hm, hclears, rfl⟩, ?_⟩
      show m.source.sameId t.id = true
      rw [hakin.source]
      exact Json.sameId_refl _

/-- A store that has at most a mapping of a table has the one that is stored for it, and nothing else. -/
theorem exists_only_mapping {d : Directory} {maps : Maps} (h : Refines d maps) (m : TypedTable)
    (htables : ∀ k, k ≠ m.source.1 → maps.tables k = none) (hfields : ∀ k, maps.fields k = none) :
    ∃ d', upsertTables d [m.mapping] = .ok d' ∧
      Refines d' ((Operation.upsertTables [m]).change maps) ∧
      tableMappings d' = .ok [m.kept] ∧ fieldMappings d' = .ok [] := by
  obtain ⟨d', hup, hrefines⟩ := h.upsertTables [m]
  obtain ⟨⟨ts, hts, hlisted⟩, ⟨fs, hfs, hlisted'⟩, -⟩ := hrefines.answers
  have hts' : ts = [m.kept] := by
    refine hlisted.unique ⟨[(m.source.1, m.kept)], List.pairwise_singleton .., fun k v => ?_, rfl⟩
    show _ ↔ (Function.update maps.tables m.source.1 (some m) k).map _ = some v
    rw [List.mem_singleton, Prod.mk.injEq]
    rcases eq_or_ne k m.source.1 with rfl | hne
    · rw [Function.update_self, Option.map_some, Option.some_inj, eq_comm (a := v)]
      exact and_iff_right rfl
    · rw [Function.update_of_ne hne, htables k hne]
      exact ⟨fun h => absurd h.1 hne, nofun⟩
  have hfs' : fs = [] := by
    refine hlisted'.unique ⟨[], .nil, fun k v => ?_, rfl⟩
    show _ ↔ (maps.fields k).map _ = some v
    rw [hfields]
    exact ⟨nofun, nofun⟩
  exact ⟨d', hup, hrefines, hts' ▸ hts, hfs' ▸ hfs⟩

/-- A table of this name, in a schema. -/
def ordersTable (id : Int) (schema : String) : Table := ⟨.int id, .str "orders", .str schema, .str "", []⟩

/-- Two tables of the same name in the target, neither in the schema of the source table. -/
def tiedSession : Session := { (default : Session) with
  directory := .empty
  correspondence := ⟨⟨.int 1, [ordersTable 5 "public"]⟩,
    ⟨.int 2, [ordersTable 50 "sales", ordersTable 51 "archive"]⟩, [], [], [], []⟩ }

/-- How both are ranked. -/
def tiedGrade (id : Int) (name : String) : Grade := ⟨.exact, true, false, id, .str name⟩

theorem rereadText_orders : Json.rereadText "public.orders" = "public.orders" ∧
    Json.rereadText "sales.orders" = "sales.orders" ∧ Json.rereadText "archive.orders" = "archive.orders" := by
  decide +kernel

theorem rereadText_sameName : Json.rereadText "exact name match" = "exact name match" := by decide +kernel

/-- A candidate, as it is suggested and stored. -/
def tiedCandidate (id : ShortInt) (name : KeptText) : TypedCandidate :=
  ⟨id, name, Agreement.exact.tableScore true, ⟨"exact name match", rereadText_sameName⟩⟩

/-- What is suggested for the source table. -/
def tiedMapping : TypedTable :=
  ⟨smallInt 5, ⟨"public.orders", rereadText_orders.1⟩, some (smallInt 50),
    ⟨"sales.orders", rereadText_orders.2.1⟩, confidenceOf (Agreement.exact.tableScore true),
    [tiedCandidate (smallInt 50) ⟨"sales.orders", rereadText_orders.2.1⟩,
      tiedCandidate (smallInt 51) ⟨"archive.orders", rereadText_orders.2.2⟩], false, none, false⟩

/-- What is confirmed then. -/
def confirmedMapping : TypedTable := { tiedMapping with confirmed := true, final := some (smallInt 50) }

theorem kept_tiedMapping : tiedMapping.kept = tiedMapping.mapping := by
  have h := Agreement.unsigned_confidenceOf .exact true
  show ({ tiedMapping.mapping with confidence := unsigned (confidenceOf _) } : TableMapping) = _
  rw [h]
  rfl

/-- Suggestions that can be stored. -/
theorem run_suggestTables {d : Directory} {u : TableMapping} (hrows : tableMappings s.directory = .ok ts)
    (hsuggest : s.correspondence.suggestTables ts = .ok (u :: us))
    (hup : upsertTables s.directory (u :: us) = .ok d) :
    suggestTables.run s = (.ok (u :: us), { s with directory := d }) := by
  unfold suggestTables readStore
  simp only [Steps.run_bind, Steps.run_get, Steps.run_ofExcept, hrows, hsuggest]
  exact Steps.run_bind_eq_ok.2 ⟨(), _, run_writeStore_ok hup, rfl⟩

/-- Nothing is stored if there is nothing to suggest. -/
theorem run_suggestTables_nil (hrows : tableMappings s.directory = .ok ts)
    (hsuggest : s.correspondence.suggestTables ts = .ok []) : suggestTables.run s = (.ok [], s) := by
  unfold suggestTables readStore
  simp only [Steps.run_bind, Steps.run_get, Steps.run_ofExcept, hrows, hsuggest]
  rfl

/-- Confirmed mappings that can be stored, and with which the correspondence can be built. -/
theorem run_autoConfirm {d : Directory} {u : TableMapping} {c : Correspondence}
    (hrows : tableMappings s.directory = .ok ts)
    (hconfirmed : TableMapping.autoConfirmed threshold ts = .ok (u :: us))
    (hup : upsertTables s.directory (u :: us) = .ok d)
    (hrebuild : s.correspondence.rebuild (tableMappings d) (fieldMappings d) = (c, .ok ())) :
    (autoConfirm threshold).run s =
      (.ok (u :: us), { s with directory := d, correspondence := c }) := by
  unfold autoConfirm readStore
  simp only [Steps.run_bind, Steps.run_get, Steps.run_ofExcept, hrows, hconfirmed]
  exact Steps.run_bind_eq_ok.2 ⟨(), _, run_writeStore_ok hup,
    Steps.run_bind_eq_ok.2 ⟨(), _, run_rebuild hrebuild, rfl⟩⟩

/-- Nothing is stored if there is nothing to confirm. -/
theorem run_autoConfirm_nil (hrows : tableMappings s.directory = .ok ts)
    (hconfirmed : TableMapping.autoConfirmed threshold ts = .ok []) :
    (autoConfirm threshold).run s = (.ok [], s) := by
  unfold autoConfirm readStore
  simp only [Steps.run_bind, Steps.run_get, Steps.run_ofExcept, hrows, hconfirmed]
  rfl

/-- One of the two is suggested, and confirmed then. -/
theorem run_tiedSession : ∃ s₁ s₂, suggestTables.run tiedSession = (.ok [tiedMapping.mapping], s₁) ∧
    (autoConfirm (.float 0.94)).run s₁ = (.ok [confirmedMapping.mapping], s₂) := by
  obtain ⟨d₁, hup₁, hrefines₁, htables₁, -⟩ := exists_only_mapping refines_empty tiedMapping
    (fun _ _ => rfl) fun _ => rfl
  obtain ⟨d₂, hup₂, -, htables₂, hfields₂⟩ := exists_only_mapping hrefines₁ confirmedMapping
    (fun k hk => Function.update_of_ne hk _ _) fun _ => rfl
  rw [kept_tiedMapping] at htables₁
  obtain ⟨c, hc⟩ : ∃ c, tiedSession.correspondence.rebuild (tableMappings d₂) (fieldMappings d₂) =
      (c, .ok ()) := by
    rw [htables₂, hfields₂]
    exact ⟨_, rfl⟩
  exact ⟨_, _, run_suggestTables (tableMappings_of_holds hasMappings_empty.tables) rfl hup₁,
    run_autoConfirm htables₁ rfl hup₂ hc⟩

theorem typed_tiedSession : tiedSession.correspondence.source.Typed ∧
    tiedSession.correspondence.target.Typed := by
  have htable (id : Int) (schema : String) (hid : Text.digitCount id ≤ Text.digitLimit)
      (hschema : Json.rereadText schema = schema) : (ordersTable id schema).Typed :=
    ⟨⟨⟨id, hid⟩, rfl⟩, ⟨⟨"orders", by decide +kernel⟩, rfl⟩, ⟨⟨schema, hschema⟩, rfl⟩, nofun⟩
  refine ⟨List.forall_mem_singleton.2 ?_, List.forall_mem_cons.2 ⟨?_, List.forall_mem_singleton.2 ?_⟩⟩
  all_goals exact htable _ _ (by decide) (by decide +kernel)

theorem confirmed_iff_clears_tied : ∃ us ms s₁ s₂, tiedSession.correspondence.source.Typed ∧
    tiedSession.correspondence.target.Typed ∧
    (tiedSession.correspondence.source.tables.map (·.id.key)).Nodup ∧
    tableReader.Holds tiedSession.directory [] ∧
    (Json.float 0.94).number? = some (.float 0.94) ∧
    suggestTables.run tiedSession = (.ok us, s₁) ∧
    (autoConfirm (.float 0.94)).run s₁ = (.ok ms, s₂) ∧
    ConfirmedFrom tiedSession.correspondence.source tiedSession.correspondence.target [] (.float 0.94) ms := by
  obtain ⟨s₁, s₂, hsuggest, hconfirm⟩ := run_tiedSession
  have honce : (tiedSession.correspondence.source.tables.map (·.id.key)).Nodup := List.nodup_singleton _
  exact ⟨_, _, s₁, s₂, typed_tiedSession.1, typed_tiedSession.2, honce, hasMappings_empty.tables, rfl,
    hsuggest, hconfirm, confirmed_iff_clears typed_tiedSession.1 typed_tiedSession.2 honce
      hasMappings_empty.tables rfl hsuggest hconfirm⟩

/-- Of two candidates that are equally good, and better than any other, one is confirmed. -/
theorem tie_is_confirmed : ∃ s₁ s₂ us ms, suggestTables.run tiedSession = (.ok us, s₁) ∧
    (autoConfirm (.float 0.94)).run s₁ = (.ok ms, s₂) ∧
    (∃ m ∈ ms, m.source = .int 5 ∧ m.confirmed = true ∧ m.final = .int 50) ∧
    ∃ t ∈ tiedSession.correspondence.source.tables, t.id = .int 5 ∧
      ∃ r r', tiedSession.correspondence.target.Best t r ∧
        tiedSession.correspondence.target.Offers t r' ∧ r.id = .int 50 ∧ r'.id = .int 51 ∧
        r.score = r'.score := by
  obtain ⟨s₁, s₂, hsuggest, hconfirm⟩ := run_tiedSession
  have hranked : rankTables (ordersTable 5 "public") tiedSession.correspondence.target.tables =
      .ok [(tiedGrade 50 "sales.orders").ranked, (tiedGrade 51 "archive.orders").ranked] := rfl
  obtain ⟨hoffers, -⟩ := sorted_rankTables typed_tiedSession.2 hranked
  exact ⟨s₁, s₂, _, _, hsuggest, hconfirm, ⟨_, List.mem_singleton_self _, rfl, rfl, rfl⟩, _,
    List.mem_singleton_self _, rfl, _, _, best_of_head? typed_tiedSession.2 hranked rfl,
    (hoffers _).1 (List.mem_cons_of_mem _ (List.mem_singleton_self _)), rfl, rfl, rfl⟩

end Session
end CardTransfer
