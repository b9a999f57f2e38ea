import CardTransfer.Proofs.Store.Upsert

/-!
# Stored mappings as things that rows are read as

How the rows of mappings are read, part by part (`ofRow_eq_ok`), so that rows with their members in another
order are read as the same, as far as ids and flags go, and a mapping that lasts is read as it is
written.
-/

namespace CardTransfer

/-! ### Values with their members in order -/

namespace Json

variable {v w : Json} {key : String}

theorem inOrder_of_isCompound (h : v.isCompound = false) : v.inOrder = v := by
  cases v with
  | arr vs => cases h
  | obj ms => cases h
  | _ => rfl

theorem truthy_inOrder (v : Json) : v.inOrder.truthy = v.truthy := by
  cases v with
  | arr vs =>
    rw [inOrder_arr]
    cases vs <;> rfl
  | obj ms =>
    have hlength := (arrange_perm .file ms).length_eq
    rw [inOrder_obj]
    show (!((Style.file.arrange ms).map _).isEmpty) = !ms.isEmpty
    rw [List.isEmpty_map]
    cases ms with
    | nil => rfl
    | cons m ms =>
      cases h : Style.file.arrange (m :: ms) with
      | nil =>
        rw [h] at hlength
        cases hlength
      | cons n ns => rfl
  | _ => rfl

/-- What is found in a value in order is what was found, in order. -/
theorem find_inOrder (h : v.Lasting) (key : String) :
    v.inOrder.find key = (v.find key).map inOrder := by
  cases v with
  | obj ms =>
    obtain ⟨ns, hns, hget, -⟩ := get?_inOrder h
    rw [hns, find, find, membersFor, membersFor, ok_bind, ok_bind, hget]
    cases Members.get? ms key <;> rfl
  | arr vs =>
    rw [inOrder_arr]
    rfl
  | _ => rfl

theorem Lasting.find (h : v.Lasting) (hw : v.find key = .ok w) : w.Lasting := by
  cases h with
  | @obj ms once keys values =>
    rw [Json.find, membersFor, ok_bind] at hw
    rw [← Except.ok.inj hw]
    cases hget : Members.get? ms key with
    | none => exact .null
    | some u => exact values (key, u) (Members.mem_of_get? hget)
  | _ => cases hw

theorem Lasting.require (h : v.Lasting) (hw : v.require key = .ok w) : w.Lasting := by
  cases h with
  | @obj ms once keys values =>
    rw [Json.require] at hw
    cases hget : Members.get? ms key with
    | none =>
      rw [hget] at hw
      cases hw
    | some u =>
      rw [hget] at hw
      rw [← Except.ok.inj hw]
      exact values (key, u) (Members.mem_of_get? hget)
  | _ => cases hw

end Json

open Json (Lasting)

variable {row v w : Json} {key : String}

theorem valueIn_inOrder (h : row.Lasting) {fallback : Json} (hfallback : fallback.inOrder = fallback) :
    valueIn row.inOrder key fallback = (valueIn row key fallback).map Json.inOrder := by
  cases row with
  | obj ms =>
    obtain ⟨ns, hns, hget, -⟩ := Json.get?_inOrder h
    rw [hns, valueIn, valueIn, Json.membersFor, Json.membersFor, ok_bind, ok_bind, hget]
    cases Members.get? ms key with
    | none => exact congrArg Except.ok hfallback.symm
    | some v => rfl
  | arr vs =>
    rw [Json.inOrder_arr]
    rfl
  | _ => rfl

theorem lasting_valueIn (h : row.Lasting) {fallback : Json} (hfallback : fallback.Lasting)
    (hw : valueIn row key fallback = .ok w) : w.Lasting := by
  cases h with
  | @obj ms once keys values =>
    rw [valueIn, Json.membersFor, ok_bind] at hw
    rw [← Except.ok.inj hw]
    cases hget : Members.get? ms key with
    | none => exact hfallback
    | some u => exact values (key, u) (Members.mem_of_get? hget)
  | _ => cases hw

/-- A value that is a confidence is one in order, too. -/
theorem confidence_inOrder {x : Float} (h : (v.orElse (.float 0.0)).toDouble = .ok x) :
    (v.inOrder.orElse (.float 0.0)).toDouble = .ok x := by
  cases v with
  | arr vs =>
    cases vs with
    | nil => exact h
    | cons v vs => cases h
  | obj ms =>
    cases ms with
    | nil => exact h
    | cons m ms => cases h
  | _ => exact h

/-- A target is no list or object if neither of the ids is that it is taken from. -/
theorem isCompound_of_target {final suggested : Json} (hfinal : final.isCompound = false)
    (hsuggested : suggested.isCompound = false)
    (hv : ((final.toOption).getD suggested).toOption = some v) : v.isCompound = false := by
  have hoption {u : Json} (hu : u.isCompound = false) (h : u.toOption = some v) :
      v.isCompound = false := by
    cases u with
    | null => cases h
    | _ =>
      cases h
      exact hu
  cases final with
  | null => exact hoption hsuggested hv
  | _ => exact hoption hfinal hv

/-! ### Candidates -/

namespace Candidate

/-- The parts of a candidate are read back as they are, but for the order of members. -/
structure Lasts (c : Candidate) : Prop where
  id : c.id.Lasting
  name : c.name.Lasting
  score : c.score.Lasting
  reason : c.reason.Lasting

/-- How a candidate is read, part by part. -/
structure Reads (ms : Members) (c : Candidate) : Prop where
  known : ∀ m ∈ ms, m.1 ∈ parts
  id : Members.get? ms "id" = some c.id
  name : Members.get? ms "name" = some c.name
  score : Members.get? ms "score" = some c.score
  reason : (Members.get? ms "reason").getD (.str "") = c.reason

theorem need_eq_ok {ms : Members} : need ms key = .ok v ↔ Members.get? ms key = some v := by
  rw [need]
  cases Members.get? ms key with
  | none =>
    constructor
    · intro h
      cases h
    · intro h
      cases h
  | some u => exact ⟨fun h => congrArg some (Except.ok.inj h),
      fun h => congrArg Except.ok (Option.some.inj h)⟩

theorem ofRow_eq_ok {c : Candidate} : ofRow v = .ok c ↔ ∃ ms, v = .obj ms ∧ Reads ms c := by
  constructor
  · intro h
    cases v with
    | obj ms =>
      refine ⟨ms, rfl, ?_⟩
      rw [ofRow] at h
      cases hfind : ms.find? fun m => !parts.contains m.1 with
      | some m =>
        rw [hfind] at h
        cases h
      | none =>
        rw [hfind] at h
        obtain ⟨id, hid, h⟩ := bind_eq_ok.1 h
        obtain ⟨name, hname, h⟩ := bind_eq_ok.1 h
        obtain ⟨score, hscore, h⟩ := bind_eq_ok.1 h
        cases h
        refine ⟨fun m hm => ?_, need_eq_ok.1 hid, need_eq_ok.1 hname, need_eq_ok.1 hscore, rfl⟩
        simpa using List.find?_eq_none.1 hfind m hm
    | _ => cases h
  · rintro ⟨ms, rfl, known, id, name, score, reason⟩
    have hfind : ms.find? (fun m => !parts.contains m.1) = none := by
      rw [List.find?_eq_none]
      intro m hm
      simpa using known m hm
    rw [ofRow, hfind]
    simp only [need_eq_ok.2 id, need_eq_ok.2 name, need_eq_ok.2 score, reason, ok_bind]
    rfl

theorem lasts_of_ofRow {c : Candidate} (h : v.Lasting) (hc : ofRow v = .ok c) : c.Lasts := by
  obtain ⟨ms, rfl, -, id, name, score, reason⟩ := ofRow_eq_ok.1 hc
  cases h with
  | obj once keys values =>
    refine ⟨values _ (Members.mem_of_get? id), values _ (Members.mem_of_get? name),
      values _ (Members.mem_of_get? score), ?_⟩
    rw [← reason]
    cases hget : Members.get? ms "reason" with
    | none => exact .str (by decide +kernel)
    | some u => exact values _ (Members.mem_of_get? hget)

/-- A candidate with its parts in order. -/
def inOrder (c : Candidate) : Candidate :=
  ⟨c.id.inOrder, c.name.inOrder, c.score.inOrder, c.reason.inOrder⟩

theorem ofRow_inOrder {c : Candidate} (h : v.Lasting) (hc : ofRow v = .ok c) :
    ofRow v.inOrder = .ok c.inOrder := by
  obtain ⟨ms, rfl, known, id, name, score, reason⟩ := ofRow_eq_ok.1 hc
  obtain ⟨ns, hns, hget, hkeys⟩ := Json.get?_inOrder h
  refine ofRow_eq_ok.2 ⟨ns, hns, ?_, ?_, ?_, ?_, ?_⟩
  · intro n hn
    obtain ⟨m, hm, heq⟩ := List.mem_map.1 (hkeys n hn)
    exact heq ▸ known m hm
  · rw [hget, id]
    rfl
  · rw [hget, name]
    rfl
  · rw [hget, score]
    rfl
  · rw [hget, inOrder, ← reason]
    cases Members.get? ms "reason" <;> rfl

/-- The candidates in a value that is read as a list. -/
def readAll (v : Json) : Except Fault (List Candidate) := do
  (← (v.orElse (.arr [])).each).mapM ofRow

theorem readAll_arr (vs : List Json) : readAll (.arr vs) = vs.mapM ofRow := by
  cases vs <;> rfl

/-- Candidates are read from a list, or there are none. -/
theorem eq_of_readAll {cs : List Candidate} (h : readAll v = .ok cs) :
    (∃ vs, v = .arr vs) ∨ v.inOrder = v ∧ cs = [] := by
  cases v with
  | arr vs => exact .inl ⟨vs, rfl⟩
  | obj ms =>
    cases ms with
    | nil => exact .inr ⟨rfl, (Except.ok.inj h).symm⟩
    | cons m ms =>
      have hread : (Json.str m.1 :: ms.map fun m => Json.str m.1).mapM ofRow = .ok cs := h
      obtain ⟨c, cs, hc, -⟩ := mapM_cons_eq_ok.1 hread
      cases hc
  | str s =>
    refine .inr ⟨rfl, ?_⟩
    obtain ⟨items, hitems, hread⟩ := bind_eq_ok.1 h
    cases items with
    | nil => exact (Except.ok.inj hread).symm
    | cons item items =>
      obtain ⟨c, cs, hc, -⟩ := mapM_cons_eq_ok.1 hread
      obtain ⟨ms, rfl, -⟩ := ofRow_eq_ok.1 hc
      unfold Json.orElse at hitems
      split at hitems
      · cases htext : s.toList with
        | nil =>
          rw [Json.each, htext] at hitems
          cases hitems
        | cons c cs =>
          rw [Json.each, htext] at hitems
          cases hitems
      · cases hitems
  | null => exact .inr ⟨rfl, (Except.ok.inj h).symm⟩
  | bool b =>
    cases b with
    | false => exact .inr ⟨rfl, (Except.ok.inj h).symm⟩
    | true => cases h
  | _ =>
    refine .inr ⟨rfl, ?_⟩
    unfold readAll Json.orElse at h
    split at h
    · cases h
    · exact (Except.ok.inj h).symm

theorem lasts_of_readAll {cs : List Candidate} (h : v.Lasting) (hcs : readAll v = .ok cs) :
    ∀ c ∈ cs, c.Lasts := by
  rcases eq_of_readAll hcs with ⟨vs, rfl⟩ | ⟨-, rfl⟩
  · rw [readAll_arr] at hcs
    intro c hc
    obtain ⟨item, hitem, hread⟩ := mem_of_mapM hcs hc
    cases h with
    | arr items => exact lasts_of_ofRow (items item hitem) hread
  · exact nofun

theorem readAll_inOrder {cs : List Candidate} (h : v.Lasting) (hcs : readAll v = .ok cs) :
    readAll v.inOrder = .ok (cs.map inOrder) := by
  rcases eq_of_readAll hcs with ⟨vs, rfl⟩ | ⟨hv, rfl⟩
  · rw [Json.inOrder_arr, readAll_arr, List.mapM_map]
    rw [readAll_arr] at hcs
    refine mapM_eq_ok_map_of_mapM hcs fun item hitem c hc => ?_
    cases h with
    | arr items => exact ofRow_inOrder (items item hitem) hc
  · rw [hv]
    exact hcs

theorem readAll_toRow (cs : List Candidate) : readAll (.arr (cs.map (·.toRow))) = .ok cs := by
  have hread : cs.mapM (ofRow ∘ fun c => c.toRow) = .ok (cs.map fun c => c) :=
    mapM_eq_ok_map fun c _ => rfl
  rw [readAll_arr, List.mapM_map, hread, List.map_id']

theorem Lasts.toRow {c : Candidate} (h : c.Lasts) : c.toRow.Lasting := by
  refine Store.lasting_obj parts rfl (by decide) (by decide +kernel) ?_
  simp only [List.forall_mem_cons]
  exact ⟨h.id, h.name, h.score, h.reason, nofun⟩

end Candidate

/-! ### Mappings of tables -/

namespace TableMapping

/-- Ids that are no lists or objects. -/
structure Plain (m : TableMapping) : Prop where
  source : m.source.isCompound = false
  suggested : m.suggested.isCompound = false
  final : m.final.isCompound = false

theorem Plain.target {m : TableMapping} (h : m.Plain) (hv : m.settled? = some v) :
    v.isCompound = false := by
  unfold settled? at hv
  split at hv
  · exact isCompound_of_target h.final h.suggested hv
  · cases hv

/-- A mapping whose parts are read back as they are, but for the order of members. -/
structure Lasts (m : TableMapping) : Prop where
  source : m.source.Lasting
  sourceName : m.sourceName.Lasting
  suggested : m.suggested.Lasting
  suggestedName : m.suggestedName.Lasting
  alternatives : ∀ c ∈ m.alternatives, c.Lasts
  final : m.final.Lasting

/-- Mappings that are the same but for names and alternatives. -/
structure Akin (m m' : TableMapping) : Prop where
  source : m.source = m'.source
  suggested : m.suggested = m'.suggested
  confidence : m.confidence = m'.confidence
  confirmed : m.confirmed = m'.confirmed
  final : m.final = m'.final
  ignored : m.ignored = m'.ignored

theorem Akin.refl (m : TableMapping) : m.Akin m := ⟨rfl, rfl, rfl, rfl, rfl, rfl⟩

theorem Akin.settled?_eq {m m' : TableMapping} (h : m.Akin m') : m.settled? = m'.settled? := by
  rw [settled?, settled?, target, target, h.confirmed, h.ignored, h.final, h.suggested]

/-- How a mapping is read, part by part. -/
structure Reads (row : Json) (m : TableMapping) : Prop where
  source : row.require "source_table_id" = .ok m.source
  sourceName : valueIn row "source_table_name" (.str "") = .ok m.sourceName
  suggested : row.find "suggested_target_table_id" = .ok m.suggested
  suggestedName : valueIn row "suggested_target_table_name" (.str "") = .ok m.suggestedName
  confidence : ∃ v, row.find "confidence" = .ok v ∧
    (v.orElse (.float 0.0)).toDouble = .ok m.confidence
  alternatives : ∃ v, row.find "alternatives" = .ok v ∧ Candidate.readAll v = .ok m.alternatives
  confirmed : ∃ v, row.find "confirmed" = .ok v ∧ v.truthy = m.confirmed
  final : row.find "final_target_table_id" = .ok m.final
  ignored : ∃ v, row.find "ignored" = .ok v ∧ v.truthy = m.ignored

theorem ofRow_eq_ok {m : TableMapping} : ofRow row = .ok m ↔ Reads row m := by
  constructor
  · intro h
    obtain ⟨source, hsource, h⟩ := bind_eq_ok.1 h
    obtain ⟨sourceName, hsourceName, h⟩ := bind_eq_ok.1 h
    obtain ⟨suggested, hsuggested, h⟩ := bind_eq_ok.1 h
    obtain ⟨suggestedName, hsuggestedName, h⟩ := bind_eq_ok.1 h
    obtain ⟨confidence, hconfidence, h⟩ := bind_eq_ok.1 h
    obtain ⟨alternatives, halternatives, h⟩ := bind_eq_ok.1 h
    obtain ⟨items, hitems, h⟩ := bind_eq_ok.1 h
    obtain ⟨candidates, hcandidates, h⟩ := bind_eq_ok.1 h
    obtain ⟨confirmed, hconfirmed, h⟩ := bind_eq_ok.1 h
    obtain ⟨final, hfinal, h⟩ := bind_eq_ok.1 h
    obtain ⟨ignored, hignored, h⟩ := bind_eq_ok.1 h
    cases h
    exact ⟨hsource, hsourceName, hsuggested, hsuggestedName, bind_eq_ok.1 hconfidence,
      ⟨_, halternatives, bind_eq_ok.2 ⟨_, hitems, hcandidates⟩⟩, ⟨_, hconfirmed, rfl⟩, hfinal,
      ⟨_, hignored, rfl⟩⟩
  · rintro ⟨hsource, hsourceName, hsuggested, hsuggestedName, hconfidence, ⟨v, halternatives, hread⟩,
      ⟨_, hconfirmed, hc⟩, hfinal, ⟨_, hignored, hi⟩⟩
    obtain ⟨cs, hcs, hcandidates⟩ := bind_eq_ok.1 hread
    rw [ofRow, hsource, hsourceName, hsuggested, hsuggestedName,
      show confidenceIn row = .ok m.confidence from bind_eq_ok.2 hconfidence, halternatives, hconfirmed,
      hfinal, hignored]
    simp only [ok_bind, hcs, hcandidates, hc, hi]
    rfl

theorem Reads.lasts {m : TableMapping} (h : Reads row m) (hrow : row.Lasting) : m.Lasts where
  source := hrow.require h.source
  sourceName := lasting_valueIn hrow (.str (by decide +kernel)) h.sourceName
  suggested := hrow.find h.suggested
  suggestedName := lasting_valueIn hrow (.str (by decide +kernel)) h.suggestedName
  alternatives := by
    obtain ⟨v, hv, hread⟩ := h.alternatives
    exact Candidate.lasts_of_readAll (hrow.find hv) hread
  final := hrow.find h.final

/-- A mapping with its parts in order. -/
def inOrder (m : TableMapping) : TableMapping where
  source := m.source.inOrder
  sourceName := m.sourceName.inOrder
  suggested := m.suggested.inOrder
  suggestedName := m.suggestedName.inOrder
  confidence := m.confidence
  alternatives := m.alternatives.map (·.inOrder)
  confirmed := m.confirmed
  final := m.final.inOrder
  ignored := m.ignored

/-- **A row in order is read as the mapping in order.** -/
theorem Reads.inOrder {m : TableMapping} (h : Reads row m) (hrow : row.Lasting) :
    Reads row.inOrder m.inOrder := by
  obtain ⟨confidence, hconfidence, hdouble⟩ := h.confidence
  obtain ⟨alternatives, halternatives, hread⟩ := h.alternatives
  obtain ⟨confirmed, hconfirmed, hc⟩ := h.confirmed
  obtain ⟨ignored, hignored, hi⟩ := h.ignored
  refine ⟨?_, ?_, ?_, ?_, ⟨confidence.inOrder, ?_, confidence_inOrder hdouble⟩,
    ⟨alternatives.inOrder, ?_, Candidate.readAll_inOrder (hrow.find halternatives) hread⟩,
    ⟨confirmed.inOrder, ?_, ?_⟩, ?_, ⟨ignored.inOrder, ?_, ?_⟩⟩
  · rw [Json.require_inOrder hrow, h.source]
    rfl
  · rw [valueIn_inOrder hrow rfl, h.sourceName]
    rfl
  · rw [Json.find_inOrder hrow, h.suggested]
    rfl
  · rw [valueIn_inOrder hrow rfl, h.suggestedName]
    rfl
  · rw [Json.find_inOrder hrow, hconfidence]
    rfl
  · rw [Json.find_inOrder hrow, halternatives]
    rfl
  · rw [Json.find_inOrder hrow, hconfirmed]
    rfl
  · rw [Json.truthy_inOrder]
    exact hc
  · rw [Json.find_inOrder hrow, h.final]
    rfl
  · rw [Json.find_inOrder hrow, hignored]
    rfl
  · rw [Json.truthy_inOrder]
    exact hi

/-- A row in order is read as the same, but for names and alternatives. -/
theorem Reads.exists_inOrder {m : TableMapping} (h : Reads row m) (hrow : row.Lasting)
    (hplain : m.Plain) : ∃ m', Reads row.inOrder m' ∧ m'.Akin m ∧ m'.Plain := by
  have hsource := Json.inOrder_of_isCompound hplain.source
  have hsuggested := Json.inOrder_of_isCompound hplain.suggested
  have hfinal := Json.inOrder_of_isCompound hplain.final
  exact ⟨m.inOrder, h.inOrder hrow, ⟨hsource, hsuggested, rfl, rfl, hfinal, rfl⟩,
    (congrArg Json.isCompound hsource).trans hplain.source,
    (congrArg Json.isCompound hsuggested).trans hplain.suggested,
    (congrArg Json.isCompound hfinal).trans hplain.final⟩

/-- **A mapping is read as it is written**, but for the sign of a confidence of zero. -/
theorem reads_toRow (m : TableMapping) :
    Reads m.toRow { m with confidence := unsigned m.confidence } where
  source := rfl
  sourceName := rfl
  suggested := rfl
  suggestedName := rfl
  confidence := ⟨_, rfl, Store.toDouble_orElse _⟩
  alternatives := ⟨_, rfl, Candidate.readAll_toRow _⟩
  confirmed := ⟨_, rfl, rfl⟩
  final := rfl
  ignored := ⟨_, rfl, rfl⟩

theorem Lasts.toRow {m : TableMapping} (h : m.Lasts) : m.toRow.Lasting := by
  refine Store.lasting_obj ["source_table_id", "source_table_name", "suggested_target_table_id",
    "suggested_target_table_name", "confidence", "alternatives", "confirmed",
    "final_target_table_id", "ignored"] rfl (by decide) (by decide +kernel) ?_
  simp only [List.forall_mem_cons]
  refine ⟨h.source, h.sourceName, h.suggested, h.suggestedName, .float _,
    .arr (List.forall_mem_map.2 fun c hc => (h.alternatives c hc).toRow), .bool _, h.final, .bool _,
    nofun⟩

end TableMapping

/-! ### Mappings of fields -/

namespace FieldMapping

/-- Ids that are no lists or objects. -/
structure Plain (m : FieldMapping) : Prop where
  source : m.source.isCompound = false
  suggested : m.suggested.isCompound = false
  final : m.final.isCompound = false

theorem Plain.target {m : FieldMapping} (h : m.Plain) (hv : m.settled? = some v) :
    v.isCompound = false := by
  unfold settled? at hv
  split at hv
  · exact isCompound_of_target h.final h.suggested hv
  · cases hv

/-- How a mapping is read, part by part. -/
structure Reads (row : Json) (m : FieldMapping) : Prop where
  source : row.require "source_field_id" = .ok m.source
  sourceName : valueIn row "source_field_name" (.str "") = .ok m.sourceName
  sourceTable : row.find "source_table_id" = .ok m.sourceTable
  suggested : row.find "suggested_target_field_id" = .ok m.suggested
  suggestedName : valueIn row "suggested_target_field_name" (.str "") = .ok m.suggestedName
  targetTable : row.find "target_table_id" = .ok m.targetTable
  confidence : ∃ v x, row.find "confidence" = .ok v ∧ (v.orElse (.float 0.0)).toDouble = .ok x ∧
    m.confidence = .float x
  method : ∃ v, row.find "method" = .ok v ∧
    MappingMethod.ofJson (v.orElse (.str "heuristic")) = .ok m.method
  confirmed : ∃ v, row.find "confirmed" = .ok v ∧ v.truthy = m.confirmed
  final : row.find "final_target_field_id" = .ok m.final

theorem ofRow_eq_ok {m : FieldMapping} : ofRow row = .ok m ↔ Reads row m := by
  constructor
  · intro h
    obtain ⟨source, hsource, h⟩ := bind_eq_ok.1 h
    obtain ⟨sourceName, hsourceName, h⟩ := bind_eq_ok.1 h
    obtain ⟨sourceTable, hsourceTable, h⟩ := bind_eq_ok.1 h
    obtain ⟨suggested, hsuggested, h⟩ := bind_eq_ok.1 h
    obtain ⟨suggestedName, hsuggestedName, h⟩ := bind_eq_ok.1 h
    obtain ⟨targetTable, htargetTable, h⟩ := bind_eq_ok.1 h
    obtain ⟨x, hconfidence, h⟩ := bind_eq_ok.1 h
    obtain ⟨method, hmethod, h⟩ := bind_eq_ok.1 h
    obtain ⟨read, hread, h⟩ := bind_eq_ok.1 h
    obtain ⟨confirmed, hconfirmed, h⟩ := bind_eq_ok.1 h
    obtain ⟨final, hfinal, h⟩ := bind_eq_ok.1 h
    obtain ⟨v, hv, hdouble⟩ := bind_eq_ok.1 hconfidence
    cases h
    exact ⟨hsource, hsourceName, hsourceTable, hsuggested, hsuggestedName, htargetTable,
      ⟨v, x, hv, hdouble, rfl⟩, ⟨_, hmethod, hread⟩, ⟨_, hconfirmed, rfl⟩, hfinal⟩
  · rintro ⟨hsource, hsourceName, hsourceTable, hsuggested, hsuggestedName, htargetTable,
      ⟨v, x, hv, hdouble, hx⟩, ⟨_, hmethod, hread⟩, ⟨_, hconfirmed, hc⟩, hfinal⟩
    rw [ofRow, hsource, hsourceName, hsourceTable, hsuggested, hsuggestedName, htargetTable,
      show confidenceIn row = .ok x from bind_eq_ok.2 ⟨v, hv, hdouble⟩, hmethod, hconfirmed, hfinal]
    simp only [ok_bind, hread, hc, ← hx]
    rfl

/-- A value that names a method does so in order, too. -/
theorem method_inOrder {method : MappingMethod}
    (h : MappingMethod.ofJson (v.orElse (.str "heuristic")) = .ok method) :
    MappingMethod.ofJson (v.inOrder.orElse (.str "heuristic")) = .ok method := by
  cases v with
  | arr vs =>
    cases vs with
    | nil => exact h
    | cons v vs => cases h
  | obj ms =>
    cases ms with
    | nil => exact h
    | cons m ms => cases h
  | _ => exact h

/-- **A row in order is read as the same**, as far as ids and flags go. -/
theorem Reads.exists_inOrder {m : FieldMapping} (h : Reads row m) (hrow : row.Lasting)
    (hplain : m.Plain) : ∃ m', Reads row.inOrder m' ∧ m'.source = m.source ∧
      m'.settled? = m.settled? ∧ m'.Plain := by
  obtain ⟨confidence, x, hconfidence, hdouble, hx⟩ := h.confidence
  obtain ⟨method, hmethod, hread⟩ := h.method
  obtain ⟨confirmed, hconfirmed, hc⟩ := h.confirmed
  refine ⟨{ m with
    sourceName := m.sourceName.inOrder
    sourceTable := m.sourceTable.inOrder
    suggestedName := m.suggestedName.inOrder
    targetTable := m.targetTable.inOrder }, ⟨?_, ?_, ?_, ?_, ?_, ?_,
      ⟨confidence.inOrder, x, ?_, confidence_inOrder hdouble, hx⟩,
      ⟨method.inOrder, ?_, method_inOrder hread⟩, ⟨confirmed.inOrder, ?_, ?_⟩, ?_⟩, rfl, rfl,
      hplain.source, hplain.suggested, hplain.final⟩
  · rw [Json.require_inOrder hrow, h.source]
    exact congrArg Except.ok (Json.inOrder_of_isCompound hplain.source)
  · rw [valueIn_inOrder hrow rfl, h.sourceName]
    rfl
  · rw [Json.find_inOrder hrow, h.sourceTable]
    rfl
  · rw [Json.find_inOrder hrow, h.suggested]
    exact congrArg Except.ok (Json.inOrder_of_isCompound hplain.suggested)
  · rw [valueIn_inOrder hrow rfl, h.suggestedName]
    rfl
  · rw [Json.find_inOrder hrow, h.targetTable]
    rfl
  · rw [Json.find_inOrder hrow, hconfidence]
    rfl
  · rw [Json.find_inOrder hrow, hmethod]
    rfl
  · rw [Json.find_inOrder hrow, hconfirmed]
    rfl
  · rw [Json.truthy_inOrder, hc]
  · rw [Json.find_inOrder hrow, h.final]
    exact congrArg Except.ok (Json.inOrder_of_isCompound hplain.final)

/-- **A mapping is read as it is written**, but for the sign of a confidence of zero. -/
theorem reads_toRow (m : TypedField) : Reads m.mapping.toRow m.kept where
  source := rfl
  sourceName := rfl
  sourceTable := rfl
  suggested := rfl
  suggestedName := rfl
  targetTable := rfl
  confidence := ⟨_, _, rfl, Store.toDouble_orElse _, rfl⟩
  method := ⟨_, rfl, by
    show MappingMethod.ofJson ((Json.str m.method.text).orElse (.str "heuristic")) = .ok m.method
    cases m.method <;> rfl⟩
  confirmed := ⟨_, rfl, rfl⟩
  final := rfl

end FieldMapping

/-! ### How both kinds are read -/

namespace Store

/-- How table mappings are read and written. -/
def tableReader : RowReader tableFile TableMapping where
  read := TableMapping.ofRow
  write := TableMapping.toRow
  source := TableMapping.source
  settled? := TableMapping.settled?
  Plain := TableMapping.Plain
  source_plain h := h.source
  target_plain h hv := h.target hv
  keyed h := (TableMapping.ofRow_eq_ok.1 h).source
  inOrder hrow h hplain := by
    obtain ⟨m', hm', hakin, hplain'⟩ := (TableMapping.ofRow_eq_ok.1 h).exists_inOrder hrow hplain
    exact ⟨m', TableMapping.ofRow_eq_ok.2 hm', hakin.source, hakin.settled?_eq, hplain'⟩

/-- How field mappings are read and written. -/
def fieldReader : RowReader fieldFile FieldMapping where
  read := FieldMapping.ofRow
  write := FieldMapping.toRow
  source := FieldMapping.source
  settled? := FieldMapping.settled?
  Plain := FieldMapping.Plain
  source_plain h := h.source
  target_plain h hv := h.target hv
  keyed h := (FieldMapping.ofRow_eq_ok.1 h).source
  inOrder hrow h hplain := by
    obtain ⟨m', hm', hsame⟩ := (FieldMapping.ofRow_eq_ok.1 h).exists_inOrder hrow hplain
    exact ⟨m', FieldMapping.ofRow_eq_ok.2 hm', hsame⟩

theorem lasts_of_fine {m : TableMapping} {row : Json} (h : tableReader.Fine row m) : m.Lasts :=
  (TableMapping.ofRow_eq_ok.1 h.read).lasts h.lasting

/-- A table mapping that lasts can be stored. -/
theorem fit_table {m : TableMapping} (h : m.Lasts) (hplain : m.Plain) : tableReader.Fit m :=
  ⟨{ m with confidence := unsigned m.confidence },
    ⟨h.toRow, TableMapping.ofRow_eq_ok.2 m.reads_toRow,
      ⟨hplain.source, hplain.suggested, hplain.final⟩⟩, rfl, rfl⟩

theorem ShortInt.isCompound_json? (n : Option ShortInt) :
    (ShortInt.json? n).isCompound = false := by
  cases n <;> rfl

/-- A field mapping of the kinds that it should have can be stored. -/
theorem fit_field (m : TypedField) : fieldReader.Fit m.mapping :=
  ⟨m.kept, ⟨lasting_field m, FieldMapping.ofRow_eq_ok.2 (FieldMapping.reads_toRow m),
    ⟨rfl, ShortInt.isCompound_json? _, ShortInt.isCompound_json? _⟩⟩, rfl, rfl⟩

end Store
end CardTransfer
