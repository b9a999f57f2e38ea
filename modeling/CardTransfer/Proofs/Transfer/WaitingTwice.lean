import CardTransfer.Proofs.Json.Lasting
import CardTransfer.Proofs.Transfer.Waiting

/-!
# Bringing the waiting area up to date twice

When a waiting area is brought up to date with reports and then with a success of a card that does not
wait, the second update writes the file as it is (`update_again`). What has to be shown is that rows read
back are in the order in which they were written, that no two of them are for one card, and that each is
written in the same way again.

The first holds because ids that are not compound compare by their keys alone (`Json.order?_congr`): it does
not matter that the rows were put in order by the spelling under which a card first stood in the area. The
last holds of rows that last (`exists_reread`).
-/

namespace CardTransfer

/-! ### Rows that last -/

namespace Json

/-- What is not compound is read back as it was written if it lasts. -/
theorem reread?_of_isCompound {a : Json} (ha : a.isCompound = false) (h : Lasting a) (style : Style) :
    reread? style a = .ok a := by
  cases h with
  | int short => rw [reread?, if_neg (Nat.not_lt.2 short)]
  | float x => rw [reread?, rereadFloat_eq_self]
  | str same => rw [reread?, same]
  | arr items => cases ha
  | obj once keys values => cases ha
  | _ => rfl

end Json

/-- A card that waits, in a row that lasts, under an id that is not compound. -/
structure WaitingCard.Lasting (w : WaitingCard) : Prop where
  row : w.toRow.Lasting
  id : w.card.isCompound = false

/-- The parts of a row in the order in which they are written. -/
theorem arrange_row {α : Type} (card name kind reason missing time : α) :
    Json.Style.file.arrange [("card_id", card), ("card_name", name), ("kind", kind), ("reason", reason),
      ("missing_tables", missing), ("timestamp", time)] = [("card_id", card), ("card_name", name),
        ("kind", kind), ("missing_tables", missing), ("reason", reason), ("timestamp", time)] := by
  simp only [Json.Style.arrange, Json.Style.file, if_true, Sorting.sort, List.foldr_cons, List.foldr_nil,
    Sorting.place, String.reduceLT, decide_true, decide_false, Bool.not_true, Bool.not_false, Bool.false_eq_true,
    if_false]

/-- **A row that lasts is read back as one for the same card, which is written in the same way.** -/
theorem WaitingCard.Lasting.exists_reread {w : WaitingCard} (h : w.Lasting) :
    ∃ v w', w.toRow.reread? .file = .ok v ∧ ofRow v = .ok w' ∧ w'.card = w.card ∧
      ∀ depth, Json.writeAt .file depth w'.toRow = Json.writeAt .file depth w.toRow := by
  obtain ⟨hrow, hid⟩ := h
  cases hrow with | obj once keys values =>
  simp only [List.forall_mem_cons] at keys values
  obtain ⟨kcard, kname, kkind, kreason, kmissing, ktime, -⟩ := keys
  obtain ⟨hcard, hname, hkind, hreason, hmissing, htime, -⟩ := values
  obtain ⟨name, rname, wname⟩ := hname.exists_reread .file
  obtain ⟨kind, rkind, wkind⟩ := hkind.exists_reread .file
  obtain ⟨reason, rreason, wreason⟩ := hreason.exists_reread .file
  obtain ⟨missing, rmissing, wmissing⟩ := hmissing.exists_reread .file
  obtain ⟨time, rtime, wtime⟩ := htime.exists_reread .file
  have rcard := Json.reread?_of_isCompound hid hcard .file
  refine ⟨.obj [("card_id", w.card), ("card_name", name), ("kind", kind), ("missing_tables", missing),
    ("reason", reason), ("timestamp", time)], ⟨w.card, name, kind, reason, missing, time⟩, ?_, rfl, rfl,
    fun depth => ?_⟩
  · unfold toRow
    rw [Json.reread?_obj, arrange_row]
    simp only [List.mapM_cons, List.mapM_nil, rcard, rname, rkind, rreason, rmissing, rtime, kcard,
      kname, kkind, kreason, kmissing, ktime]
    rfl
  · unfold toRow
    simp only [Json.writeAt, Json.writeMembers, wname, wkind, wreason, wmissing, wtime]

/-! ### Areas that last -/

namespace WaitingArea

variable {time time' : String} {ws : List WaitingCard} {reports : List Report} {d d' : Directory}
  {area : WaitingArea}

/-- Each card stands once, under an id of its own that is not compound, in a row that lasts. -/
structure Lasting (area : WaitingArea) : Prop where
  once : (IdMap.keys area).Nodup
  ids : ∀ a ∈ area.map (·.1), a.isCompound = false
  rows : ∀ p ∈ area, p.2.Lasting ∧ p.1.key = p.2.card.key

theorem Lasting.insert (h : area.Lasting) {w : WaitingCard} (hw : w.Lasting) :
    Lasting (IdMap.insert area w.card w) where
  once := IdMap.nodup_insert h.once
  ids := by
    rcases IdMap.map_fst_insert_cases area w.card w with hsame | ⟨-, hmore⟩
    · rw [hsame]
      exact h.ids
    · rw [hmore]
      exact List.forall_mem_append.2 ⟨h.ids, List.forall_mem_singleton.2 hw.id⟩
  rows p hp := by
    rcases IdMap.mem_of_mem_insert hp with ⟨hkey, hv⟩ | hp
    · rw [hv]
      exact ⟨hw, hkey⟩
    · exact h.rows p hp

theorem Lasting.erase (h : area.Lasting) (id : Json) : Lasting (IdMap.erase area id) where
  once := IdMap.nodup_erase h.once
  ids a ha := h.ids a ((List.filter_sublist.map _).subset ha)
  rows p hp := h.rows p (List.mem_filter.1 hp).1

theorem lasting_ofList (hws : ∀ w ∈ ws, w.Lasting) :
    Lasting (IdMap.ofList (ws.map fun w => (w.card, w))) := by
  induction ws using List.reverseRecOn with
  | nil => exact ⟨List.nodup_nil, List.forall_mem_nil _, List.forall_mem_nil _⟩
  | append_singleton ws w ih =>
    rw [List.forall_mem_append, List.forall_mem_singleton] at hws
    unfold IdMap.ofList at ih ⊢
    rw [List.map_append, List.foldl_append]
    exact (ih hws.1).insert hws.2

/-- An area lasts after reports if the stored rows and those of the reports do. -/
theorem lasting_afterwards (hws : ∀ w ∈ ws, w.Lasting)
    (hreports : ∀ f, .failed f ∈ reports → (WaitingCard.ofFailure time f).Lasting) :
    Lasting (afterwards time ws reports) := by
  induction reports using List.reverseRecOn with
  | nil => exact lasting_ofList hws
  | append_singleton reports r ih =>
    have hbefore := ih fun f hf => hreports f (List.mem_append_left _ hf)
    unfold afterwards at hbefore ⊢
    rw [List.foldl_append]
    cases r with
    | transferred t => exact hbefore.erase t.card
    | failed f => exact hbefore.insert (hreports f (List.mem_append_right _ (List.mem_singleton_self _)))

/-- A card that waits under an id. -/
structure Under (id : Json) (w : WaitingCard) : Prop where
  simple : id.isCompound = false
  row : w.Lasting
  key : id.key = w.card.key

theorem Lasting.under (h : area.Lasting) {p : Json × WaitingCard} (hp : p ∈ area) : Under p.1 p.2 :=
  ⟨h.ids _ (List.mem_map_of_mem hp), (h.rows p hp).1, (h.rows p hp).2⟩

/-- The cards that wait, each under its id, in the order of the ids. -/
theorem Lasting.under_waiting (h : area.Lasting) :
    List.Forall₂ Under (Ids.sorted (IdMap.ids area)) (waiting area) := by
  have hall {as : Ids} (has : ∀ a ∈ as, ∃ w, IdMap.get? area a = some w ∧ Under a w) :
      List.Forall₂ Under as (as.filterMap (IdMap.get? area)) := by
    induction as with
    | nil => exact .nil
    | cons a as ih =>
      rw [List.forall_mem_cons] at has
      obtain ⟨⟨w, hw, hunder⟩, has⟩ := has
      rw [List.filterMap_cons_some hw]
      exact .cons hunder (ih has)
  refine hall fun a ha => ?_
  obtain ⟨p, hp, rfl⟩ := List.mem_map.1 (Ids.mem_sorted.1 ha)
  exact ⟨p.2, IdMap.get?_of_mem h.once hp, h.under hp⟩

/-- Ids may be spelled as in the rows. -/
theorem isChain_of_under {as : Ids} {ws : List WaitingCard} (h : List.Forall₂ Under as ws)
    (hchain : as.IsChain fun a b => Ids.le a b = true) :
    (ws.map (·.card)).IsChain fun a b => Ids.le a b = true := by
  induction h with
  | nil => exact .nil
  | @cons a w as ws ha has ih =>
    have htail := ih hchain.tail
    cases has with
    | nil => exact .singleton _
    | @cons b v as ws hb has =>
      have hle := (List.isChain_cons_cons.1 hchain).1
      unfold Ids.le at hle
      rw [Json.order?_congr ha.simple ha.row.id ha.key hb.key] at hle
      exact .cons_cons hle htail

/-- The rows of the cards that wait are read back as rows for the same cards, each written in the same
way again. -/
theorem exists_reread_rows (h : ∀ w ∈ ws, w.Lasting) : ∃ rows ws',
    (ws.map (·.toRow)).mapM (Json.reread? .file) = .ok rows ∧ rows.mapM WaitingCard.ofRow = .ok ws' ∧
      ws'.map (·.card) = ws.map (·.card) ∧ ∀ depth,
        (ws'.map (·.toRow)).map (Json.writeAt .file depth) =
          (ws.map (·.toRow)).map (Json.writeAt .file depth) := by
  induction ws with
  | nil => exact ⟨[], [], rfl, rfl, rfl, fun _ => rfl⟩
  | cons w ws ih =>
    rw [List.forall_mem_cons] at h
    obtain ⟨v, w', hread, hrow, hcard, hwrite⟩ := h.1.exists_reread
    obtain ⟨rows, ws', hreads, hrows, hcards, hwrites⟩ := ih h.2
    refine ⟨v :: rows, w' :: ws', mapM_cons_eq_ok.2 ⟨v, rows, hread, hreads, rfl⟩,
      mapM_cons_eq_ok.2 ⟨w', ws', hrow, hrows, rfl⟩, ?_, fun depth => ?_⟩
    · rw [List.map_cons, List.map_cons, hcard, hcards]
    · rw [List.map_cons, List.map_cons, List.map_cons, List.map_cons, hwrite, hwrites]

/-- Each card that waits does so under an id. -/
theorem Lasting.exists_under (h : area.Lasting) {w : WaitingCard} (hw : w ∈ waiting area) :
    ∃ a ∈ IdMap.ids area, Under a w := by
  obtain ⟨a, -, hget⟩ := List.mem_filterMap.1 hw
  obtain ⟨p, hp, -, rfl⟩ := IdMap.exists_mem_of_get? hget
  exact ⟨p.1, List.mem_map_of_mem hp, h.under hp⟩

theorem Lasting.keyed (h : area.Lasting) : Keyed area := fun p hp =>
  ⟨(h.rows p hp).2, (h.rows p hp).1.id⟩

/-- The ids of the cards that wait are in order, and no card waits twice. -/
theorem Lasting.isChain_waiting (h : area.Lasting) :
    ((waiting area).map (·.card)).IsChain (fun a b => Ids.le a b = true) ∧
      ((waiting area).map (·.card.key)).Nodup := by
  have hchain : (Ids.sorted (IdMap.ids area)).IsChain fun a b => Ids.le a b = true := Ids.isChain_sorted h.ids
  refine ⟨isChain_of_under h.under_waiting hchain, ?_⟩
  have hkeys {as : Ids} {ws : List WaitingCard} (h : List.Forall₂ Under as ws) :
      ws.map (·.card.key) = as.map Json.key := by
    induction h with
    | nil => rfl
    | cons ha _ ih => rw [List.map_cons, List.map_cons, ih, ha.key]
  have honce := h.once
  rw [IdMap.keys_eq] at honce
  rw [hkeys h.under_waiting]
  exact (((Sorting.sort_perm _ _).map _).nodup_iff).2 honce

/-- Rows for cards in order, no two for one card, make an area of just these rows. -/
theorem waiting_ofList (hchain : (ws.map (·.card)).IsChain fun a b => Ids.le a b = true)
    (honce : (ws.map (·.card.key)).Nodup) :
    IdMap.ids (IdMap.ofList (ws.map fun w => (w.card, w))) = ws.map (·.card) ∧
      waiting (IdMap.ofList (ws.map fun w => (w.card, w))) = ws := by
  have hids : IdMap.ids (ws.map fun w => (w.card, w)) = ws.map (·.card) := by
    unfold IdMap.ids
    rw [List.map_map]
    rfl
  have hkeys : (IdMap.keys (ws.map fun w => (w.card, w))).Nodup := by
    unfold IdMap.keys
    rw [List.map_map]
    exact honce
  unfold waiting
  rw [IdMap.ofList_eq_self hkeys, hids, Ids.sorted, Sorting.sort_eq_self hchain, List.filterMap_map]
  refine ⟨rfl, (List.filterMap_congr fun w hw => ?_).trans List.filterMap_some⟩
  exact IdMap.get?_of_mem hkeys (List.mem_map_of_mem hw)

/-- **The second update changes nothing**: a store that was brought up to date with reports stays as it
is when a success of a card is reported that does not wait. The stored rows and those of the reports must
last. -/
theorem update_again (h : update time reports d = .ok d')
    (hrows : ∀ ws, cards d = .ok ws → ∀ w ∈ ws, w.toRow.Lasting)
    (hreports : ∀ f, .failed f ∈ reports → (WaitingCard.ofFailure time f).toRow.Lasting) {t : Transferred}
    (hcompound : t.card.isCompound = false) {r : Report} (hlast : lastReport? reports t.card = some r)
    (hok : r.ok = true) : update time' [.transferred t] d' = .ok d' := by
  obtain ⟨ws, hws, hsimple, hsimple', hsort, hset⟩ := update_eq_ok.1 h
  have hlasting := lasting_afterwards (fun w hw => ⟨hrows ws hws w hw, hsimple w hw⟩)
    fun f hf => ⟨hreports f hf, hsimple' _ hf⟩
  have hgone : (afterwards time ws reports).has t.card = false := by
    rw [has_afterwards, hlast, Option.map_some, hok]
    rfl
  generalize afterwards time ws reports = area at hsort hset hlasting hgone
  obtain ⟨hchain, honce⟩ := hlasting.isChain_waiting
  have hrow {w : WaitingCard} (hw : w ∈ waiting area) : w.Lasting := by
    obtain ⟨a, -, hunder⟩ := hlasting.exists_under hw
    exact hunder.row
  obtain ⟨rows, ws', hread, hrows', hcard, hwrite⟩ := exists_reread_rows fun w hw => hrow hw
  have hcards : cards d' = .ok ws' := by
    refine eq_ok_of_toOption ?_
    rw [cards_setState hset, reread?, hread]
    change (rows.mapM WaitingCard.ofRow).toOption = _
    rw [hrows']
    rfl
  have hkey : ws'.map (·.card.key) = (waiting area).map (·.card.key) := by
    have hmap := congrArg (List.map Json.key) hcard
    rwa [List.map_map, List.map_map] at hmap
  rw [← hcard] at hchain
  rw [← hkey] at honce
  obtain ⟨hids, hsame⟩ := waiting_ofList hchain honce
  have hnone : IdMap.has (IdMap.ofList (ws'.map fun w => (w.card, w))) t.card = false := by
    rw [Bool.eq_false_iff, Ne, IdMap.has_ofList]
    rintro ⟨p, hp, hid⟩
    obtain ⟨w', hw', rfl⟩ := List.mem_map.1 hp
    have hmem : w'.card.key ∈ (waiting area).map (·.card.key) := hkey ▸ List.mem_map_of_mem hw'
    obtain ⟨w, hw, hkw⟩ := List.mem_map.1 hmem
    obtain ⟨a, ha, hunder⟩ := hlasting.exists_under hw
    obtain ⟨q, hq, rfl⟩ := List.mem_map.1 ha
    rw [IdMap.has_iff.2 ⟨q, hq, hunder.key.trans (hkw.trans hid)⟩] at hgone
    cases hgone
  have hafter : afterwards time' ws' [.transferred t] = IdMap.ofList (ws'.map fun w => (w.card, w)) :=
    IdMap.erase_eq_self hnone
  refine update_eq_ok.2 ⟨ws', hcards, fun w' hw' => ?_, List.forall_mem_singleton.2 hcompound, ?_, ?_⟩
  · have hmem : w'.card ∈ (waiting area).map (·.card) := hcard ▸ List.mem_map_of_mem hw'
    obtain ⟨w, hw, hcw⟩ := List.mem_map.1 hmem
    rw [← hcw]
    exact (hrow hw).id
  · rw [hafter, hids, hcard]
    exact hlasting.keyed.sortable hsort
  · rw [hafter, hsame]
    unfold Store.setState at hset ⊢
    rw [checkKey_stateKey, ok_bind] at hset ⊢
    have htext : Json.write .file (.arr (ws'.map (·.toRow))) =
        Json.write .file (.arr ((waiting area).map (·.toRow))) := by
      unfold Json.write
      rw [Json.writeAt, Json.writeAt, Json.writeItems_eq_map, Json.writeItems_eq_map, hwrite]
    unfold Directory.writeJson at hset ⊢
    rw [htext]
    exact Directory.write_again hset path_not_mem_parents

end WaitingArea
end CardTransfer
