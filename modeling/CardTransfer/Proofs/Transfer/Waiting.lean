import CardTransfer.Proofs.Json.Entry
import CardTransfer.Proofs.Json.IdOrder
import CardTransfer.Proofs.Store.CardMap
import CardTransfer.Transfer.WaitingArea

/-!
# Bringing the waiting area up to date

The reports of a transfer decide in turn who waits, and the last report about a card counts
(`has_afterwards`). The stored waiting area can be brought up to date with them exactly if it can be
read, all ids can serve as keys and have an order, and nothing stands in the way of the file
(`update_isOk_iff`). That depends on one path of the store alone (`Updatable.congr`).

What is read of the area afterwards are its rows as they are read back from the file, which keeps the ids
but for texts (`exists_map_card`). So of the cards with whole numbers as ids, those are listed then that wait
(`lists_update`). The ids that are listed have an order, and no other things than numbers come in between
(`ids_update`).
-/

namespace CardTransfer
namespace WaitingArea

open Directory (SameAt)

variable {time : String} {ws : List WaitingCard} {reports : List Report} {d d' : Directory}

/-- Where the waiting area is stored. -/
def path : String := Store.statePath stateKey

theorem checkKey_stateKey : Store.checkKey stateKey = .ok stateKey := by
  rw [Store.checkKey, if_pos (by decide +kernel)]

theorem path_not_mem_parents : path ∉ Directory.parents path := by decide +kernel

/-- The cards that wait depend on what is at their path. -/
theorem cards_congr (h : SameAt path d d') : cards d' = cards d := by
  unfold cards
  rw [Store.getState_congr h]

/-! ### Who waits -/

/-- The waiting area after some reports, if the stored rows were of these cards. -/
def afterwards (time : String) (ws : List WaitingCard) (reports : List Report) : WaitingArea :=
  reports.foldl (heed time) (IdMap.ofList (ws.map fun w => (w.card, w)))

/-- The last of some reports about a card. -/
def lastReport? (reports : List Report) (id : Json) : Option Report :=
  (reports.filter fun r => r.card.sameId id).getLast?

/-- **The last report about a card counts**: the card waits if it is one of a failure. A card without
report waits if it did before. -/
theorem has_afterwards (time : String) (ws : List WaitingCard) (reports : List Report) (id : Json) :
    (afterwards time ws reports).has id =
      ((lastReport? reports id).map fun r => !r.ok).getD (ws.any fun w => w.card.sameId id) := by
  induction reports using List.reverseRecOn with
  | nil =>
    rw [Bool.eq_iff_iff]
    change (IdMap.ofList _).has id = true ↔ ws.any _ = true
    rw [IdMap.has_ofList, List.any_eq_true]
    simp [Json.sameId_iff]
  | append_singleton reports r ih =>
    unfold afterwards lastReport? at ih ⊢
    rw [List.foldl_append, List.filter_append, List.filter_cons, List.filter_nil]
    cases hid : r.card.sameId id with
    | true =>
      rw [if_pos rfl, List.getLast?_append, List.getLast?_singleton]
      cases r with
      | transferred t =>
        change (IdMap.erase _ t.card).has id = false
        rw [IdMap.has_erase, show t.card.sameId id = true from hid]
        rfl
      | failed f =>
        change (IdMap.insert _ f.card _).has id = true
        rw [IdMap.has_insert, show f.card.sameId id = true from hid, Bool.true_or]
    | false =>
      rw [if_neg Bool.false_ne_true, List.append_nil, ← ih]
      cases r with
      | transferred t =>
        change (IdMap.erase _ t.card).has id = _
        rw [IdMap.has_erase, show t.card.sameId id = false from hid]
        rfl
      | failed f =>
        change (IdMap.insert _ f.card _).has id = _
        rw [IdMap.has_insert, show f.card.sameId id = false from hid, Bool.false_or]

/-! ### When the update succeeds -/

/-- The stored waiting area can be brought up to date with some reports. -/
structure Updatable (time : String) (reports : List Report) (d : Directory) : Prop where
  /-- The rows can be read, and the ids in them can be keys and have an order with the new ones. -/
  readable : ∃ ws, cards d = .ok ws ∧ (∀ w ∈ ws, w.card.isCompound = false) ∧
    Ids.sortable (IdMap.ids (afterwards time ws reports)) = true
  /-- The ids in the reports can be keys. -/
  keys : ∀ r ∈ reports, r.card.isCompound = false
  /-- Neither is the file a directory, nor is there a file in the place of its folder. -/
  writable : d.isObstructed path = false ∧ d.isDirectory path = false

theorem ofCards_eq_ok {area : WaitingArea} : ofCards ws = .ok area ↔
    (∀ w ∈ ws, w.card.isCompound = false) ∧ area = IdMap.ofList (ws.map fun w => (w.card, w)) := by
  have hpairs {ps : List (Json × WaitingCard)} :
      (ws.mapM fun w => do return (← w.card.asKey, w) : Except Fault _) = .ok ps ↔
        (∀ w ∈ ws, w.card.isCompound = false) ∧ ps = ws.map fun w => (w.card, w) := by
    induction ws generalizing ps with
    | nil =>
      constructor
      · rintro ⟨⟩
        exact ⟨fun _ hw => (nomatch hw), rfl⟩
      · rintro ⟨-, rfl⟩
        rfl
    | cons w ws ih =>
      rw [mapM_cons_eq_ok, List.forall_mem_cons, List.map_cons]
      constructor
      · rintro ⟨p, ps, hp, hps, rfl⟩
        obtain ⟨key, hkey, hp⟩ := bind_eq_ok.1 hp
        cases hp
        obtain ⟨hcompound, rfl⟩ := Json.asKey_eq_ok.1 hkey
        obtain ⟨hall, rfl⟩ := ih.1 hps
        exact ⟨⟨hcompound, hall⟩, rfl⟩
      · rintro ⟨⟨hcompound, hall⟩, rfl⟩
        refine ⟨_, _, bind_eq_ok.2 ⟨_, Json.asKey_eq_ok.2 ⟨hcompound, rfl⟩, rfl⟩, ih.2 ⟨hall, rfl⟩, rfl⟩
  unfold ofCards
  rw [bind_eq_ok]
  constructor
  · rintro ⟨ps, hps, harea⟩
    cases harea
    obtain ⟨hall, rfl⟩ := hpairs.1 hps
    exact ⟨hall, rfl⟩
  · rintro ⟨hall, rfl⟩
    exact ⟨_, hpairs.2 ⟨hall, rfl⟩, rfl⟩

/-- The rows of the cards that wait, in the order of their ids. -/
def waiting (area : WaitingArea) : List WaitingCard :=
  (Ids.sorted (IdMap.ids area)).filterMap (IdMap.get? area)

theorem rows_eq_ok {area : WaitingArea} {v : Json} : rows area = .ok v ↔
    Ids.sortable (IdMap.ids area) = true ∧ v = .arr ((waiting area).map (·.toRow)) := by
  cases hsort : Ids.sortable (IdMap.ids area) with
  | true =>
    have hrows : rows area = .ok (.arr ((waiting area).map (·.toRow))) := by
      unfold rows Ids.sortValues
      rw [Ids.sort_eq_ok hsort]
      rfl
    rw [hrows]
    exact ⟨fun h => ⟨rfl, (Except.ok.inj h).symm⟩, fun h => congrArg Except.ok h.2.symm⟩
  | false =>
    refine ⟨fun h => ?_, fun h => (nomatch h.1)⟩
    unfold rows Ids.sortValues Ids.sort at h
    rw [hsort] at h
    cases h

theorem checkKeys_eq_ok {u : PUnit} : (forIn reports PUnit.unit fun r _ => do
      let _ ← r.card.asKey
      pure (ForInStep.yield PUnit.unit) : Except Fault PUnit) = .ok u ↔
    ∀ r ∈ reports, r.card.isCompound = false := by
  induction reports with
  | nil => exact ⟨fun _ _ hr => (nomatch hr), fun _ => rfl⟩
  | cons r reports ih =>
    rw [List.forIn_cons, List.forall_mem_cons, ← ih, Json.asKey]
    cases r.card.isCompound with
    | true => exact ⟨fun h => (nomatch h), fun h => (nomatch h.1)⟩
    | false => exact ⟨fun h => ⟨rfl, h⟩, fun h => h.2⟩

/-- How the stored waiting area is brought up to date. -/
theorem update_eq_ok : update time reports d = .ok d' ↔ ∃ ws, cards d = .ok ws ∧
    (∀ w ∈ ws, w.card.isCompound = false) ∧ (∀ r ∈ reports, r.card.isCompound = false) ∧
      Ids.sortable (IdMap.ids (afterwards time ws reports)) = true ∧
      Store.setState d stateKey (.arr ((waiting (afterwards time ws reports)).map (·.toRow))) =
        .ok d' := by
  unfold update
  constructor
  · intro h
    obtain ⟨ws, hws, h⟩ := bind_eq_ok.1 h
    obtain ⟨area, harea, h⟩ := bind_eq_ok.1 h
    obtain ⟨u, hkeys, h⟩ := bind_eq_ok.1 h
    obtain ⟨v, hrows, hset⟩ := bind_eq_ok.1 h
    obtain ⟨hcompound, rfl⟩ := ofCards_eq_ok.1 harea
    obtain ⟨hsort, rfl⟩ := rows_eq_ok.1 hrows
    exact ⟨ws, hws, hcompound, checkKeys_eq_ok.1 hkeys, hsort, hset⟩
  · rintro ⟨ws, hws, hcompound, hkeys, hsort, hset⟩
    refine bind_eq_ok.2 ⟨ws, hws, bind_eq_ok.2 ⟨_, ofCards_eq_ok.2 ⟨hcompound, rfl⟩, ?_⟩⟩
    refine bind_eq_ok.2 ⟨⟨⟩, checkKeys_eq_ok.2 hkeys, ?_⟩
    exact bind_eq_ok.2 ⟨_, rows_eq_ok.2 ⟨hsort, rfl⟩, hset⟩

/-- **When the waiting area can be brought up to date.** -/
theorem update_isOk_iff : (∃ d', update time reports d = .ok d') ↔ Updatable time reports d := by
  have hset {v : Json} : (∃ d', Store.setState d stateKey v = .ok d') ↔
      d.isObstructed path = false ∧ d.isDirectory path = false :=
    Store.setState_isOk_iff checkKey_stateKey (by decide +kernel)
  simp only [update_eq_ok]
  constructor
  · rintro ⟨d', ws, hws, hcompound, hkeys, hsort, h⟩
    exact ⟨⟨ws, hws, hcompound, hsort⟩, hkeys, hset.1 ⟨d', h⟩⟩
  · rintro ⟨⟨ws, hws, hcompound, hsort⟩, hkeys, hwritable⟩
    obtain ⟨d', h⟩ := hset.2 hwritable
    exact ⟨d', ws, hws, hcompound, hkeys, hsort, h⟩

/-- Whether it can be depends on its path in the store. -/
theorem Updatable.congr (h : SameAt path d d') : Updatable time reports d' ↔ Updatable time reports d := by
  have hiff : (d'.isObstructed path = false ∧ d'.isDirectory path = false) ↔
      d.isObstructed path = false ∧ d.isDirectory path = false := by
    rw [h.obstructed, h.directory]
  constructor
  · rintro ⟨hreadable, hkeys, hwritable⟩
    rw [cards_congr h] at hreadable
    exact ⟨hreadable, hkeys, hiff.1 hwritable⟩
  · rintro ⟨hreadable, hkeys, hwritable⟩
    rw [← cards_congr h] at hreadable
    exact ⟨hreadable, hkeys, hiff.2 hwritable⟩

/-! ### What is read afterwards -/

/-- Every card stands under its own id, which can be a key. -/
def Keyed (area : WaitingArea) : Prop := ∀ p ∈ area, p.1.key = p.2.card.key ∧ p.2.card.isCompound = false

theorem Keyed.insert {area : WaitingArea} (h : Keyed area) {w : WaitingCard}
    (hw : w.card.isCompound = false) : Keyed (IdMap.insert area w.card w) := by
  intro p hp
  rcases IdMap.mem_of_mem_insert hp with ⟨hkey, hv⟩ | hp
  · rw [hv]
    exact ⟨hkey, hw⟩
  · exact h p hp

theorem keyed_ofList (hws : ∀ w ∈ ws, w.card.isCompound = false) :
    Keyed (IdMap.ofList (ws.map fun w => (w.card, w))) := by
  induction ws using List.reverseRecOn with
  | nil => exact List.forall_mem_nil _
  | append_singleton ws w ih =>
    rw [List.forall_mem_append, List.forall_mem_singleton] at hws
    unfold IdMap.ofList at ih ⊢
    rw [List.map_append, List.foldl_append]
    exact (ih hws.1).insert hws.2

theorem keyed_afterwards (hws : ∀ w ∈ ws, w.card.isCompound = false)
    (hreports : ∀ r ∈ reports, r.card.isCompound = false) : Keyed (afterwards time ws reports) := by
  induction reports using List.reverseRecOn with
  | nil => exact keyed_ofList hws
  | append_singleton reports r ih =>
    rw [List.forall_mem_append, List.forall_mem_singleton] at hreports
    unfold afterwards at ih ⊢
    rw [List.foldl_append]
    cases r with
    | transferred t => exact fun p hp => ih hreports.1 p (List.mem_filter.1 hp).1
    | failed f => exact (ih hreports.1).insert (w := .ofFailure time f) hreports.2

theorem exists_mem_of_mem_waiting {area : WaitingArea} {w : WaitingCard} (hw : w ∈ waiting area) :
    ∃ p ∈ area, p.2 = w := by
  obtain ⟨a, -, hw⟩ := List.mem_filterMap.1 hw
  obtain ⟨p, hp, -, hvalue⟩ := IdMap.exists_mem_of_get? hw
  exact ⟨p, hp, hvalue⟩

/-- A card that waits stands under an id of the area. -/
theorem Keyed.exists_id {area : WaitingArea} (h : Keyed area) {w : WaitingCard} (hw : w ∈ waiting area) :
    w.card.isCompound = false ∧ ∃ a ∈ IdMap.ids area, a.key = w.card.key := by
  obtain ⟨p, hp, rfl⟩ := exists_mem_of_mem_waiting hw
  exact ⟨(h p hp).2, p.1, List.mem_map_of_mem hp, (h p hp).1⟩

/-- A card is among those that wait if its id has one. -/
theorem exists_waiting_iff {area : WaitingArea} (h : Keyed area) {id : Json} :
    (∃ w ∈ waiting area, w.card.key = id.key) ↔ IdMap.has area id = true := by
  rw [← IdMap.has_ids, Ids.has_iff]
  constructor
  · rintro ⟨w, hw, hid⟩
    obtain ⟨-, a, ha, hkey⟩ := h.exists_id hw
    exact ⟨a, ha, hkey.trans hid⟩
  · rintro ⟨a, ha, hid⟩
    obtain ⟨w, hw⟩ := IdMap.has_eq_true.1 (IdMap.has_ids.symm.trans (Ids.has_of_mem ha))
    obtain ⟨p, hp, hpa, rfl⟩ := IdMap.exists_mem_of_get? hw
    refine ⟨p.2, List.mem_filterMap.2 ⟨a, Ids.mem_sorted.2 ha, hw⟩, (h p hp).1.symm.trans ?_⟩
    exact ((Json.sameId_iff _ _).1 hpa).trans hid

/-- The cards that wait have an order if their ids in the area have one. -/
theorem Keyed.sortable {area : WaitingArea} (h : Keyed area) (hsort : Ids.sortable (IdMap.ids area) = true) :
    Ids.sortable ((waiting area).map (·.card)) = true := by
  refine Ids.sortable_of hsort ?_ fun b hb => ?_
  · rw [List.length_map, ← Ids.length_sorted (IdMap.ids area)]
    exact List.length_filterMap_le ..
  · obtain ⟨w, hw, rfl⟩ := List.mem_map.1 hb
    obtain ⟨-, a, ha, hkey⟩ := h.exists_id hw
    exact ⟨a, ha, by rw [Json.isSome_number?_congr hkey]; exact id, by rw [Json.str?_congr hkey]; exact id⟩

/-- A card that waits after some reports did before, or is one of a failure. -/
theorem of_mem_afterwards {p : Json × WaitingCard} (hp : p ∈ afterwards time ws reports) :
    p.2 ∈ ws ∨ ∃ f, .failed f ∈ reports ∧ p.2.card = f.card := by
  induction reports using List.reverseRecOn with
  | nil =>
    obtain ⟨q, hq, -, hvalue⟩ := IdMap.exists_of_mem_ofList hp
    obtain ⟨w, hw, rfl⟩ := List.mem_map.1 hq
    rw [hvalue]
    exact .inl hw
  | append_singleton reports r ih =>
    have hmore (h : p.2 ∈ ws ∨ ∃ f, .failed f ∈ reports ∧ p.2.card = f.card) :
        p.2 ∈ ws ∨ ∃ f, .failed f ∈ reports ++ [r] ∧ p.2.card = f.card :=
      h.imp_right fun ⟨f, hf, hcard⟩ => ⟨f, List.mem_append_left _ hf, hcard⟩
    unfold afterwards at ih hp
    rw [List.foldl_append] at hp
    cases r with
    | transferred t => exact hmore (ih (List.mem_filter.1 hp).1)
    | failed f =>
      rcases IdMap.mem_of_mem_insert hp with ⟨-, hvalue⟩ | hp
      · exact .inr ⟨f, List.mem_append_right _ (List.mem_singleton_self _), by rw [hvalue]; rfl⟩
      · exact hmore (ih hp)

theorem get?_of_ofRow {ms : Members} {w : WaitingCard} (h : WaitingCard.ofRow (.obj ms) = .ok w) :
    Members.get? ms "card_id" = some w.card := by
  unfold WaitingCard.ofRow at h
  simp only at h
  split at h
  · cases h
  · obtain ⟨card, hcard, h⟩ := bind_eq_ok.1 h
    obtain ⟨name, -, h⟩ := bind_eq_ok.1 h
    obtain ⟨kind, -, h⟩ := bind_eq_ok.1 h
    obtain ⟨reason, -, h⟩ := bind_eq_ok.1 h
    cases h
    unfold WaitingCard.need at hcard
    split at hcard
    · rename_i v hv
      cases hcard
      exact hv
    · cases hcard

/-- A row that is read back names what the id of the card for which it was written is read as. -/
theorem card_of_reread {style : Json.Style} {w w' : WaitingCard} {v : Json}
    (hread : w.toRow.reread? style = .ok v) (hrow : WaitingCard.ofRow v = .ok w') :
    w.card.reread? style = .ok w'.card := by
  have hkeys : ∀ k ∈ WaitingCard.required ++ WaitingCard.optional, Json.rereadText k = k := by decide
  have hnodup : (WaitingCard.required ++ WaitingCard.optional).Nodup := by decide
  obtain ⟨ms, hms, hparts, hcard⟩ : ∃ ms, w.toRow = .obj ms ∧
      ms.map (·.1) = WaitingCard.required ++ WaitingCard.optional ∧
      Members.get? ms "card_id" = some w.card := ⟨_, rfl, rfl, rfl⟩
  rw [← hparts] at hkeys hnodup
  rw [hms, Json.reread?_obj] at hread
  obtain ⟨ps, hps, rfl⟩ := map_eq_ok.1 hread
  have hself := hkeys "card_id" (by rw [hparts]; decide)
  -- no other part of the row is read under this key
  have hunique (u : Json) (hu : ("card_id", u) ∈ ps) : w.card.reread? style = .ok u := by
    obtain ⟨p, hp, hpu⟩ := mem_of_mapM hps hu
    obtain ⟨u', hu', hpu⟩ := map_eq_ok.1 hpu
    obtain ⟨hkey, rfl⟩ := Prod.mk.inj hpu
    have hmem : p ∈ ms := Json.mem_arrange.1 hp
    rw [hkeys p.1 (List.mem_map_of_mem hmem)] at hkey
    have hget := (Members.get?_eq_some_iff hnodup).2 hmem
    rw [hkey, hcard] at hget
    rw [Option.some.inj hget]
    exact hu'
  obtain ⟨p, hp, hpu⟩ := exists_of_mapM hps (Json.mem_arrange.2 (Members.mem_of_get? hcard))
  obtain ⟨u, hu, rfl⟩ := map_eq_ok.1 hpu
  rw [hself] at hp
  have hget := Members.get?_ofList (fun u' hu' => Except.ok.inj ((hunique u' hu').symm.trans hu)) hp
  rw [get?_of_ofRow hrow] at hget
  rw [Option.some.inj hget]
  exact hu

/-- The cards of rows that are read back are those for which they were written, as they are read back. -/
theorem map_card_of_reread {style : Json.Style} {ws ws' : List WaitingCard} {vs : List Json}
    (hread : (ws.map (·.toRow)).mapM (Json.reread? style) = .ok vs)
    (hrows : vs.mapM WaitingCard.ofRow = .ok ws') :
    (ws.map (·.card)).mapM (Json.reread? style) = .ok (ws'.map (·.card)) := by
  induction ws generalizing vs ws' with
  | nil =>
    cases hread
    cases hrows
    rfl
  | cons w ws ih =>
    obtain ⟨v, vs, hv, hvs, rfl⟩ := mapM_cons_eq_ok.1 hread
    obtain ⟨w', ws', hw', hws', rfl⟩ := mapM_cons_eq_ok.1 hrows
    exact mapM_cons_eq_ok.2 ⟨w'.card, ws'.map (·.card), card_of_reread hv hw', ih hvs hws', rfl⟩

/-- The cards that are read of an area that was stored, if its rows can be read. -/
def reread? (area : WaitingArea) : Option (List WaitingCard) := do
  let rows ← (((waiting area).map (·.toRow)).mapM (Json.reread? .file)).toOption
  (rows.mapM WaitingCard.ofRow).toOption

theorem cards_setState {area : WaitingArea}
    (h : Store.setState d stateKey (.arr ((waiting area).map (·.toRow))) = .ok d') :
    (cards d').toOption = reread? area := by
  unfold cards reread?
  rw [Store.getState_setState checkKey_stateKey path_not_mem_parents h, Json.reread?,
    Json.rereadItems_eq_mapM]
  cases ((waiting area).map (·.toRow)).mapM (Json.reread? .file) with
  | error f => rfl
  | ok rows => cases rows <;> rfl

/-- The cards that are read after an update, if they can be read. -/
def next? (time : String) (reports : List Report) (d : Directory) : Option (List WaitingCard) := do
  let ws ← (cards d).toOption
  reread? (afterwards time ws reports)

theorem cards_update (h : update time reports d = .ok d') :
    (cards d').toOption = next? time reports d := by
  obtain ⟨ws, hws, -, -, -, hset⟩ := update_eq_ok.1 h
  rw [cards_setState hset, next?, hws]
  rfl

/-- The stored waiting area has a row for a card. -/
def Lists (d : Directory) (id : Json) : Prop :=
  ∃ ws, cards d = .ok ws ∧ ∃ w ∈ ws, w.card.key = id.key

instance {id : Json} : Decidable (Lists d id) :=
  decidable_of_iff ((cards d).toOption.any (·.any fun w => w.card.key == id.key) = true) <| by
    unfold Lists
    cases cards d <;> simp [Except.toOption]

/-- Rows for cards whose ids can be keys and have an order. -/
structure Sortable (ws : List WaitingCard) : Prop where
  keys : ∀ w ∈ ws, w.card.isCompound = false
  order : Ids.sortable (ws.map (·.card)) = true

/-- **The rows that are read after an update** are for the cards that wait then, with their ids as they are
read back. -/
theorem exists_map_card (h : update time reports d = .ok d') (hread : ∃ ws, cards d' = .ok ws) :
    ∃ ws ws', cards d = .ok ws ∧ cards d' = .ok ws' ∧ Keyed (afterwards time ws reports) ∧ Sortable ws' ∧
      ((waiting (afterwards time ws reports)).map (·.card)).mapM (Json.reread? .file) =
        .ok (ws'.map (·.card)) := by
  obtain ⟨ws, hws, hcompound, hkeys, hsort, hset⟩ := update_eq_ok.1 h
  obtain ⟨ws', hws'⟩ := hread
  have hkeyed : Keyed (afterwards time ws reports) := keyed_afterwards hcompound hkeys
  have hreread := cards_setState hset
  rw [hws'] at hreread
  obtain ⟨rows, hrows, hcards⟩ := Option.bind_eq_some_iff.1 hreread.symm
  have hids := map_card_of_reread (eq_ok_of_toOption hrows) (eq_ok_of_toOption hcards)
  have hsimple (a : Json) (ha : a ∈ (waiting (afterwards time ws reports)).map (·.card)) :
      a.isCompound = false := by
    obtain ⟨w, hw, rfl⟩ := List.mem_map.1 ha
    exact (hkeyed.exists_id hw).1
  refine ⟨ws, ws', hws, hws', hkeyed, ⟨fun w' hw' => ?_, ?_⟩, hids⟩
  · obtain ⟨a, ha, hab⟩ := mem_of_mapM hids (List.mem_map_of_mem hw')
    exact Json.isCompound_of_reread (hsimple a ha) hab
  · exact Ids.sortable_of_reread (hkeyed.sortable hsort) hsimple hids

/-- **Who is listed after an update**, of the cards with whole numbers as ids: those whose last report is one
of a failure, and those that were listed before and have no report. -/
theorem lists_update (h : update time reports d = .ok d') (hread : ∃ ws, cards d' = .ok ws) {id : Json}
    {n : Int} (hid : id.key = .whole n) :
    Lists d' id ↔ (lastReport? reports id).elim (Lists d id) fun r => r.ok = false := by
  obtain ⟨ws, ws', hws, hws', hkeyed, -, hcards⟩ := exists_map_card h hread
  have hlists {d : Directory} {ws : List WaitingCard} (h : cards d = .ok ws) :
      Lists d id ↔ ∃ a ∈ ws.map (·.card), a.key = id.key := by
    unfold Lists
    simp [h]
  have hreread : (∃ a ∈ ws'.map (·.card), a.key = id.key) ↔
      ∃ a ∈ (waiting (afterwards time ws reports)).map (·.card), a.key = id.key := by
    have hkey {a b : Json} (ha : a ∈ (waiting (afterwards time ws reports)).map (·.card))
        (hab : a.reread? .file = .ok b) : b.key = id.key ↔ a.key = id.key := by
      obtain ⟨w, hw, rfl⟩ := List.mem_map.1 ha
      rw [hid]
      exact Json.key_iff_of_reread (hkeyed.exists_id hw).1 hab
    constructor
    · rintro ⟨b, hb, hk⟩
      obtain ⟨a, ha, hab⟩ := mem_of_mapM hcards hb
      exact ⟨a, ha, (hkey ha hab).1 hk⟩
    · rintro ⟨a, ha, hk⟩
      obtain ⟨b, hb, hab⟩ := exists_of_mapM hcards ha
      exact ⟨b, hb, (hkey ha hab).2 hk⟩
  have hafter : Lists d' id ↔ IdMap.has (afterwards time ws reports) id = true := by
    rw [hlists hws', hreread, ← exists_waiting_iff hkeyed]
    simp
  have hbefore : Lists d id ↔ (ws.any fun w => w.card.sameId id) = true := by
    rw [hlists hws, List.any_eq_true]
    simp [Json.sameId_iff]
  rw [hafter, has_afterwards]
  cases lastReport? reports id with
  | none => exact hbefore.symm
  | some r => simp

/-- The ids that are listed after an update have an order, and are numbers if those were that were listed
before and those in the reports. -/
theorem ids_update (h : update time reports d = .ok d') {ws' : List WaitingCard} (hws' : cards d' = .ok ws') :
    Sortable ws' ∧ ∃ ws, cards d = .ok ws ∧
      ((∀ w ∈ ws, w.card.number?.isSome = true) → (∀ r ∈ reports, r.card.number?.isSome = true) →
        ∀ w' ∈ ws', w'.card.number?.isSome = true) := by
  obtain ⟨ws, ws'', hws, hws'', hkeyed, hsort, hcards⟩ := exists_map_card h ⟨ws', hws'⟩
  obtain rfl := Except.ok.inj (hws''.symm.trans hws')
  refine ⟨hsort, ws, hws, fun hbefore hreports w' hw' => ?_⟩
  obtain ⟨a, ha, hab⟩ := mem_of_mapM hcards (List.mem_map_of_mem hw')
  obtain ⟨w, hw, rfl⟩ := List.mem_map.1 ha
  rw [Json.isSome_number?_of_reread (hkeyed.exists_id hw).1 hab]
  obtain ⟨p, hp, rfl⟩ := exists_mem_of_mem_waiting hw
  rcases of_mem_afterwards hp with hold | ⟨f, hf, hcard⟩
  · exact hbefore _ hold
  · rw [hcard]
    exact hreports _ hf

end WaitingArea
end CardTransfer
