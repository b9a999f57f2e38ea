import CardTransfer.Proofs.Json.Lasting
import CardTransfer.Proofs.Transfer.States

/-!
# The list of cards on hold

The list is made of the cards that the listing shows to be on hold, and of those that were on the list
before, unless the listing shows that they have been transferred or are ready (`has_heldNow`). A listing
shows nothing of a card that is not in it. So a card that has been transferred leaves the list exactly if it
is among the listed cards of the source database (`transferred_on_hold_iff`): one that was put on hold, was
transferred and is no longer listed stays on hold (`unlisted_stays_held`).
-/

namespace CardTransfer
namespace Session

variable {s t : Session} {id : Json} {cards : List Card} {states : IdMap CardState} {m : IdMap Json}
  {before held : Ids}

/-- The cards that are on hold by the store. -/
def heldBefore (d : Directory) : Except Fault Ids := do
  (← ((← Store.getState d holdKey).orElse (.arr [])).each).mapM Json.asKey

theorem checkKey_holdKey : Store.checkKey holdKey = .ok holdKey := by
  rw [Store.checkKey, if_pos (by decide +kernel)]

theorem isTooLong_holdPath : Directory.isTooLong (Store.statePath holdKey) = false := by decide +kernel

theorem holdPath_not_mem_parents :
    Store.statePath holdKey ∉ Directory.parents (Store.statePath holdKey) := by decide +kernel

/-- A card stays on hold unless it is seen to be transferred or ready. -/
theorem staysHeld_iff : staysHeld states id = true ↔
    states.get? id ≠ some .transferred ∧ states.get? id ≠ some .ready := by
  unfold staysHeld
  split <;> simp_all

theorem staysHeld_congr {a b : Json} (h : a.key = b.key) : staysHeld states a = staysHeld states b := by
  unfold staysHeld
  rw [IdMap.get?_congr h]

/-- **Who is on the list**: the cards that are on hold now, and those that were and stay so. -/
theorem has_heldNow (honce : states.keys.Nodup) : (heldNow states before).has id = true ↔
    states.get? id = some .onHold ∨ before.has id = true ∧ staysHeld states id = true := by
  have hnow : Ids.has ((states.filter (·.2 == .onHold)).map (·.1)) id = true ↔
      states.get? id = some .onHold := by
    rw [Ids.has_iff]
    constructor
    · rintro ⟨a, ha, hk⟩
      obtain ⟨p, hp, rfl⟩ := List.mem_map.1 ha
      obtain ⟨hp, hstate⟩ := List.mem_filter.1 hp
      rw [← IdMap.get?_congr hk, IdMap.get?_of_mem honce hp, eq_of_beq hstate]
    · intro hget
      obtain ⟨p, hp, hk, hstate⟩ := IdMap.exists_of_get? hget
      exact ⟨p.1, List.mem_map_of_mem (List.mem_filter.2 ⟨hp, beq_iff_eq.2 hstate⟩), hk⟩
  have hstay : Ids.has (before.filter (staysHeld states)) id = true ↔
      before.has id = true ∧ staysHeld states id = true := by
    rw [Ids.has_iff, Ids.has_iff]
    constructor
    · rintro ⟨a, ha, hk⟩
      obtain ⟨ha, hstays⟩ := List.mem_filter.1 ha
      exact ⟨⟨a, ha, hk⟩, (staysHeld_congr hk).symm.trans hstays⟩
    · rintro ⟨⟨a, ha, hk⟩, hstays⟩
      exact ⟨a, List.mem_filter.2 ⟨ha, (staysHeld_congr hk).trans hstays⟩, hk⟩
  unfold heldNow
  rw [Ids.has_distinct, Ids.has_append, Bool.or_eq_true, hnow, hstay]

/-- What the states say of a card that is in the card map: that it has been transferred, if it is listed,
and nothing otherwise. -/
theorem StatesRead.get?_of_mapped (r : StatesRead s cards states) (hid : r.mapped.has id = true) :
    states.get? id = if r.graph.listed id then some .transferred else none := by
  have hget : states.get? id = _ := (congrArg (IdMap.get? · id) r.eq).trans (get?_states r.drawn)
  have hdone : Ids.has (IdMap.ids r.mapped) id = true := IdMap.has_ids.trans hid
  rw [hget, stateOf, if_pos hdone]

/-- A card that is in the card map is on the list if it was before and is not listed. -/
theorem StatesRead.has_heldNow_of_mapped (r : StatesRead s cards states) (hid : r.mapped.has id = true) :
    (heldNow states before).has id = true ↔
      before.has id = true ∧ ∀ c ∈ cards, c.id.key ≠ id.key := by
  have honce : states.keys.Nodup := by
    rw [r.eq]
    exact IdMap.nodup_ofList
  have hlisted : r.graph.listed id = false ↔ ∀ c ∈ cards, c.id.key ≠ id.key := by
    rw [← Bool.not_eq_true, Graph.listed_ofCards r.drawn]
    push Not
    rfl
  rw [has_heldNow honce, staysHeld_iff, r.get?_of_mapped hid, ← hlisted]
  cases r.graph.listed id <;> simp

/-- The list is brought up to date in the store and nowhere else. -/
theorem run_onHoldAmong {d : Directory} (hstates : ((Session.states (s.fromSource cards)).run s).1 = .ok states)
    (hbefore : heldBefore s.directory = .ok before)
    (hsort : Ids.sort (heldNow states before) = .ok held)
    (hd : Store.setState s.directory holdKey (.arr held) = .ok d) :
    (onHoldAmong cards).run s = (.ok held, { s with directory := d }) := by
  have hread : (Session.states (s.fromSource cards)).run s = (.ok states, s) :=
    Prod.ext hstates (keeps_states _ s).symm
  obtain ⟨stored, hstored, hids⟩ := bind_eq_ok.1 hbefore
  unfold onHoldAmong
  rw [Steps.run_bind, show (sourceCards cards).run s = (.ok (s.fromSource cards), s) from rfl]
  simp only
  rw [Steps.run_bind, hread]
  simp only
  rw [Steps.run_bind, run_readStore hstored]
  simp only
  rw [hids, Steps.run_ofExcept_bind_ok, hsort, Steps.run_ofExcept_bind_ok, Steps.run_bind, run_writeStore_ok hd]
  rfl

/-! ### Bringing the list up to date -/

/-- The list can be brought up to date: the listed cards of the source database have integer ids, their states
can be told, the stored list can be read, with integers in it, and nothing stands in the way of the file. -/
structure Holdable (s : Session) (cards : List Card) : Prop where
  ids : ∀ c ∈ s.fromSource cards, c.id.isInt = true
  states : Tellable s (s.fromSource cards)
  readList : ∃ before, heldBefore s.directory = .ok before ∧ ∀ a ∈ before, a.isInt = true
  writable : s.directory.isObstructed (Store.statePath holdKey) = false ∧
    s.directory.isDirectory (Store.statePath holdKey) = false

/-- The ids on the list are ids of listed cards, or were on it before. -/
theorem StatesRead.isInt_of_mem_heldNow (r : StatesRead s cards states) (hids : ∀ c ∈ cards, c.id.isInt = true)
    (hbefore : ∀ a ∈ before, a.isInt = true) : ∀ a ∈ heldNow states before, a.isInt = true := by
  intro a ha
  rcases List.mem_append.1 (Ids.mem_of_mem_distinct ha) with ha | ha
  · obtain ⟨p, hp, rfl⟩ := List.mem_map.1 ha
    have hmem : p.1 ∈ states.map (·.1) := List.mem_map_of_mem (List.mem_filter.1 hp).1
    rw [r.eq] at hmem
    obtain ⟨q, hq, hid⟩ := List.mem_map.1 (IdMap.mem_of_mem_ofList hmem)
    obtain ⟨c, hc, rfl⟩ := List.mem_map.1 hq
    rw [← hid]
    exact hids c hc
  · exact hbefore a (List.mem_filter.1 ha).1

/-- A stored list of integers that can be read back is the list of cards on hold. -/
theorem heldBefore_setState {d d' : Directory} (hints : ∀ a ∈ held, a.isInt = true)
    (hlast : ∀ a ∈ held, a.Lasting) (h : Store.setState d holdKey (.arr held) = .ok d') :
    heldBefore d' = .ok held := by
  have horder (a : Json) (ha : a ∈ held) : a.inOrder = a := by
    have hint := hints a ha
    cases a with
    | int n => rfl
    | bool b => rfl
    | _ => cases hint
  have hread : Store.getState d' holdKey = .ok (.arr held) := by
    rw [Store.getState_setState checkKey_holdKey holdPath_not_mem_parents h,
      (Json.Lasting.arr hlast).reread?_eq, Json.inOrder_arr, List.map_congr_left horder, List.map_id']
    rfl
  have hkeys : held.mapM Json.asKey = .ok held := by
    have hmap : held.mapM Json.asKey = .ok (held.map fun a => a) :=
      mapM_eq_ok_map fun a ha => Json.asKey_of_isInt (hints a ha)
    rwa [List.map_id'] at hmap
  unfold heldBefore
  rw [hread]
  cases held with
  | nil => rfl
  | cons a rest => exact hkeys

/-- **Which transferred cards are on the list.** A list that can be brought up to date, by whatever listing,
is returned and stored. A card that is in the card map is on it exactly if it was on it before and the listing
has no card of the source database with its id. The list is stored as it is returned, so that the next call
starts from it. -/
theorem transferred_on_hold_iff (h : Holdable s cards) : ∃ m before held d,
    Store.cardMap s.directory = .ok m ∧ heldBefore s.directory = .ok before ∧
    (onHoldAmong cards).run s = (.ok held, { s with directory := d }) ∧
    (∀ start, (call Metabase.Instance.listCards).run start = (.ok cards, s) →
      onHold.run start = (.ok held, { s with directory := d })) ∧
    Store.setState s.directory holdKey (.arr held) = .ok d ∧
    ((∀ a ∈ held, a.Lasting) → heldBefore d = .ok held) ∧
    ∀ id, m.has id = true → (held.has id = true ↔
      before.has id = true ∧ ∀ c ∈ s.fromSource cards, c.id.key ≠ id.key) := by
  obtain ⟨states, hstates⟩ := h.states.exists_states
  obtain ⟨r⟩ := exists_statesRead hstates
  obtain ⟨before, hbefore, hints⟩ := h.readList
  have hheld := r.isInt_of_mem_heldNow h.ids hints
  obtain ⟨d, hd⟩ := (Store.setState_isOk_iff (v := .arr (heldNow states before).sorted) checkKey_holdKey
    isTooLong_holdPath).2 h.writable
  have hrun := run_onHoldAmong hstates hbefore (Ids.sort_of_isInt hheld) hd
  refine ⟨r.mapped, before, _, d, r.readMap, hbefore, hrun, fun start hlisted => ?_, hd,
    fun hlast => heldBefore_setState (fun a ha => hheld a (Ids.mem_sorted.1 ha)) hlast hd, fun id hid => ?_⟩
  · unfold onHold
    rw [Steps.run_bind, hlisted]
    exact hrun
  · rw [Ids.has_sorted]
    exact r.has_heldNow_of_mapped hid

/-- Card 7 was on hold and has been transferred, and the instance lists no cards. -/
def unlistedSession : Session :=
  batchSession [] ⟨[(Store.cardPath, "\x7b\"7\": 70\x7d"), (Store.statePath holdKey, "[7]")]⟩

theorem tellable_unlistedSession : Tellable unlistedSession [] := by
  have hmap : (Store.cardMap unlistedSession.directory).isOk = true := by decide +kernel
  have hnone : (WaitingArea.cards unlistedSession.directory).toOption.map List.isEmpty = some true := by
    decide +kernel
  have hseeds (s : Session) (m : IdMap Json) : (seedsOf s [] m []).sortable = true := by
    unfold seedsOf
    cases s.settings.holdNative.truthy <;> rfl
  obtain ⟨m, hm⟩ := exists_ok_of_isOk hmap
  obtain ⟨ws, hws, hempty⟩ := exists_ok_of_toOption hnone
  obtain rfl := List.isEmpty_iff.1 hempty
  exact ⟨List.forall_mem_nil _, List.forall_mem_nil _, m, [], hm, hws, List.forall_mem_nil _, hseeds _ m⟩

theorem holdable_unlistedSession : Holdable unlistedSession [] where
  ids _ hc := nomatch hc
  states := tellable_unlistedSession
  readList := ⟨[.int 7], rfl, by decide⟩
  writable := by decide +kernel

/-- The stored list names card 7, which is not listed: it stays on the list. -/
theorem transferred_on_hold_iff_unlisted : Holdable unlistedSession [] ∧ ∃ m before held d,
    Store.cardMap unlistedSession.directory = .ok m ∧ heldBefore unlistedSession.directory = .ok before ∧
    (onHoldAmong []).run unlistedSession = (.ok held, { unlistedSession with directory := d }) ∧
    (∀ start, (call Metabase.Instance.listCards).run start = (.ok [], unlistedSession) →
      onHold.run start = (.ok held, { unlistedSession with directory := d })) ∧
    Store.setState unlistedSession.directory holdKey (.arr held) = .ok d ∧
    ((∀ a ∈ held, a.Lasting) → heldBefore d = .ok held) ∧
    ∀ id, m.has id = true → (held.has id = true ↔
      before.has id = true ∧ ∀ c ∈ unlistedSession.fromSource [], c.id.key ≠ id.key) :=
  ⟨holdable_unlistedSession, transferred_on_hold_iff holdable_unlistedSession⟩

/-- **A card that has been transferred stays on hold** if it was on hold before and is no longer listed: it is
in the card map, and on the list that is returned and stored. -/
theorem unlisted_stays_held : Holdable unlistedSession [] ∧
    ((Store.cardMap unlistedSession.directory).toOption.map fun m => m.has (.int 7)) = some true ∧
    ((onHold.run unlistedSession).1.toOption.map fun held => held.has (.int 7)) = some true ∧
    ((heldBefore (onHold.run unlistedSession).2.directory).toOption.map fun held => held.has (.int 7)) =
      some true :=
  ⟨holdable_unlistedSession, by decide +kernel⟩

end Session
end CardTransfer
