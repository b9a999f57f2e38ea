import CardTransfer.Proofs.Card.Blocked
import CardTransfer.Proofs.Transfer.Call
import CardTransfer.Proofs.Transfer.Waiting
import CardTransfer.Transfer.Batch

/-!
# What the states of cards say

The states are found by spreading over consumers, from all seeds at once. What they say is a matter of
chains of references: a card is on hold if such a chain leads from it, over cards that are not in the card
map, to one that waits or to a listed native card that is held (`Situation.Held`). The seeds need not be
listed, and a card that is in the map ends every chain.

The two agree (`Situation.held_iff`), so that each listed card has the one state that applies to it
(`states_by_reachability`).

They are told only if the seeds can be put in order. If that is so, it goes on being so while cards are
transferred (`StatesRead.sortable_seedsOf`), whatever ids are in the waiting area.
-/

namespace CardTransfer

open Relation (ReflTransGen)

/-- What the states of some cards are judged by: the cards, which cards are in the card map, which wait, and
whether native ones are held. -/
structure Situation where
  cards : List Card
  Mapped : Json → Prop
  Waits : Json → Prop
  holdNative : Bool

namespace Situation

variable {v : Situation} {a b : Json}

/-- A listed card refers to a card that is not in the card map. -/
def Leads (v : Situation) (a b : Json) : Prop :=
  ∃ c ∈ v.cards, c.id.key = a.key ∧ c.references.has b = true ∧ ¬v.Mapped b

/-- A card that waits, or a listed native card if those are held. -/
def Seed (v : Situation) (a : Json) : Prop :=
  v.Waits a ∨ v.holdNative = true ∧ ∃ c ∈ v.cards, c.isNative = true ∧ c.id.key = a.key

/-- A chain of references leads from a card to a seed, and no card of the chain is in the card map. -/
def Held (v : Situation) (a : Json) : Prop := ¬v.Mapped a ∧ ∃ b, ReflTransGen v.Leads a b ∧ v.Seed b

/-- When a card is in a state. -/
def Applies (v : Situation) (c : Card) : CardState → Prop
  | .transferred => v.Mapped c.id
  | .failed => ¬v.Mapped c.id ∧ v.Waits c.id
  | .onHold => ¬v.Mapped c.id ∧ ¬v.Waits c.id ∧ v.Held c.id
  | .ready => ¬v.Mapped c.id ∧ ¬v.Waits c.id ∧ ¬v.Held c.id ∧ ∀ b ∈ c.references, v.Mapped b
  | .open => ¬v.Mapped c.id ∧ ¬v.Waits c.id ∧ ¬v.Held c.id ∧ ¬∀ b ∈ c.references, v.Mapped b

/-- Whether a card is in the map, and whether it waits, does not depend on how its id is spelled. -/
structure Congruent (v : Situation) : Prop where
  mapped : ∀ {a b : Json}, a.key = b.key → (v.Mapped a ↔ v.Mapped b)
  waits : ∀ {a b : Json}, a.key = b.key → (v.Waits a ↔ v.Waits b)

theorem Congruent.seed (h : v.Congruent) (hk : a.key = b.key) : v.Seed a ↔ v.Seed b := by
  unfold Seed
  rw [h.waits hk, hk]

theorem Congruent.held (h : v.Congruent) (hk : a.key = b.key) : v.Held a ↔ v.Held b := by
  suffices himp : ∀ {a b : Json}, a.key = b.key → v.Held a → v.Held b from ⟨himp hk, himp hk.symm⟩
  rintro a b hk ⟨hnot, c, hchain, hseed⟩
  refine ⟨fun hb => hnot ((h.mapped hk).2 hb), ?_⟩
  rcases hchain.cases_head with rfl | ⟨d, ⟨card, hcard, hid, hlead⟩, hrest⟩
  · exact ⟨b, .refl, (h.seed hk).1 hseed⟩
  · exact ⟨c, hrest.head ⟨card, hcard, hid.trans hk, hlead⟩, hseed⟩

/-- A card that leads to a held one is held, unless it is in the map. -/
theorem Held.of_leads (hnot : ¬v.Mapped a) (hab : v.Leads a b) (h : v.Held b) : v.Held a := by
  obtain ⟨-, c, hchain, hseed⟩ := h
  exact ⟨hnot, c, hchain.head hab, hseed⟩

/-- A card that waits is held, unless it is in the map. -/
theorem Held.of_waits (hnot : ¬v.Mapped a) (h : v.Waits a) : v.Held a := ⟨hnot, a, .refl, .inl h⟩

/-- **Blocking reaches the cards that are held.** -/
theorem held_iff {g : Graph} {seeds done : Ids} (hg : Graph.ofCards v.cards = .ok g)
    (honce : (Ids.keys (v.cards.map (·.id))).Nodup) (hv : v.Congruent)
    (hdone : ∀ a, done.has a = true ↔ v.Mapped a)
    (hseeds : ∀ a, ¬v.Mapped a → (seeds.has a = true ↔ v.Seed a)) :
    g.Reaches seeds done a ↔ v.Held a := by
  have hproper := Graph.proper_ofCards hg
  have hnot (a : Json) : done.has a = false ↔ ¬v.Mapped a := by rw [← hdone, Bool.not_eq_true]
  constructor
  · rintro ⟨s, hs, hfree, b, hsteps, hk⟩
    rw [← hv.held hk]
    clear hk
    induction hsteps with
    | refl => exact ⟨(hnot s).1 hfree, s, .refl, (hseeds s ((hnot s).1 hfree)).1 (Ids.has_of_mem hs)⟩
    | @tail b c _ hbc ih =>
      -- a consumer of a held card refers to it
      obtain ⟨hlisted, hprovides⟩ := Graph.of_mem_consumers hproper hbc.1
      obtain ⟨card, hcard, hid⟩ := (Graph.listed_ofCards hg).1 hlisted
      refine ih.of_leads ((hnot c).1 hbc.2) ⟨card, hcard, hid, ?_, ih.1⟩
      rwa [Graph.providers_ofCards_of_mem hg honce hcard hid] at hprovides
  · rintro ⟨hfree, b, hchain, hseed⟩
    induction hchain using ReflTransGen.head_induction_on with
    | refl =>
      obtain ⟨s, hs, hk⟩ := (Ids.has_iff _ _).1 ((hseeds b hfree).2 hseed)
      exact ⟨s, hs, (Ids.has_congr hk).trans ((hnot b).2 hfree), s, .refl, hk⟩
    | @head a c hac _ ih =>
      obtain ⟨card, hcard, hid, hrefers, hfree'⟩ := hac
      obtain ⟨s, hs, hsfree, d, hsteps, hk⟩ := ih hfree'
      -- the card is a consumer of the next one in the chain
      have hconsumer : (g.consumers d).has a = true := by
        rw [Graph.consumers_congr hk, Graph.has_consumers hproper,
          Graph.providers_ofCards_of_mem hg honce hcard hid]
        exact ⟨(Graph.listed_ofCards hg).2 ⟨card, hcard, hid⟩, hrefers⟩
      obtain ⟨a', ha', hka⟩ := (Ids.has_iff _ _).1 hconsumer
      exact ⟨s, hs, hsfree, a', hsteps.tail ⟨ha', (Ids.has_congr hka).trans ((hnot a).2 hfree)⟩, hka⟩

/-- **The state of a listed card is the one that applies.** -/
theorem stateOf_iff {g : Graph} {done failed blocked : Ids} {c : Card} (hc : c ∈ v.cards)
    (hg : Graph.ofCards v.cards = .ok g) (honce : (Ids.keys (v.cards.map (·.id))).Nodup)
    (hdone : ∀ a, done.has a = true ↔ v.Mapped a)
    (hfailed : ∀ a, failed.has a = true ↔ v.Waits a ∧ ¬v.Mapped a)
    (hblocked : ∀ a, blocked.has a = true ↔ v.Held a) (state : CardState) :
    stateOf g done failed blocked c.id = state ↔ v.Applies c state := by
  have hwithin : Ids.within (g.providers c.id) done = true ↔ ∀ b ∈ c.references, v.Mapped b := by
    rw [Graph.providers_ofCards_of_mem hg honce hc rfl, Ids.within_iff]
    simp only [hdone]
  unfold stateOf
  by_cases hmapped : v.Mapped c.id
  · rw [if_pos ((hdone _).2 hmapped)]
    cases state <;> simp [Applies, hmapped]
  rw [if_neg (mt (hdone _).1 hmapped)]
  by_cases hwaits : v.Waits c.id
  · rw [if_pos ((hfailed _).2 ⟨hwaits, hmapped⟩)]
    cases state <;> simp [Applies, hmapped, hwaits]
  rw [if_neg fun h => hwaits ((hfailed _).1 h).1]
  by_cases hheld : v.Held c.id
  · rw [if_pos ((hblocked _).2 hheld)]
    cases state <;> simp [Applies, hmapped, hwaits, hheld]
  rw [if_neg (mt (hblocked _).1 hheld)]
  by_cases hall : ∀ b ∈ c.references, v.Mapped b
  · rw [if_pos (hwithin.2 hall)]
    cases state <;> simp [Applies, hmapped, hwaits, hheld] <;> exact hall
  · rw [if_neg (mt hwithin.1 hall)]
    cases state <;> simp [Applies, hmapped, hwaits, hheld] <;> simpa using hall

end Situation

namespace Session

variable {s start : Session} {id : Json} {cards all : List Card} {states : IdMap CardState}

/-! ### What the states of cards are read from -/

/-- The states of cards are read without changing anything. -/
theorem keeps_states (cards : List Card) : Steps.Keeps Eq (Session.states cards) := by
  have hread {α : Type} (read : Directory → Except Fault α) : Steps.Keeps Eq (readStore read) :=
    Steps.keeps_get.bind fun _ => Steps.keeps_ofExcept _
  refine (Steps.keeps_ofExcept _).bind fun g => ?_
  refine ((hread _).bind fun _ => Steps.keeps_pure _).bind fun done => ?_
  refine ((hread _).bind fun _ => Steps.keeps_ofExcept _).bind fun waiting => ?_
  exact Steps.keeps_get.bind fun _ => Steps.keeps_ofExcept _

/-- What the states of cards are made of. -/
structure StatesRead (s : Session) (cards : List Card) (states : IdMap CardState) where
  graph : Graph
  mapped : IdMap Json
  waiting : Ids
  seeds : Ids
  drawn : Graph.ofCards cards = .ok graph
  readMap : Store.cardMap s.directory = .ok mapped
  readWaiting : waitingIds.run s = (.ok waiting, s)
  sorted : Ids.sort (holdSeeds s.settings.holdNative.truthy cards (IdMap.ids mapped)
    (waiting.without (IdMap.ids mapped))) = .ok seeds
  eq : states = IdMap.ofList (cards.map fun c => (c.id, stateOf graph (IdMap.ids mapped)
    (waiting.without (IdMap.ids mapped)) (graph.blocked seeds (IdMap.ids mapped)) c.id))

theorem exists_statesRead {cards : List Card}
    (h : ((Session.states cards).run s).1 = .ok states) : Nonempty (StatesRead s cards states) := by
  obtain ⟨g, t, hg, h⟩ := Steps.run_bind_eq_ok.1 (Prod.ext h rfl)
  obtain ⟨hdrawn, rfl⟩ := Prod.mk.inj hg
  obtain ⟨done, t, hdone, h⟩ := Steps.run_bind_eq_ok.1 h
  obtain ⟨mapped, u, hmapped, hdone⟩ := Steps.run_bind_eq_ok.1 hdone
  obtain ⟨hread, rfl⟩ := Prod.mk.inj hmapped
  cases hdone
  obtain ⟨waiting, t, hwaiting, h⟩ := Steps.run_bind_eq_ok.1 h
  obtain ⟨ws, u, hws, hwaiting'⟩ := Steps.run_bind_eq_ok.1 hwaiting
  obtain ⟨-, rfl⟩ := Prod.mk.inj hws
  obtain ⟨-, rfl⟩ := Prod.mk.inj hwaiting'
  rw [Steps.run_get_bind] at h
  obtain ⟨seeds, hsort, hstates⟩ := bind_eq_ok.1 (congrArg Prod.fst h)
  exact ⟨⟨g, mapped, waiting, seeds, hdrawn, hread, hwaiting, hsort, (Except.ok.inj hstates).symm⟩⟩

/-- The rows from which the cards that wait are read. -/
theorem StatesRead.exists_rows (r : StatesRead s cards states) : ∃ ws, WaitingArea.cards s.directory = .ok ws ∧
    (∀ w ∈ ws, ∃ id, w.card.asKey = .ok id) ∧ r.waiting = Ids.distinct (ws.map (·.card)) := by
  obtain ⟨ws, u, hread, hids⟩ := Steps.run_bind_eq_ok.1 r.readWaiting
  obtain ⟨hws, -⟩ := Prod.mk.inj hread
  obtain ⟨ids, hids, hdistinct⟩ := bind_eq_ok.1 (congrArg Prod.fst hids)
  have hdistinct : Ids.distinct ids = r.waiting := Except.ok.inj hdistinct
  refine ⟨ws, hws, fun w hw => ?_, ?_⟩
  · obtain ⟨id, -, hid⟩ := exists_of_mapM hids hw
    exact ⟨id, hid⟩
  · rw [← hdistinct, eq_map_of_mapM hids fun w _ a ha => Json.eq_of_asKey ha]

/-- The cards that are read as waiting are those that the stored area lists. -/
theorem StatesRead.has_waiting (r : StatesRead s cards states) :
    r.waiting.has id = true ↔ WaitingArea.Lists s.directory id := by
  obtain ⟨ws, hws, -, hwaiting⟩ := r.exists_rows
  rw [hwaiting, Ids.has_distinct, Ids.has_iff]
  unfold WaitingArea.Lists
  simp [hws]

/-- The seeds of blocking are the cards that wait and, if native cards are held, those. -/
theorem StatesRead.has_seeds (r : StatesRead s cards states) : r.seeds.has id = true ↔
    (r.waiting.without (IdMap.ids r.mapped)).has id = true ∨
      s.settings.holdNative.truthy = true ∧
        ∃ c ∈ cards, c.isNative = true ∧ Ids.has (IdMap.ids r.mapped) c.id = false ∧ c.id.key = id.key := by
  rw [Ids.eq_of_sort r.sorted, Ids.has_sorted]
  unfold holdSeeds
  rw [Ids.has_distinct, Ids.has_append, Bool.or_eq_true]
  refine or_congr_right ?_
  split
  · rename_i hhold
    rw [Ids.has_iff]
    simp [hhold, and_assoc]
  · rename_i hhold
    simp [hhold]

/-- The seeds, given the card map and the cards that wait. -/
def seedsOf (s : Session) (cards : List Card) (m : IdMap Json) (ws : List WaitingCard) : Ids :=
  holdSeeds s.settings.holdNative.truthy cards (IdMap.ids m)
    ((Ids.distinct (ws.map (·.card))).without (IdMap.ids m))

theorem StatesRead.sortable (r : StatesRead s cards states) {ws : List WaitingCard}
    (hws : WaitingArea.cards s.directory = .ok ws) : (seedsOf s cards r.mapped ws).sortable = true := by
  obtain ⟨ws', hws', -, hwaiting⟩ := r.exists_rows
  obtain rfl := Except.ok.inj (hws'.symm.trans hws)
  unfold seedsOf
  rw [← hwaiting]
  exact Ids.sortable_of_sort r.sorted

/-- What must be the case for the states of cards to be told: ids can be keys, references can be found, the
card map and the waiting area can be read, and the seeds can be put in order. -/
structure Tellable (s : Session) (cards : List Card) : Prop where
  ids : ∀ c ∈ cards, ∃ id, c.id.asKey = .ok id
  references : ∀ c ∈ cards, ∃ ids, c.findReferences = .ok ids
  stores : ∃ m ws, Store.cardMap s.directory = .ok m ∧ WaitingArea.cards s.directory = .ok ws ∧
    (∀ w ∈ ws, ∃ id, w.card.asKey = .ok id) ∧ (seedsOf s cards m ws).sortable = true

/-- The seeds are ids of cards that wait, or of native cards that are held. -/
theorem of_mem_seedsOf {m : IdMap Json} {ws : List WaitingCard} (h : id ∈ seedsOf s cards m ws) :
    (∃ w ∈ ws, w.card = id) ∨ s.settings.holdNative.truthy = true ∧
      ∃ c ∈ cards, c.isNative = true ∧ Ids.has (IdMap.ids m) c.id = false ∧ c.id = id := by
  rcases List.mem_append.1 (Ids.mem_of_mem_distinct h) with h | h
  · exact .inl (List.mem_map.1 (Ids.mem_of_mem_distinct (List.mem_filter.1 h).1))
  · split at h
    · rename_i hhold
      obtain ⟨c, hc, hid⟩ := List.mem_map.1 h
      obtain ⟨hc, hnative⟩ := List.mem_filter.1 hc
      rw [Bool.and_eq_true, Bool.not_eq_true'] at hnative
      exact .inr ⟨hhold, c, hc, hnative.1, hnative.2, hid⟩
    · cases h

/-- There are no more seeds than cards that wait if no native card is held. -/
theorem length_seedsOf_le {m : IdMap Json} {ws : List WaitingCard} (h : s.settings.holdNative.truthy = true →
    ∀ c ∈ cards, c.isNative = true → Ids.has (IdMap.ids m) c.id = true) :
    (seedsOf s cards m ws).length ≤ ws.length := by
  have hnone : (if s.settings.holdNative.truthy then
      (cards.filter fun c => c.isNative && !Ids.has (IdMap.ids m) c.id).map (·.id) else []) = [] := by
    split
    · rename_i hhold
      rw [List.map_eq_nil_iff, List.filter_eq_nil_iff]
      intro c hc hheld
      obtain ⟨hnative, hfree⟩ := (Bool.and_eq_true _ _ ▸ hheld : _ ∧ _)
      rw [h hhold c hc hnative] at hfree
      cases hfree
    · rfl
  unfold seedsOf holdSeeds
  simp only
  rw [hnone, List.append_nil]
  calc (Ids.distinct ((Ids.distinct (ws.map (·.card))).without (IdMap.ids m))).length
      ≤ ((Ids.distinct (ws.map (·.card))).without (IdMap.ids m)).length := Ids.length_distinct_le _
    _ ≤ (Ids.distinct (ws.map (·.card))).length := List.length_filter_le ..
    _ ≤ (ws.map (·.card)).length := Ids.length_distinct_le _
    _ = ws.length := List.length_map ..

/-- The states of cards are told if what they are read from can be read. -/
theorem run_states {g : Graph} {m : IdMap Json} {ws : List WaitingCard} (hg : Graph.ofCards cards = .ok g)
    (hm : Store.cardMap s.directory = .ok m) (hws : WaitingArea.cards s.directory = .ok ws)
    (hkeys : ∀ w ∈ ws, ∃ id, w.card.asKey = .ok id) (hsort : (seedsOf s cards m ws).sortable = true) :
    ∃ states, ((Session.states cards).run s).1 = .ok states := by
  have hids : ws.mapM (·.card.asKey) = .ok (ws.map (·.card)) := by
    obtain ⟨ids, h⟩ := mapM_isOk hkeys
    rw [h, eq_map_of_mapM h fun w _ a ha => Json.eq_of_asKey ha]
  have hread : waitingIds.run s = (.ok (Ids.distinct (ws.map (·.card))), s) := by
    unfold waitingIds
    rw [Steps.run_bind, run_readStore hws]
    simp only
    rw [hids]
    rfl
  have hdone : transferredIds.run s = (.ok (IdMap.ids m), s) := by
    unfold transferredIds
    rw [Steps.run_bind, run_readStore hm]
    rfl
  unfold Session.states
  rw [hg, Steps.run_ofExcept_bind_ok, Steps.run_bind, hdone]
  simp only
  rw [Steps.run_bind, hread]
  simp only
  rw [Steps.run_get_bind]
  unfold cardStates
  simp only
  unfold seedsOf at hsort
  rw [Ids.sort_eq_ok hsort]
  exact ⟨_, rfl⟩

theorem Tellable.exists_states (h : Tellable s cards) :
    ∃ states, ((Session.states cards).run s).1 = .ok states := by
  obtain ⟨hids, hfound, m, ws, hm, hws, hkeys, hsort⟩ := h
  obtain ⟨g, hg⟩ := Graph.ofCards_isOk_iff.2 ⟨hids, fun p hp => hfound p.2 (Graph.mem_of_mem_byId hp)⟩
  exact run_states hg hm hws hkeys hsort

/-- **When the states of cards with different ids are told.** -/
theorem states_isOk_iff (honce : (Ids.keys (cards.map (·.id))).Nodup) :
    (∃ states, ((Session.states cards).run s).1 = .ok states) ↔ Tellable s cards := by
  refine ⟨?_, Tellable.exists_states⟩
  rintro ⟨states, h⟩
  obtain ⟨r⟩ := exists_statesRead h
  obtain ⟨hids, hfound⟩ := Graph.ofCards_isOk_iff.1 ⟨_, r.drawn⟩
  obtain ⟨ws, hws, hkeys, -⟩ := r.exists_rows
  refine ⟨hids, fun c hc => ?_, r.mapped, ws, r.readMap, hws, hkeys, r.sortable hws⟩
  exact hfound (c.id, c) (by rw [Graph.byId_of_nodup honce]; exact List.mem_map_of_mem hc)

/-- **The seeds go on having an order** while the card map grows, if the ids that wait have one, and are
numbers if those were that waited before: where other ids waited, the seeds could be put in order only if no
native card was held. -/
theorem StatesRead.sortable_seedsOf (r : StatesRead s cards states) (hids : ∀ c ∈ cards, c.id.isInt = true)
    {t : Session} (hhold : t.settings.holdNative = s.settings.holdNative) {m : IdMap Json}
    (hgrown : ∀ id, r.mapped.has id = true → m.has id = true) {ws ws' : List WaitingCard}
    (hws : WaitingArea.cards s.directory = .ok ws) (hws' : WaitingArea.Sortable ws')
    (hnumbers : (∀ w ∈ ws, w.card.number?.isSome = true) → ∀ w ∈ ws', w.card.number?.isSome = true) :
    (seedsOf t cards m ws').sortable = true := by
  by_cases hall : ∀ w ∈ ws', w.card.number?.isSome = true
  · refine Ids.sortable_iff.2 (.inr (.inl fun a ha => ?_))
    rcases of_mem_seedsOf ha with ⟨w, hw, rfl⟩ | ⟨-, c, hc, -, -, rfl⟩
    · exact hall w hw
    · exact Json.isSome_number?_of_isInt (hids c hc)
  obtain ⟨w, hw, hother⟩ : ∃ w ∈ ws, ¬w.card.number?.isSome = true := by
    by_contra hnot
    push Not at hnot
    exact hall (hnumbers hnot)
  have hseed : r.seeds.has w.card = true := by
    refine r.has_seeds.2 (.inl ?_)
    rw [Ids.has_without, r.has_waiting.2 ⟨ws, hws, w, hw, rfl⟩, Bool.true_and, Bool.not_eq_true', IdMap.has_ids,
      Bool.eq_false_iff]
    intro hmapped
    obtain ⟨n, hn⟩ := Store.exists_key_of_has r.readMap hmapped
    obtain ⟨x, hx, -⟩ := Json.exists_number_of_key hn
    exact hother (by rw [hx]; rfl)
  -- so no native card was held
  have hnative : t.settings.holdNative.truthy = true → ∀ c ∈ cards, c.isNative = true →
      Ids.has (IdMap.ids m) c.id = true := by
    intro hheld c hc hnative
    by_contra hnot
    have hfree : Ids.has (IdMap.ids r.mapped) c.id = false := by
      rw [Bool.eq_false_iff, Ne, IdMap.has_ids]
      exact fun h => hnot (IdMap.has_ids.trans (hgrown _ h))
    have hsorted := Ids.sortable_of_sort r.sorted
    rw [Ids.eq_of_sort r.sorted, Ids.has_sorted] at hseed
    have hcard := r.has_seeds.2 (.inr ⟨hhold ▸ hheld, c, hc, hnative, hfree, rfl⟩)
    rw [Ids.eq_of_sort r.sorted, Ids.has_sorted] at hcard
    exact hother (Ids.isSome_number?_of_sortable hsorted hcard hseed (Json.isSome_number?_of_isInt (hids c hc)))
  refine Ids.sortable_of hws'.order ?_ fun a ha => ?_
  · rw [List.length_map]
    exact length_seedsOf_le hnative
  rcases of_mem_seedsOf ha with ⟨w, hw, rfl⟩ | ⟨hheld, c, hc, hc', hfree, rfl⟩
  · exact ⟨_, List.mem_map_of_mem hw, id, id⟩
  · rw [hnative hheld c hc hc'] at hfree
    cases hfree

/-! ### The states of a listing -/

/-- The cards of the source database, among all cards of the instance. -/
def fromSource (s : Session) (cards : List Card) : List Card :=
  cards.filter (·.database.sameId (.int s.settings.sourceDatabase))

/-- What the states of the listed cards are judged by. -/
def situation (s : Session) (cards : List Card) (m : IdMap Json) : Situation :=
  ⟨cards, fun id => m.has id = true, WaitingArea.Lists s.directory, s.settings.holdNative.truthy⟩

theorem congruent_situation (s : Session) (cards : List Card) (m : IdMap Json) :
    (s.situation cards m).Congruent where
  mapped hk := by
    show IdMap.has m _ = true ↔ IdMap.has m _ = true
    rw [IdMap.has_congr hk]
  waits hk := by
    show WaitingArea.Lists _ _ ↔ WaitingArea.Lists _ _
    unfold WaitingArea.Lists
    rw [hk]

/-- The states of cards with different ids, where they are told. -/
theorem StatesRead.applies (r : StatesRead s cards states) (honce : (Ids.keys (cards.map (·.id))).Nodup)
    {c : Card} (hc : c ∈ cards) (state : CardState) :
    states.get? c.id = some state ↔ (s.situation cards r.mapped).Applies c state := by
  have hmapped (a : Json) : Ids.has (IdMap.ids r.mapped) a = true ↔ r.mapped.has a = true := by
    rw [IdMap.has_ids]
  have hfree {a : Json} (ha : ¬r.mapped.has a = true) : Ids.has (IdMap.ids r.mapped) a = false := by
    rwa [← hmapped, Bool.not_eq_true] at ha
  have hfailed (a : Json) : (r.waiting.without (IdMap.ids r.mapped)).has a = true ↔
      WaitingArea.Lists s.directory a ∧ ¬r.mapped.has a = true := by
    rw [Ids.has_without, Bool.and_eq_true, r.has_waiting, Bool.not_eq_true', ← hmapped, Bool.not_eq_true]
  have hblocked (a : Json) : (r.graph.blocked r.seeds (IdMap.ids r.mapped)).has a = true ↔
      (s.situation cards r.mapped).Held a := by
    rw [Graph.blocked_iff]
    refine Situation.held_iff r.drawn honce (congruent_situation ..) hmapped fun a ha => ?_
    rw [r.has_seeds, hfailed]
    refine or_congr (and_iff_left ha) (and_congr_right fun _ => exists_congr fun c => and_congr_right fun _ =>
      and_congr_right fun _ => and_iff_right_of_imp fun hk => ?_)
    rw [Ids.has_congr hk]
    exact hfree ha
  have hget : states.get? c.id = _ :=
    (congrArg (IdMap.get? · c.id) r.eq).trans (CardTransfer.get?_states r.drawn)
  rw [hget, if_pos ((Graph.listed_ofCards r.drawn).2 ⟨c, hc, rfl⟩),
    Option.some.injEq]
  exact Situation.stateOf_iff hc r.drawn honce hmapped hfailed hblocked state

/-- Listing the cards of the source database. -/
theorem run_listSourceCards_of (hlisted : (call Metabase.Instance.listCards).run s = (.ok all, start)) :
    listSourceCards.run s = (.ok (start.fromSource all), start) := by
  unfold listSourceCards
  rw [Steps.run_bind, hlisted]
  rfl

/-- **The states of cards are what reachability says**, for a listing in which the ids of the cards of the
source database are different. They are told exactly if all that they are read from can be read; then each
of these cards has the one state that applies to it. So a card that is ready or open refers to no card that
has failed or is on hold, except for those that are in the card map. -/
theorem states_by_reachability (hlisted : (call Metabase.Instance.listCards).run s = (.ok all, start))
    (honce : (Ids.keys ((start.fromSource all).map (·.id))).Nodup) :
    ((∃ states, (allStates.run s).1 = .ok states) ↔ Tellable start (start.fromSource all)) ∧
      ∀ states, (allStates.run s).1 = .ok states → ∃ m, Store.cardMap start.directory = .ok m ∧
        ∀ c ∈ start.fromSource all,
          (∀ state, states.get? c.id = some state ↔
            (start.situation (start.fromSource all) m).Applies c state) ∧
          (states.get? c.id = some .ready ∨ states.get? c.id = some .open → ∀ b ∈ c.references,
            m.has b = false → states.get? b ≠ some .failed ∧ states.get? b ≠ some .onHold) := by
  have hrun : (allStates.run s).1 = ((Session.states (start.fromSource all)).run start).1 := by
    unfold allStates
    rw [Steps.run_bind, run_listSourceCards_of hlisted]
  rw [hrun]
  refine ⟨states_isOk_iff honce, fun states hstates => ?_⟩
  obtain ⟨r⟩ := exists_statesRead hstates
  refine ⟨r.mapped, r.readMap, fun c hc => ⟨r.applies honce hc, fun hstate b hb hfree => ?_⟩⟩
  have hheld : ¬(start.situation (start.fromSource all) r.mapped).Held c.id ∧ ¬r.mapped.has c.id = true := by
    rcases hstate with hstate | hstate
    · have happlies := (r.applies honce hc _).1 hstate
      exact ⟨happlies.2.2.1, happlies.1⟩
    · have happlies := (r.applies honce hc _).1 hstate
      exact ⟨happlies.2.2.1, happlies.1⟩
  have hb' : ¬r.mapped.has b = true := by rw [hfree]; exact Bool.false_ne_true
  -- a card that refers to a held card is held itself
  have hnot : ¬(start.situation (start.fromSource all) r.mapped).Held b := fun h =>
    hheld.1 (h.of_leads hheld.2 ⟨c, hc, rfl, Ids.has_of_mem hb, hb'⟩)
  have hother {state : CardState} (hget : states.get? b = some state) :
      ∃ c' ∈ start.fromSource all, c'.id.key = b.key ∧ states.get? c'.id = some state := by
    have hlisted : r.graph.listed b = true := by
      rw [(congrArg (IdMap.get? · b) r.eq).trans (CardTransfer.get?_states r.drawn)] at hget
      split at hget
      · assumption
      · cases hget
    obtain ⟨c', hc', hk⟩ := (Graph.listed_ofCards r.drawn).1 hlisted
    exact ⟨c', hc', hk, by rw [IdMap.get?_congr hk]; exact hget⟩
  constructor
  · intro hget
    obtain ⟨c', hc', hk, hget⟩ := hother hget
    obtain ⟨hfree', hwaits⟩ := (r.applies honce hc' _).1 hget
    exact hnot (((congruent_situation ..).held hk).1 (.of_waits hfree' hwaits))
  · intro hget
    obtain ⟨c', hc', hk, hget⟩ := hother hget
    exact hnot (((congruent_situation ..).held hk).1 ((r.applies honce hc' _).1 hget).2.2)

/-! ### Chains that end at a card in the map, and at one that is not listed -/

/-- A session with some cards of the source database. -/
def batchSession (cards : IdMap Json) (d : Directory) : Session :=
  let s := smallSession cards d
  { s with settings := { s.settings with sourceDatabase := 1, targetDatabase := 2 } }

/-- Cards 7 and 10 refer to cards 8 and 11, and these to card 9, which waits and is not listed. Card 11 has
been transferred. -/
def twoChains : Session :=
  batchSession [structuredCard 7 (.str "card__8"), structuredCard 8 (.str "card__9"),
    structuredCard 10 (.str "card__11"), structuredCard 11 (.str "card__9")]
    ⟨[(Store.cardPath, "\x7b\"11\": 110\x7d"), ("state/waiting_cards.json",
      "[\x7b\"card_id\": 9, \"card_name\": \"C\", \"kind\": \"Unknown\", \"reason\": \"no\"\x7d]")]⟩

/-- The first chain ends at a card that waits: the cards of it are on hold. The second one is cut off by the
card that has been transferred, and card 10 is ready. -/
theorem states_by_reachability_twoChains : ∃ all start,
    (call Metabase.Instance.listCards).run twoChains = (.ok all, start) ∧
    (Ids.keys ((start.fromSource all).map (·.id))).Nodup ∧
    ((allStates.run twoChains).1.toOption.map fun states => states.map fun p => (p.1.key, p.2)) =
      some [(.whole 7, .onHold), (.whole 8, .onHold), (.whole 10, .ready), (.whole 11, .transferred)] ∧
    ((∃ states, (allStates.run twoChains).1 = .ok states) ↔ Tellable start (start.fromSource all)) ∧
      ∀ states, (allStates.run twoChains).1 = .ok states → ∃ m, Store.cardMap start.directory = .ok m ∧
        ∀ c ∈ start.fromSource all,
          (∀ state, states.get? c.id = some state ↔
            (start.situation (start.fromSource all) m).Applies c state) ∧
          (states.get? c.id = some .ready ∨ states.get? c.id = some .open → ∀ b ∈ c.references,
            m.has b = false → states.get? b ≠ some .failed ∧ states.get? b ≠ some .onHold) := by
  have hkeys : (((call Metabase.Instance.listCards).run twoChains).1.toOption.map fun all =>
      decide (Ids.keys ((((call Metabase.Instance.listCards).run twoChains).2.fromSource all).map
        (·.id))).Nodup) = some true := by
    decide +kernel
  obtain ⟨all, hall, honce⟩ := exists_ok_of_toOption hkeys
  have hlisted : (call Metabase.Instance.listCards).run twoChains = (.ok all, _) := Prod.ext hall rfl
  have honce := of_decide_eq_true honce
  exact ⟨all, _, hlisted, honce, by decide +kernel, states_by_reachability hlisted honce⟩

end Session
end CardTransfer
