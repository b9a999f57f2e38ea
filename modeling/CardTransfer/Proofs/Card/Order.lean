import CardTransfer.Card.Graph
import CardTransfer.Proofs.Card.Reference
import CardTransfer.Proofs.Json.IdMap
import Mathlib.Data.Fintype.Pigeonhole
import Mathlib.Logic.Relation

/-!
# Providers before consumers

While cards are put into an order, the cards done and those in the queue are distinct, and together they
are the listed cards all of whose listed providers are done (`Arranging`). Taking the first card from the
queue keeps that (`Arranging.step`). When the queue is empty, the order is closed: it has each listed
card whose listed providers it has, after them.

So a card that is missing refers to another listed card that is missing, that one to a third, and as there
are finitely many, this leads into a circle. No card of the order leads into one, as its references lead to
earlier places. The cards that are missing are those in a circle or behind one (`missing_iff_circular`).
-/

namespace CardTransfer

open Relation (ReflTransGen TransGen)

namespace Graph

variable {g : Graph} {cards : List Card} {a b : Json} {done queue order : Ids}

/-! ### Graphs of cards -/

/-- Every card is listed once, under its own id. -/
structure Proper (g : Graph) : Prop where
  own : ∀ p ∈ g.nodes, p.2.id.key = p.1.key
  once : g.nodes.keys.Nodup

/-- The cards of a list by their ids, the last of several with the same id. -/
def byId (cards : List Card) : IdMap Card := IdMap.ofList (cards.map fun c => (c.id, c))

theorem eq_map_of_asKeys {ps : List (Json × Card)}
    (h : (cards.mapM fun c => do return (← c.id.asKey, c)) = (.ok ps : Except Fault _)) :
    ps = cards.map fun c => (c.id, c) := by
  refine eq_map_of_mapM h fun c _ p hp => ?_
  obtain ⟨id, hid, hp⟩ := bind_eq_ok.1 hp
  cases hp
  rw [Json.eq_of_asKey hid]

/-- The nodes of a graph are made of its cards. -/
theorem nodes_ofCards (h : ofCards cards = .ok g) :
    g.nodes = (byId cards).map fun p => (p.1, ⟨p.2.id, p.2.references⟩) := by
  obtain ⟨ps, hps, h⟩ := bind_eq_ok.1 h
  obtain ⟨nodes, hnodes, h⟩ := bind_eq_ok.1 h
  cases h
  rw [eq_map_of_asKeys hps] at hnodes
  refine eq_map_of_mapM hnodes fun p _ q hq => ?_
  obtain ⟨node, hnode, hq⟩ := bind_eq_ok.1 hq
  obtain ⟨ids, hids, hnode⟩ := bind_eq_ok.1 hnode
  cases hq
  cases hnode
  rw [Card.eq_of_findReferences hids]

/-- When cards have a graph: their ids can be keys, and their references can be found. -/
theorem ofCards_isOk_iff : (∃ g, ofCards cards = .ok g) ↔
    (∀ c ∈ cards, ∃ id, c.id.asKey = .ok id) ∧
      ∀ p ∈ byId cards, ∃ ids, p.2.findReferences = .ok ids := by
  constructor
  · rintro ⟨g, h⟩
    obtain ⟨ps, hps, h⟩ := bind_eq_ok.1 h
    obtain ⟨nodes, hnodes, -⟩ := bind_eq_ok.1 h
    rw [eq_map_of_asKeys hps] at hnodes
    constructor
    · intro c hc
      obtain ⟨p, -, hp⟩ := exists_of_mapM hps hc
      obtain ⟨id, hid, -⟩ := bind_eq_ok.1 hp
      exact ⟨id, hid⟩
    · intro p hp
      obtain ⟨q, -, hq⟩ := exists_of_mapM hnodes hp
      obtain ⟨node, hnode, -⟩ := bind_eq_ok.1 hq
      obtain ⟨ids, hids, -⟩ := bind_eq_ok.1 hnode
      exact ⟨ids, hids⟩
  · rintro ⟨hkeys, hfound⟩
    obtain ⟨ps, hps⟩ : ∃ ps, (cards.mapM fun c => do return (← c.id.asKey, c)) =
        (.ok ps : Except Fault _) := by
      refine mapM_isOk fun c hc => ?_
      obtain ⟨id, hid⟩ := hkeys c hc
      exact ⟨_, bind_eq_ok.2 ⟨id, hid, rfl⟩⟩
    obtain ⟨nodes, hnodes⟩ : ∃ nodes, ((byId cards).mapM fun p => do return (p.1, ← nodeOf p.2)) =
        (.ok nodes : Except Fault _) := by
      refine mapM_isOk fun p hp => ?_
      obtain ⟨ids, hids⟩ := hfound p hp
      exact ⟨_, bind_eq_ok.2 ⟨_, bind_eq_ok.2 ⟨ids, hids, rfl⟩, rfl⟩⟩
    refine ⟨⟨nodes⟩, bind_eq_ok.2 ⟨ps, hps, bind_eq_ok.2 ⟨nodes, ?_, rfl⟩⟩⟩
    rw [eq_map_of_asKeys hps]
    exact hnodes

/-- What an id stands for in the map is one of the cards. -/
theorem mem_of_byId {c : Card} (h : (byId cards).get? a = some c) : c ∈ cards ∧ c.id.key = a.key := by
  obtain ⟨p, hp, hk, rfl⟩ := IdMap.exists_of_get?_ofList h
  obtain ⟨c, hc, rfl⟩ := List.mem_map.1 hp
  exact ⟨hc, hk⟩

theorem mem_of_mem_byId {p : Json × Card} (h : p ∈ byId cards) : p.2 ∈ cards := by
  obtain ⟨q, hq, -, hvalue⟩ := IdMap.exists_of_mem_ofList h
  obtain ⟨c, hc, rfl⟩ := List.mem_map.1 hq
  rwa [hvalue]

/-- Cards with different ids are each the one with its id. -/
theorem byId_of_nodup (h : (Ids.keys (cards.map (·.id))).Nodup) : byId cards = cards.map fun c => (c.id, c) := by
  refine IdMap.ofList_eq_self ?_
  unfold IdMap.keys
  unfold Ids.keys at h
  rwa [List.map_map] at h ⊢

theorem get?_byId_of_nodup (h : (Ids.keys (cards.map (·.id))).Nodup) {c : Card} (hc : c ∈ cards)
    (hk : c.id.key = a.key) : (byId cards).get? a = some c := by
  rw [← IdMap.get?_congr hk]
  exact IdMap.get?_of_mem (p := (c.id, c)) IdMap.nodup_ofList (by
    rw [← byId, byId_of_nodup h]
    exact List.mem_map_of_mem hc)

theorem proper_ofCards (h : ofCards cards = .ok g) : g.Proper := by
  have hnodes := nodes_ofCards h
  constructor
  · intro p hp
    rw [hnodes] at hp
    obtain ⟨q, hq, rfl⟩ := List.mem_map.1 hp
    obtain ⟨c, hc, hk, hqc⟩ := IdMap.exists_of_mem_ofList hq
    obtain ⟨card, -, rfl⟩ := List.mem_map.1 hc
    show q.2.id.key = q.1.key
    rw [hk, hqc]
  · have honce : (byId cards).keys.Nodup := IdMap.nodup_ofList
    rw [hnodes]
    unfold IdMap.keys at honce ⊢
    rw [List.map_map]
    exact honce

theorem get?_nodes (h : ofCards cards = .ok g) :
    g.nodes.get? a = ((byId cards).get? a).map fun c => ⟨c.id, c.references⟩ := by
  rw [nodes_ofCards h]
  exact IdMap.get?_map fun c : Card => (⟨c.id, c.references⟩ : Node)

theorem listed_ofCards (h : ofCards cards = .ok g) :
    g.listed a = true ↔ ∃ c ∈ cards, c.id.key = a.key := by
  unfold listed IdMap.has
  rw [get?_nodes h, Option.isSome_map]
  change (byId cards).has a = true ↔ _
  unfold byId
  rw [IdMap.has_ofList]
  simp

theorem providers_ofCards (h : ofCards cards = .ok g) :
    g.providers a = (((byId cards).get? a).map Card.references).getD [] := by
  unfold providers
  rw [get?_nodes h, Option.map_map]
  rfl

/-- The providers of a card, if all cards have different ids. -/
theorem providers_ofCards_of_mem (h : ofCards cards = .ok g) (honce : (Ids.keys (cards.map (·.id))).Nodup)
    {c : Card} (hc : c ∈ cards) (hk : c.id.key = a.key) : g.providers a = c.references := by
  rw [providers_ofCards h, get?_byId_of_nodup honce hc hk]
  rfl

theorem listed_congr (h : a.key = b.key) : g.listed a = g.listed b := by
  unfold listed IdMap.has
  rw [IdMap.get?_congr h]

theorem providers_congr (h : a.key = b.key) : g.providers a = g.providers b := by
  unfold providers
  rw [IdMap.get?_congr h]

theorem providedBy_iff : g.providedBy done a = true ↔
    ∀ b ∈ g.providers a, g.listed b = true → done.has b = true := by
  unfold providedBy
  rw [Ids.within_iff]
  simp only [List.mem_filter, and_imp]

theorem providedBy_congr (h : a.key = b.key) : g.providedBy done a = g.providedBy done b := by
  unfold providedBy
  rw [providers_congr h]

/-- A card whose listed providers are done stays so. -/
theorem providedBy_append (more : Ids) (h : g.providedBy done a = true) :
    g.providedBy (done ++ more) a = true := by
  rw [providedBy_iff] at h ⊢
  intro b hb hlisted
  rw [Ids.has_append, h b hb hlisted]
  rfl

/-- A consumer of a card is listed and refers to it. -/
theorem of_mem_consumers (hg : g.Proper) (h : b ∈ g.consumers a) :
    g.listed b = true ∧ (g.providers b).has a = true := by
  obtain ⟨p, hp, rfl⟩ := List.mem_map.1 h
  obtain ⟨hp, hhas⟩ := List.mem_filter.1 hp
  have hnode : g.nodes.get? p.2.id = some p.2 := by
    rw [IdMap.get?_congr (hg.own p hp), IdMap.get?_of_mem hg.once hp]
  constructor
  · exact IdMap.has_eq_true.2 ⟨p.2, hnode⟩
  · unfold providers
    rw [hnode]
    exact hhas

/-- A listed card is a consumer of what it refers to. -/
theorem has_consumers (hg : g.Proper) :
    (g.consumers a).has b = true ↔ g.listed b = true ∧ (g.providers b).has a = true := by
  constructor
  · intro h
    obtain ⟨c, hc, hk⟩ := (Ids.has_iff _ _).1 h
    rw [← listed_congr hk, ← providers_congr hk]
    exact of_mem_consumers hg hc
  · rintro ⟨hlisted, hhas⟩
    obtain ⟨node, hnode⟩ := IdMap.has_eq_true.1 hlisted
    unfold providers at hhas
    rw [hnode] at hhas
    obtain ⟨p, hp, hk, rfl⟩ := IdMap.exists_mem_of_get? hnode
    rw [Json.sameId_iff] at hk
    refine (Ids.has_iff _ _).2 ⟨p.2.id, List.mem_map_of_mem (List.mem_filter.2 ⟨hp, hhas⟩), ?_⟩
    rw [hg.own p hp, hk]

theorem nodup_consumers (hg : g.Proper) (a : Json) : (g.consumers a).keys.Nodup := by
  have hkeys : g.nodes.map (fun p => p.2.id.key) = g.nodes.keys :=
    List.map_congr_left hg.own
  have honce : (g.nodes.map fun p => p.2.id.key).Nodup := by
    rw [hkeys]
    exact hg.once
  unfold consumers Ids.keys
  rw [List.map_map]
  exact honce.sublist (List.filter_sublist.map _)

/-! ### One card after another -/

/-- Cards that have been put into an order, and a queue of cards that may be next. -/
structure Arranging (g : Graph) (done queue : Ids) : Prop where
  once : (Ids.keys (done ++ queue)).Nodup
  listed : ∀ a ∈ done ++ queue, g.listed a = true
  ordered : ∀ before a after, done = before ++ a :: after → g.providedBy before a = true
  queued : ∀ a ∈ queue, g.providedBy done a = true
  complete : ∀ a, g.listed a = true → g.providedBy done a = true → Ids.has (done ++ queue) a = true

/-- Taking a card from the queue puts those into it that had only this one to wait for. -/
theorem Arranging.step (hg : g.Proper) (h : Arranging g done (a :: queue)) : Arranging g (done ++ [a])
    (queue ++ (g.consumers a).sorted.filter (g.providedBy (done ++ [a]))) := by
  have hnew : done.has a = false := by
    have honce := h.once
    rw [Ids.keys_append, List.nodup_append] at honce
    rw [Bool.eq_false_iff, Ne, ← Ids.mem_keys]
    exact fun hmem => honce.2.2 _ hmem _ (List.mem_cons_self ..) rfl
  -- those that come into the queue waited for this card
  have hwaited (b : Json) (hb : b ∈ g.consumers a) : g.providedBy done b = false := by
    obtain ⟨-, hhas⟩ := of_mem_consumers hg hb
    obtain ⟨p, hp, hk⟩ := (Ids.has_iff _ _).1 hhas
    rw [Bool.eq_false_iff, Ne, providedBy_iff]
    intro hall
    have hlisted : g.listed p = true := by
      rw [listed_congr hk]
      exact h.listed a (by simp)
    rw [← Ids.has_congr hk, hall p hp hlisted] at hnew
    cases hnew
  have hready (b : Json) (hb : b ∈ done ++ a :: queue) : g.providedBy done b = true := by
    rcases List.mem_append.1 hb with hb | hb
    · obtain ⟨before, after, rfl⟩ := List.append_of_mem hb
      exact providedBy_append _ (h.ordered before b after rfl)
    · exact h.queued b hb
  have hassoc : ∀ freed : Ids, (done ++ [a]) ++ (queue ++ freed) = (done ++ a :: queue) ++ freed := by
    simp
  constructor
  case once =>
    rw [hassoc, Ids.keys_append, List.nodup_append]
    refine ⟨h.once, ?_, ?_⟩
    · have hsorted : (g.consumers a).sorted.keys.Nodup :=
        Ids.keys_sorted_perm.nodup_iff.2 (nodup_consumers hg a)
      exact hsorted.sublist (List.filter_sublist.map _)
    · intro k hk l hl hkl
      subst hkl
      obtain ⟨b, hb, rfl⟩ := List.mem_map.1 hk
      obtain ⟨c, hc, hsame⟩ := List.mem_map.1 hl
      have hfreed := hwaited c (Ids.mem_sorted.1 (List.mem_filter.1 hc).1)
      rw [providedBy_congr hsame, hready b hb] at hfreed
      cases hfreed
  case listed =>
    rw [hassoc]
    intro b hb
    rcases List.mem_append.1 hb with hb | hb
    · exact h.listed b hb
    · exact (of_mem_consumers hg (Ids.mem_sorted.1 (List.mem_filter.1 hb).1)).1
  case ordered =>
    intro before b after heq
    rcases List.eq_nil_or_concat after with rfl | ⟨after, c, rfl⟩
    · obtain ⟨rfl, hlast⟩ := List.append_inj' heq rfl
      cases hlast
      exact h.queued a (List.mem_cons_self ..)
    · rw [List.concat_eq_append, ← List.cons_append, ← List.append_assoc] at heq
      exact h.ordered before b after (List.append_inj' heq rfl).1
  case queued =>
    intro b hb
    rcases List.mem_append.1 hb with hb | hb
    · exact providedBy_append _ (h.queued b (List.mem_cons_of_mem _ hb))
    · exact (List.mem_filter.1 hb).2
  case complete =>
    intro b hlisted hprovided
    rw [hassoc, Ids.has_append, Bool.or_eq_true]
    cases hbefore : g.providedBy done b with
    | true => exact .inl (h.complete b hlisted hbefore)
    | false =>
      refine .inr ?_
      -- the listed provider that was not done is the card that was taken
      have hconsumes : (g.providers b).has a = true := by
        rw [Bool.eq_false_iff, Ne, providedBy_iff] at hbefore
        push Not at hbefore
        obtain ⟨p, hp, hlisted, hmissing⟩ := hbefore
        have hnow := providedBy_iff.1 hprovided p hp hlisted
        rw [Ne, Bool.not_eq_true] at hmissing
        rw [Ids.has_append, hmissing, Bool.false_or, Ids.has_cons, Ids.has_nil, Bool.or_false,
          Json.sameId_iff] at hnow
        exact (Ids.has_iff _ _).2 ⟨p, hp, hnow.symm⟩
      obtain ⟨c, hc, hk⟩ := (Ids.has_iff _ _).1 ((has_consumers hg).2 ⟨hlisted, hconsumes⟩)
      refine (Ids.has_iff _ _).2 ⟨c, List.mem_filter.2 ⟨Ids.mem_sorted.2 hc, ?_⟩, hk⟩
      rw [providedBy_congr hk]
      exact hprovided

/-- There are no more cards than are listed. -/
theorem Arranging.length_le (h : Arranging g done queue) :
    done.length + queue.length ≤ g.nodes.length := by
  have hsub : Ids.keys (done ++ queue) ⊆ g.nodes.keys := by
    intro k hk
    obtain ⟨a, ha, rfl⟩ := List.mem_map.1 hk
    exact IdMap.mem_keys.2 (h.listed a ha)
  have hle := (h.once.subperm hsub).length_le
  unfold Ids.keys IdMap.keys at hle
  rwa [List.length_map, List.length_map, List.length_append] at hle

/-- Taking all cards from the queue, if there are as many steps as cards that are not done. -/
theorem arranging_arrange {n : Nat} (hg : g.Proper) (h : Arranging g done queue)
    (hn : g.nodes.length ≤ done.length + n) (hrun : g.arrange n done queue = .ok order) :
    Arranging g order [] := by
  induction n generalizing done queue with
  | zero =>
    cases hrun
    have hlength := h.length_le
    obtain rfl : queue = [] := List.length_eq_zero_iff.1 (by omega)
    exact h
  | succ n ih =>
    cases queue with
    | nil =>
      cases hrun
      exact h
    | cons a queue =>
      unfold arrange at hrun
      obtain ⟨consumers, hsort, hrun⟩ := bind_eq_ok.1 hrun
      rw [Ids.eq_of_sort hsort] at hrun
      refine ih (h.step hg) ?_ hrun
      rw [List.length_append, List.length_singleton]
      omega

theorem arranging_arranged (hg : g.Proper) (h : g.arranged = .ok order) : Arranging g order [] := by
  obtain ⟨roots, hsort, hrun⟩ := bind_eq_ok.1 h
  rw [Ids.eq_of_sort hsort] at hrun
  have hmem {a : Json} (ha : a ∈ Ids.sorted ((IdMap.ids g.nodes).filter (g.providedBy []))) :
      a ∈ IdMap.ids g.nodes ∧ g.providedBy [] a = true :=
    List.mem_filter.1 (Ids.mem_sorted.1 ha)
  refine arranging_arrange hg ⟨?_, ?_, ?_, ?_, ?_⟩ (by simp) hrun
  · rw [List.nil_append]
    refine Ids.keys_sorted_perm.nodup_iff.2 ?_
    have honce : (Ids.keys (IdMap.ids g.nodes)).Nodup := by
      unfold Ids.keys IdMap.ids
      rw [← IdMap.keys_eq]
      exact hg.once
    exact honce.sublist (List.filter_sublist.map _)
  · intro a ha
    obtain ⟨p, hp, rfl⟩ := List.mem_map.1 (hmem ha).1
    exact IdMap.has_iff.2 ⟨p, hp, rfl⟩
  · intro before a after heq
    cases before <;> cases heq
  · exact fun a ha => (hmem ha).2
  · intro a hlisted hprovided
    obtain ⟨p, hp, hk⟩ := IdMap.has_iff.1 hlisted
    rw [List.nil_append, Ids.has_sorted, Ids.has_iff]
    refine ⟨p.1, List.mem_filter.2 ⟨List.mem_map_of_mem hp, ?_⟩, hk⟩
    rw [providedBy_congr hk]
    exact hprovided

/-! ### Circles -/

/-- A listed card refers to another one that is listed. -/
def Uses (g : Graph) (a b : Json) : Prop :=
  g.listed a = true ∧ b ∈ g.providers a ∧ g.listed b = true

/-- A card is in a circle of references among the listed cards, or refers to one that is, at any
distance. -/
def Circular (g : Graph) (a : Json) : Prop :=
  ∃ b c, ReflTransGen g.Uses a b ∧ TransGen g.Uses b c ∧ c.key = b.key

theorem Circular.listed (h : g.Circular a) : g.listed a = true := by
  obtain ⟨b, c, hab, hbc, -⟩ := h
  rcases hab.cases_head with rfl | ⟨d, had, -⟩
  · obtain ⟨d, hbd, -⟩ := TransGen.head'_iff.1 hbc
    exact hbd.1
  · exact had.1

/-- What refers to a card in a circle or behind one is behind it. -/
theorem Circular.of_uses (hab : g.Uses a b) (h : g.Circular b) : g.Circular a := by
  obtain ⟨c, d, hbc, hcd, hk⟩ := h
  exact ⟨c, d, hbc.head hab, hcd, hk⟩

theorem Arranging.before_of_uses (h : Arranging g order []) (ha : order.has a = true)
    (hab : g.Uses a b) :
    order.has b = true ∧ order.keys.idxOf b.key < order.keys.idxOf a.key := by
  obtain ⟨c, hc, hk⟩ := (Ids.has_iff _ _).1 ha
  obtain ⟨before, after, rfl⟩ := List.append_of_mem hc
  have hbefore : Ids.has before b = true := by
    refine providedBy_iff.1 (h.ordered before c after rfl) b ?_ hab.2.2
    rw [providers_congr hk]
    exact hab.2.1
  have honce := h.once
  rw [List.append_nil, Ids.keys_append, List.nodup_append] at honce
  constructor
  · rw [Ids.has_append, hbefore]
    rfl
  · have hnot : a.key ∉ Ids.keys before := fun hmem => honce.2.2 _ hmem _ (List.mem_cons_self ..) hk.symm
    rw [Ids.keys_append, List.idxOf_append_of_mem (Ids.mem_keys.2 hbefore),
      List.idxOf_append_of_notMem hnot]
    have hlt := List.idxOf_lt_length_of_mem (Ids.mem_keys.2 hbefore)
    omega

theorem Arranging.before_of_transGen (h : Arranging g order []) (ha : order.has a = true)
    (hab : TransGen g.Uses a b) :
    order.has b = true ∧ order.keys.idxOf b.key < order.keys.idxOf a.key := by
  induction hab with
  | single hab => exact h.before_of_uses ha hab
  | tail _ hbc ih =>
    obtain ⟨hb, hlt⟩ := ih
    obtain ⟨hc, hlt'⟩ := h.before_of_uses hb hbc
    exact ⟨hc, hlt'.trans hlt⟩

/-- A card of the order leads into no circle. -/
theorem Arranging.not_circular (h : Arranging g order []) (ha : order.has a = true) :
    ¬g.Circular a := by
  rintro ⟨b, c, hab, hbc, hk⟩
  have hb : order.has b = true := by
    rcases Relation.reflTransGen_iff_eq_or_transGen.1 hab with rfl | hab
    · exact ha
    · exact (h.before_of_transGen ha hab).1
  have hlt := (h.before_of_transGen hb hbc).2
  rw [hk] at hlt
  omega

/-- A card that is missing refers to another one that is. -/
theorem Arranging.exists_uses (h : Arranging g order []) (ha : g.listed a = true)
    (hmissing : order.has a = false) : ∃ b, g.Uses a b ∧ order.has b = false := by
  have hcomplete := h.complete a ha
  rw [List.append_nil, hmissing] at hcomplete
  have hwaits : g.providedBy order a ≠ true := fun hprovided => nomatch hcomplete hprovided
  rw [Ne, providedBy_iff] at hwaits
  push Not at hwaits
  obtain ⟨b, hb, hlisted, hnot⟩ := hwaits
  exact ⟨b, ⟨ha, hb, hlisted⟩, Bool.eq_false_iff.2 hnot⟩

/-- Where every card leads to another one of finitely many, all of them lead into a circle. -/
theorem circular_of_forall {P : Json → Prop} (hlisted : ∀ a, P a → g.listed a = true)
    (hnext : ∀ a, P a → ∃ b, g.Uses a b ∧ P b) (ha : P a) : g.Circular a := by
  choose! next huses hP using hnext
  have hwalk (n : Nat) : P (next^[n] a) := by
    induction n with
    | zero => exact ha
    | succ n ih =>
      rw [Function.iterate_succ_apply']
      exact hP _ ih
  have hsteps (n k : Nat) : ReflTransGen g.Uses (next^[n] a) (next^[n + k] a) := by
    induction k with
    | zero => exact .refl
    | succ k ih =>
      refine ih.tail ?_
      rw [← Nat.add_assoc, Function.iterate_succ_apply']
      exact huses _ (hwalk _)
  -- two of the cards on the way are the same
  obtain ⟨n, m, hne, hsame⟩ := Finite.exists_ne_map_eq_of_infinite
    fun n : Nat => (⟨(next^[n] a).key, IdMap.mem_keys.2 (hlisted _ (hwalk n))⟩ : {k // k ∈ g.nodes.keys})
  have hcircle {n m : Nat} (hlt : n < m) (hk : (next^[m] a).key = (next^[n] a).key) :
      g.Circular a := by
    obtain ⟨k, rfl⟩ := Nat.exists_eq_add_of_lt hlt
    have hstart := hsteps 0 n
    rw [Nat.zero_add] at hstart
    refine ⟨next^[n] a, next^[n + k + 1] a, hstart, ?_, hk⟩
    refine .tail' (hsteps n k) ?_
    rw [Function.iterate_succ_apply']
    exact huses _ (hwalk _)
  rw [Subtype.mk.injEq] at hsame
  rcases Nat.lt_or_gt_of_ne hne with hlt | hlt
  · exact hcircle hlt hsame.symm
  · exact hcircle hlt hsame

/-- **The cards that are missing from the order are those in a circle of references or behind one.** -/
theorem missing_iff_circular (hg : g.Proper) (h : g.arranged = .ok order) :
    (g.missing order).has a = true ↔ g.Circular a := by
  have harranging := arranging_arranged hg h
  have hmissing : (g.missing order).has a = true ↔ g.listed a = true ∧ order.has a = false := by
    unfold missing
    rw [Ids.has_without, Bool.and_eq_true, Bool.not_eq_true', Ids.has_iff]
    unfold listed
    rw [IdMap.has_iff]
    simp [IdMap.ids]
  rw [hmissing]
  constructor
  · rintro ⟨hlisted, hnot⟩
    refine circular_of_forall (P := fun b => g.listed b = true ∧ order.has b = false)
      (fun b hb => hb.1) (fun b hb => ?_) ⟨hlisted, hnot⟩
    obtain ⟨c, huses, hc⟩ := harranging.exists_uses hb.1 hb.2
    exact ⟨c, huses, huses.2.2, hc⟩
  · intro hcircular
    refine ⟨hcircular.listed, ?_⟩
    rw [Bool.eq_false_iff]
    exact fun hhas => harranging.not_circular hhas hcircular

/-! ### The whole order -/

/-- An order in which each listed card that is not stuck comes once, after its listed providers. -/
structure Ordered (g : Graph) (stuck order : Ids) : Prop where
  once : order.keys.Nodup
  has_iff : ∀ a, order.has a = true ↔ g.listed a = true ∧ stuck.has a = false
  before : ∀ first a rest, order = first ++ a :: rest → ∀ b ∈ g.providers a, g.listed b = true →
    Ids.has first b = true

/-- A card of an order refers neither to itself nor to a card that comes later. -/
theorem Ordered.not_has {stuck first rest : Ids} (h : g.Ordered stuck order) (heq : order = first ++ a :: rest)
    (hb : b ∈ a :: rest) : (g.providers a).has b = false := by
  rw [Bool.eq_false_iff]
  intro hhas
  obtain ⟨i, hi, hk⟩ := (Ids.has_iff _ _).1 hhas
  have hlisted : g.listed b = true := by
    refine ((h.has_iff b).1 (Ids.has_of_mem ?_)).1
    rw [heq]
    exact List.mem_append_right _ hb
  have hfirst : Ids.has first b = true := by
    rw [← Ids.has_congr hk]
    exact h.before first a rest heq i hi (by rwa [listed_congr hk])
  have honce := h.once
  rw [heq, Ids.keys_append, List.nodup_append] at honce
  exact honce.2.2 _ (Ids.mem_keys.2 hfirst) _ (List.mem_map_of_mem hb) rfl

theorem Ordered.pairwise {stuck : Ids} (h : g.Ordered stuck order) :
    order.Pairwise fun a b => (g.providers a).has b = false := by
  suffices hrest : ∀ first rest, order = first ++ rest →
      rest.Pairwise fun a b => (g.providers a).has b = false from hrest [] order rfl
  intro first rest heq
  induction rest generalizing first with
  | nil => exact .nil
  | cons a rest ih =>
    refine List.pairwise_cons.2 ⟨fun b hb => h.not_has heq (List.mem_cons_of_mem _ hb), ?_⟩
    exact ih (first ++ [a]) (by rw [heq, List.append_assoc]; rfl)

theorem order_of_arranged (h : g.arranged = .ok done) :
    g.order = if (g.missing done).isEmpty then .ok done
      else (g.missing done).sort.bind fun stuck => .error (.cycle stuck) := by
  unfold order
  rw [h]
  rfl

theorem order_eq_ok (h : g.order = .ok order) :
    g.arranged = .ok order ∧ g.missing order = [] := by
  obtain ⟨done, hdone, -⟩ := bind_eq_ok.1 h
  rw [order_of_arranged hdone] at h
  split at h
  · rename_i hempty
    cases h
    exact ⟨hdone, List.isEmpty_iff.1 hempty⟩
  · cases hsort : (g.missing done).sort with
    | ok stuck =>
      rw [hsort] at h
      cases h
    | error f =>
      rw [hsort] at h
      cases h

theorem arrange_ne_cycle {stuck : Ids} {n : Nat} : g.arrange n done queue ≠ .error (.cycle stuck) := by
  induction n generalizing done queue with
  | zero => exact fun h => nomatch h
  | succ n ih =>
    cases queue with
    | nil => exact fun h => nomatch h
    | cons a queue =>
      unfold arrange
      cases hsort : (g.consumers a).sort with
      | ok consumers => exact ih
      | error f =>
        rintro ⟨⟩
        exact Ids.sort_ne_cycle hsort

/-- The cards that an order misses are named in increasing order. -/
theorem order_eq_cycle {stuck : Ids} (h : g.order = .error (.cycle stuck)) :
    ∃ done, g.arranged = .ok done ∧ g.missing done ≠ [] ∧ stuck = (g.missing done).sorted := by
  cases hdone : g.arranged with
  | error f =>
    unfold order at h
    rw [hdone] at h
    cases h
    unfold arranged at hdone
    cases hsort : Ids.sort ((IdMap.ids g.nodes).filter (g.providedBy [])) with
    | ok roots =>
      rw [hsort] at hdone
      exact absurd hdone arrange_ne_cycle
    | error f =>
      rw [hsort] at hdone
      cases hdone
      exact absurd hsort Ids.sort_ne_cycle
  | ok done =>
    rw [order_of_arranged hdone] at h
    split at h
    · cases h
    · rename_i hempty
      refine ⟨done, rfl, fun hnil => hempty (List.isEmpty_iff.2 hnil), ?_⟩
      cases hsort : (g.missing done).sort with
      | ok sorted =>
        rw [hsort] at h
        cases h
        exact Ids.eq_of_sort hsort
      | error f =>
        rw [hsort] at h
        cases h
        exact absurd hsort Ids.sort_ne_cycle

theorem ordered_of_order (hg : g.Proper) (h : g.order = .ok order) : g.Ordered [] order := by
  obtain ⟨harranged, hmissing⟩ := order_eq_ok h
  have harranging := arranging_arranged hg harranged
  have honce := harranging.once
  have hlisted := harranging.listed
  rw [List.append_nil] at honce hlisted
  refine ⟨honce, fun a => ⟨fun ha => ⟨?_, rfl⟩, fun ha => ?_⟩, fun first a rest heq b hb hb' => ?_⟩
  · obtain ⟨b, hb, hk⟩ := (Ids.has_iff _ _).1 ha
    rw [← listed_congr hk]
    exact hlisted b hb
  · have hnot : (g.missing order).has a = false := by rw [hmissing]; rfl
    obtain ⟨p, hp, hk⟩ := IdMap.has_iff.1 ha.1
    have hids : Ids.has (IdMap.ids g.nodes) a = true :=
      (Ids.has_iff _ _).2 ⟨p.1, List.mem_map_of_mem hp, hk⟩
    unfold missing at hnot
    rw [Ids.has_without, hids, Bool.true_and, Bool.not_eq_false'] at hnot
    exact hnot
  · exact providedBy_iff.1 (harranging.ordered first a rest heq) b hb hb'

/-- The ids of all cards that are listed are integers. -/
def IntegerIds (g : Graph) : Prop := ∀ p ∈ g.nodes, p.1.isInt = true ∧ p.2.id.isInt = true

/-- Cards with integer ids can be put into an order of such ids, as far as circles let them. -/
theorem exists_arranged (hg : g.IntegerIds) :
    ∃ order, g.arranged = .ok order ∧ ∀ a ∈ order, a.isInt = true := by
  have hsome (n : Nat) (done queue : Ids) (hdone : ∀ a ∈ done, a.isInt = true)
      (hqueue : ∀ a ∈ queue, a.isInt = true) :
      ∃ order, g.arrange n done queue = .ok order ∧ ∀ a ∈ order, a.isInt = true := by
    induction n generalizing done queue with
    | zero => exact ⟨done, rfl, hdone⟩
    | succ n ih =>
      cases queue with
      | nil => exact ⟨done, rfl, hdone⟩
      | cons a queue =>
        have hconsumers : ∀ b ∈ g.consumers a, b.isInt = true := by
          intro b hb
          obtain ⟨p, hp, rfl⟩ := List.mem_map.1 hb
          exact (hg p (List.mem_filter.1 hp).1).2
        rw [List.forall_mem_cons] at hqueue
        unfold arrange
        rw [Ids.sort_of_isInt hconsumers]
        refine ih _ _ (List.forall_mem_append.2 ⟨hdone, List.forall_mem_singleton.2 hqueue.1⟩)
          (List.forall_mem_append.2 ⟨hqueue.2, fun b hb => ?_⟩)
        exact hconsumers b (Ids.mem_sorted.1 (List.mem_filter.1 hb).1)
  have hroots : ∀ a ∈ (IdMap.ids g.nodes).filter (g.providedBy []), a.isInt = true := by
    intro a ha
    obtain ⟨p, hp, rfl⟩ := List.mem_map.1 (List.mem_filter.1 ha).1
    exact (hg p hp).1
  unfold arranged
  rw [Ids.sort_of_isInt hroots]
  exact hsome _ _ _ (List.forall_mem_nil _) fun a ha => hroots a (Ids.mem_sorted.1 ha)

/-- Cards with integer ids have an order unless some of them are in a circle. -/
theorem order_of_integerIds (hg : g.IntegerIds) :
    (∃ order, g.order = .ok order ∧ ∀ a ∈ order, a.isInt = true) ∨
      ∃ stuck, g.order = .error (.cycle stuck) := by
  obtain ⟨done, hdone, hints⟩ := exists_arranged hg
  have hmissing : Ids.sort (g.missing done) = .ok (g.missing done).sorted := by
    refine Ids.sort_of_isInt fun a ha => ?_
    obtain ⟨p, hp, rfl⟩ := List.mem_map.1 (List.mem_filter.1 ha).1
    exact (hg p hp).1
  rw [order_of_arranged hdone, hmissing]
  split
  · exact .inl ⟨done, rfl, hints⟩
  · exact .inr ⟨_, rfl⟩

end Graph
end CardTransfer
