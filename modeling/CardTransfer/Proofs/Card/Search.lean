import CardTransfer.Proofs.Card.Blocked
import CardTransfer.Proofs.Transfer.BatchOrder
import Mathlib.Order.Bounds.Defs
import Mathlib.Tactic.Set

/-!
# The search for blocked cards

The table of consumers turns the references of a list of cards round: under each card it has those that refer
to it, in the order of the list (`Transposes`). For cards with different ids these are the consumers in the
graph.

The search takes a card from the queue in each round and enters its consumers in the table, one after the
other. In a round they come behind what has been reached so far, and behind the queue; so the queue is always
what has been reached without the cards that were taken from it, and it is empty after as many rounds as cards
have been reached (`iterate_searchRound`). What has been reached then is the least set that holds the seeds
and with a card its consumers, as far as these are not done (`blocked_is_propagation`).
-/

namespace CardTransfer

open Relation (ReflTransGen)

variable {cards others : List Card} {table : IdMap Ids} {ids done seeds reached queue : Ids} {a b id p : Json}

/-! ### Different ids -/

namespace Ids

theorem nodup_add (h : ids.keys.Nodup) (a : Json) : (ids.add a).keys.Nodup := by
  unfold add
  split
  · exact h
  · rename_i hnew
    rw [keys_append, List.nodup_append]
    refine ⟨h, List.nodup_singleton _, fun k hk l hl hkl => hnew (mem_keys.1 ?_)⟩
    rw [← show l = a.key from List.mem_singleton.1 hl, ← hkl]
    exact hk

theorem nodup_distinct : ids.distinct.keys.Nodup := by
  have hfold (start : Ids) (h : start.keys.Nodup) : (keys (ids.foldl add start)).Nodup := by
    induction ids generalizing start with
    | nil => exact h
    | cons a ids ih => exact ih _ (nodup_add h a)
  exact hfold [] List.nodup_nil

end Ids

/-- A document refers to each card once. -/
theorem Json.nodup_references (v : Json) : v.references.keys.Nodup :=
  Ids.keys_sorted_perm.nodup_iff.2 Ids.nodup_distinct

/-! ### The table of consumers -/

/-- The cards of a list that refer to a card. -/
def consumersIn (cards : List Card) (p : Json) : Ids := (cards.filter (·.references.has p)).map (·.id)

/-- A table that turns the references of cards round. -/
structure Transposes (cards : List Card) (table : IdMap Ids) : Prop where
  once : table.keys.Nodup
  consumers : ∀ p, (table.get? p).getD [] = consumersIn cards p
  has_iff : ∀ p, table.has p = true ↔ ∃ c ∈ cards, c.id.key = p.key ∨ c.references.has p = true

/-- A consumer is entered once under each of its providers. -/
theorem get?_addConsumers {refs : Ids} (h : refs.keys.Nodup) : (refs.foldl (addConsumer id) table).get? p =
    if Ids.has refs p then some ((table.get? p).getD [] ++ [id]) else table.get? p := by
  induction refs generalizing table with
  | nil => rfl
  | cons r refs ih =>
    obtain ⟨hnew, h⟩ := List.nodup_cons.1 h
    rw [List.foldl_cons, ih h, addConsumer, IdMap.get?_insert, Ids.has_cons]
    cases hr : r.sameId p with
    | false => rfl
    | true =>
      have hk := (Json.sameId_iff _ _).1 hr
      have hother : Ids.has refs p = false := by
        rw [Bool.eq_false_iff, Ne, ← Ids.mem_keys, ← hk]
        exact hnew
      rw [hother, IdMap.get?_congr hk]
      rfl

theorem nodup_addConsumers {refs : Ids} (h : table.keys.Nodup) :
    (IdMap.keys (refs.foldl (addConsumer id) table)).Nodup := by
  induction refs generalizing table with
  | nil => exact h
  | cons r refs ih => exact ih (IdMap.nodup_insert h)

/-- The table with a card that has not been entered, and has no consumers yet. -/
def withCard (table : IdMap Ids) (id : Json) : IdMap Ids :=
  if table.has id then table else IdMap.insert table id []

theorem getD_withCard : ((withCard table id).get? p).getD [] = (table.get? p).getD [] := by
  unfold withCard
  split
  · rfl
  · rename_i hnew
    rw [IdMap.get?_insert]
    split
    · rename_i hsame
      rw [Bool.not_eq_true, IdMap.has_congr ((Json.sameId_iff _ _).1 hsame), IdMap.has,
        Option.isSome_eq_false_iff, Option.isNone_iff_eq_none] at hnew
      rw [hnew]
      rfl
    · rfl

theorem has_withCard : (withCard table id).has p = (id.sameId p || table.has p) := by
  unfold withCard
  split
  · rename_i hhas
    cases hsame : id.sameId p with
    | false => rfl
    | true => rw [← IdMap.has_congr ((Json.sameId_iff _ _).1 hsame), hhas, Bool.true_or]
  · unfold IdMap.has
    rw [IdMap.get?_insert]
    split
    · rename_i hsame
      rw [hsame]
      rfl
    · rename_i hsame
      rw [Bool.not_eq_true] at hsame
      rw [hsame]
      rfl

theorem nodup_withCard (h : table.keys.Nodup) : (withCard table id).keys.Nodup := by
  unfold withCard
  split
  · exact h
  · exact IdMap.nodup_insert h

/-- **A card more in the table.** -/
theorem Transposes.append (h : Transposes cards table) (c : Card) :
    Transposes (cards ++ [c]) (c.references.foldl (addConsumer c.id) (withCard table c.id)) := by
  have hget (p : Json) : (c.references.foldl (addConsumer c.id) (withCard table c.id)).get? p =
      if c.references.has p then some (((withCard table c.id).get? p).getD [] ++ [c.id])
      else (withCard table c.id).get? p :=
    get?_addConsumers (Json.nodup_references (.obj c.query))
  constructor
  · exact nodup_addConsumers (nodup_withCard h.once)
  · intro p
    have hsingle : consumersIn (cards ++ [c]) p =
        consumersIn cards p ++ if c.references.has p then [c.id] else [] := by
      unfold consumersIn
      rw [List.filter_append, List.map_append, List.filter_singleton]
      cases c.references.has p <;> rfl
    rw [hget p, hsingle]
    split
    · rw [Option.getD_some, getD_withCard, h.consumers]
    · rw [getD_withCard, h.consumers, List.append_nil]
  · intro p
    have hhas : IdMap.has (c.references.foldl (addConsumer c.id) (withCard table c.id)) p =
        (c.references.has p || c.id.sameId p || table.has p) := by
      rw [Bool.or_assoc, ← has_withCard, IdMap.has, hget p]
      unfold IdMap.has
      split
      · rename_i hrefers
        rw [hrefers]
        rfl
      · rename_i hrefers
        rw [Bool.not_eq_true] at hrefers
        rw [hrefers, Bool.false_or]
    rw [hhas]
    simp only [Bool.or_eq_true, h.has_iff, Json.sameId_iff, List.mem_append, List.mem_singleton, or_and_right,
      exists_or, exists_eq_left]
    rw [or_comm, or_comm (a := c.references.has p = true)]

/-- **There is a table of the consumers of cards** whose ids can be keys and whose references can be found. -/
theorem exists_consumerTable (hkeys : ∀ c ∈ cards, ∃ id, c.id.asKey = .ok id)
    (hfound : ∀ c ∈ cards, ∃ ids, c.findReferences = .ok ids) :
    ∃ table, consumerTable cards = .ok table ∧ Transposes cards table := by
  induction cards using List.reverseRecOn with
  | nil => exact ⟨[], rfl, List.nodup_nil, fun _ => rfl, by simp [IdMap.has]⟩
  | append_singleton cards c ih =>
    simp only [List.forall_mem_append, List.forall_mem_singleton] at hkeys hfound
    obtain ⟨table, htable, h⟩ := ih hkeys.1 hfound.1
    obtain ⟨id, hid⟩ := hkeys.2
    obtain ⟨refs, hrefs⟩ := hfound.2
    refine ⟨_, ?_, h.append c⟩
    unfold consumerTable at htable ⊢
    rw [List.foldlM_append, htable, ok_bind, List.foldlM_cons, hid, hrefs, Json.eq_of_asKey hid,
      Card.eq_of_findReferences hrefs]
    rfl

namespace Graph

variable {g h : Graph}

/-- For cards with different ids, the table has the consumers of the graph. -/
theorem consumersIn_eq (honce : (Ids.keys (cards.map (·.id))).Nodup) (hg : ofCards cards = .ok g) (p : Json) :
    consumersIn cards p = g.consumers p := by
  unfold consumersIn consumers
  rw [nodes_ofCards hg, byId_of_nodup honce, List.map_map, List.filter_map, List.map_map]
  rfl

/-- Only listed cards refer to any. -/
theorem listed_of_has_providers (h : (g.providers a).has b = true) : g.listed a = true := by
  unfold providers at h
  unfold listed IdMap.has
  cases hnode : g.nodes.get? a with
  | none =>
    rw [hnode] at h
    cases h
  | some node => rfl

/-! ### Rounds of the search -/

/-- Enters a card that has neither been reached nor is done. The first list holds the cards reached so far, the
second those in the queue. -/
def enqueue (done : Ids) (s : Ids × Ids) (c : Json) : Ids × Ids :=
  if s.1.has c || done.has c then s else (s.1 ++ [c], s.2 ++ [c])

/-- Takes a card from the queue and enters its consumers in the table. -/
def searchRound (table : IdMap Ids) (done : Ids) : Ids × Ids → Ids × Ids
  | (reached, []) => (reached, [])
  | (reached, a :: queue) => ((table.get? a).getD []).foldl (enqueue done) (reached, queue)

/-- Different cards are entered as they come. -/
theorem foldl_enqueue (h : ids.keys.Nodup) : ids.foldl (enqueue done) (reached, queue) =
    (reached ++ ids.filter (fun c => !(reached.has c || done.has c)),
      queue ++ ids.filter (fun c => !(reached.has c || done.has c))) := by
  induction ids generalizing reached queue with
  | nil => simp
  | cons c ids ih =>
    obtain ⟨hnew, h⟩ := List.nodup_cons.1 h
    rw [List.foldl_cons, enqueue]
    dsimp only
    cases hc : reached.has c || done.has c with
    | true =>
      rw [if_pos rfl, ih h, List.filter_cons, hc]
      rfl
    | false =>
      have hsame : ids.filter (fun d => !(Ids.has (reached ++ [c]) d || done.has d)) =
          ids.filter fun d => !(reached.has d || done.has d) := by
        refine List.filter_congr fun d hd => ?_
        have hne : c.sameId d = false := by
          rw [Bool.eq_false_iff, Ne, Json.sameId_iff]
          exact fun hk => hnew (hk ▸ List.mem_map_of_mem hd)
        rw [Ids.has_append, Ids.has_cons, hne, Ids.has_nil, Bool.or_false, Bool.or_false]
      rw [if_neg (by simp), ih h, hsame, List.filter_cons, hc]
      simp

/-- The seeds are entered as they come, without those that are done. -/
theorem foldl_enqueue_seeds : seeds.foldl (enqueue done) ([], []) =
    (Ids.distinct (seeds.without done), Ids.distinct (seeds.without done)) := by
  have hfold (start : Ids) : seeds.foldl (enqueue done) (start, start) =
      ((seeds.without done).foldl Ids.add start, (seeds.without done).foldl Ids.add start) := by
    induction seeds generalizing start with
    | nil => rfl
    | cons a seeds ih =>
      unfold Ids.without at ih ⊢
      rw [List.foldl_cons, List.filter_cons, enqueue]
      cases hdone : done.has a with
      | true =>
        rw [Bool.or_true]
        exact ih start
      | false =>
        cases hreached : start.has a with
        | true =>
          have hadd : start.add a = start := if_pos hreached
          rw [Bool.true_or, if_pos rfl, if_pos (by decide), List.foldl_cons, hadd]
          exact ih start
        | false =>
          have hadd : start.add a = start ++ [a] := if_neg (by rw [hreached]; decide)
          rw [Bool.false_or, if_neg (by decide), if_pos (by decide), List.foldl_cons, hadd]
          exact ih (start ++ [a])
  exact hfold []

/-- A round enters the consumers that are new. -/
theorem searchRound_cons (hg : g.Proper) (htable : ∀ p, (table.get? p).getD [] = g.consumers p) :
    searchRound table done (reached, a :: queue) =
      (reached ++ g.fresh done reached a, queue ++ g.fresh done reached a) := by
  rw [searchRound, htable, foldl_enqueue (nodup_consumers hg a)]
  rfl

/-- The blocked cards are what rounds of the search reach. -/
theorem spread_eq_iterate (hg : g.Proper) (htable : ∀ p, (table.get? p).getD [] = g.consumers p) (n : Nat) :
    g.spread done n reached queue = ((searchRound table done)^[n] (reached, queue)).1 := by
  induction n generalizing reached queue with
  | zero => rfl
  | succ n ih =>
    rw [Function.iterate_succ_apply]
    cases queue with
    | nil =>
      rw [searchRound, Function.iterate_fixed rfl]
      rfl
    | cons a queue => rw [spread_succ, searchRound_cons hg htable, ih]

/-- What is true of the search after some rounds, if each of the cards reached has been in the queue once. -/
structure Searching (g : Graph) (bound n : Nat) (s : Ids × Ids) : Prop where
  once : s.1.keys.Nodup
  queue : s.2 = s.1.drop n
  bound : s.1.length + g.unreached s.1 ≤ bound

theorem Searching.round {bound n : Nat} {s : Ids × Ids} (hg : g.Proper)
    (htable : ∀ p, (table.get? p).getD [] = g.consumers p) (h : Searching g bound n s) :
    Searching g bound (n + 1) (searchRound table done s) := by
  obtain ⟨reached, queue⟩ := s
  obtain ⟨honce, hqueue, hbound⟩ := h
  dsimp only at honce hqueue hbound
  cases queue with
  | nil =>
    refine ⟨honce, ?_, hbound⟩
    show [] = reached.drop (n + 1)
    rw [← List.drop_drop, ← hqueue]
    rfl
  | cons a queue =>
    rw [searchRound_cons hg htable]
    have hlength : n < reached.length := by
      rw [← List.drop_eq_nil_iff.not.trans Nat.not_le, ← hqueue]
      exact List.cons_ne_nil _ _
    refine ⟨?_, ?_, ?_⟩
    · have hfresh : (Ids.keys (g.fresh done reached a)).Nodup :=
        (nodup_consumers hg a).sublist (List.filter_sublist.map _)
      rw [Ids.keys_append, List.nodup_append]
      refine ⟨honce, hfresh, fun k hk l hl hkl => ?_⟩
      obtain ⟨b, hb, rfl⟩ := List.mem_map.1 hl
      rw [hkl, Ids.mem_keys, (mem_fresh.1 hb).2.1] at hk
      cases hk
    · have hrest : queue = reached.drop (n + 1) := by
        rw [← List.drop_drop, ← hqueue]
        rfl
      rw [hrest, List.drop_append_of_le_length hlength]
    · have hfewer := g.unreached_append done reached a
      show (reached ++ g.fresh done reached a).length + g.unreached (reached ++ g.fresh done reached a) ≤ bound
      rw [List.length_append]
      omega

theorem Searching.iterate {bound : Nat} {start : Ids} (hg : g.Proper)
    (htable : ∀ p, (table.get? p).getD [] = g.consumers p) (h : Searching g bound 0 (start, start)) (n : Nat) :
    Searching g bound n ((searchRound table done)^[n] (start, start)) := by
  induction n with
  | zero => exact h
  | succ n ih =>
    rw [Function.iterate_succ_apply']
    exact ih.round hg htable

/-- After as many rounds as cards have been reached, the queue is empty for good. -/
theorem Searching.iterate_eq {bound n : Nat} {s : Ids × Ids} (h : Searching g bound n s)
    (hn : s.1.length ≤ n) (k : Nat) : (searchRound table done)^[k] s = (s.1, []) := by
  have hempty : s = (s.1, []) := Prod.ext rfl (h.queue.trans (List.drop_eq_nil_of_le hn))
  rw [hempty]
  exact Function.iterate_fixed rfl k

/-- No card that has been reached is lost. -/
theorem length_le_iterate (hg : g.Proper) (htable : ∀ p, (table.get? p).getD [] = g.consumers p) (s : Ids × Ids)
    (k : Nat) : s.1.length ≤ ((searchRound table done)^[k] s).1.length := by
  induction k generalizing s with
  | zero => exact Nat.le_refl _
  | succ k ih =>
    rw [Function.iterate_succ_apply]
    refine Nat.le_trans ?_ (ih _)
    obtain ⟨reached, _ | ⟨a, queue⟩⟩ := s
    · exact Nat.le_refl _
    · rw [searchRound_cons hg htable, List.length_append]
      exact Nat.le_add_right _ _

/-- **The search ends after as many rounds as there are blocked cards,** each of which has been in the queue
once. -/
theorem iterate_searchRound (hg : g.Proper) (htable : ∀ p, (table.get? p).getD [] = g.consumers p)
    (seeds done : Ids) : (g.blocked seeds done).keys.Nodup ∧
      (searchRound table done)^[(g.blocked seeds done).length] (seeds.foldl (enqueue done) ([], [])) =
        (g.blocked seeds done, []) := by
  rw [foldl_enqueue_seeds]
  set start := Ids.distinct (seeds.without done) with hstart
  set bound := start.length + g.nodes.length with hbound
  have hsearching : ∀ n, Searching g bound n ((searchRound table done)^[n] (start, start)) :=
    Searching.iterate hg htable ⟨Ids.nodup_distinct, rfl, Nat.add_le_add_left List.countP_le_length _⟩
  have hblocked : g.blocked seeds done = ((searchRound table done)^[bound] (start, start)).1 :=
    spread_eq_iterate hg htable bound
  set reached := g.blocked seeds done with hreached
  have hbounded : reached.length ≤ bound := by
    rw [hblocked]
    exact Nat.le_trans (Nat.le_add_right _ _) (hsearching bound).bound
  -- the remaining rounds, for which steps are allowed, reach nothing more
  obtain ⟨k, hk⟩ := Nat.exists_eq_add_of_le' hbounded
  have hrest : ((searchRound table done)^[reached.length] (start, start)).1.length ≤ reached.length := by
    have hkept : _ ≤ ((searchRound table done)^[k] _).1.length :=
      length_le_iterate hg htable ((searchRound table done)^[reached.length] (start, start)) k
    rwa [← Function.iterate_add_apply, ← hk, ← hblocked] at hkept
  have hlast (k : Nat) : (searchRound table done)^[k] ((searchRound table done)^[reached.length] (start, start)) =
      (((searchRound table done)^[reached.length] (start, start)).1, []) :=
    (hsearching reached.length).iterate_eq hrest k
  have hsame : ((searchRound table done)^[bound] (start, start)).1 =
      ((searchRound table done)^[reached.length] (start, start)).1 := by
    rw [hk, Function.iterate_add_apply, hlast k]
  refine ⟨hblocked ▸ (hsearching bound).once, (hlast 0).trans (Prod.ext ?_ rfl)⟩
  exact (hblocked.trans hsame).symm

/-! ### The least set -/

/-- A set of cards that has the seeds, and with a card those that refer to it, as far as these are not done. -/
structure Saturated (cards : List Card) (seeds done : Ids) (s : Set Key) : Prop where
  seeds : ∀ a ∈ seeds, done.has a = false → a.key ∈ s
  consumers : ∀ c ∈ cards, done.has c.id = false → ∀ p ∈ c.references, p.key ∈ s → c.id.key ∈ s

/-- A card that refers to a card that is reached is reached, if it is not done. -/
theorem Reaches.of_consumer (hg : g.Proper) (h : g.Reaches seeds done a) (hlisted : g.listed b = true)
    (hrefers : (g.providers b).has a = true) (hdone : done.has b = false) : g.Reaches seeds done b := by
  obtain ⟨s, hs, hnot, d, hsteps, hk⟩ := h
  replace hrefers : (g.providers b).has d = true := (Ids.has_congr hk).trans hrefers
  obtain ⟨e, he, hke⟩ := (Ids.has_iff _ _).1 ((has_consumers hg).2 ⟨hlisted, hrefers⟩)
  refine ⟨s, hs, hnot, e, hsteps.tail ⟨he, ?_⟩, hke⟩
  rw [Ids.has_congr hke]
  exact hdone

/-- What is reached is in every such set. -/
theorem Saturated.key_mem (honce : (Ids.keys (cards.map (·.id))).Nodup) (hg : ofCards cards = .ok g)
    {s : Set Key} (hs : Saturated cards seeds done s) (h : g.Reaches seeds done a) : a.key ∈ s := by
  obtain ⟨seed, hseed, hnot, b, hsteps, hk⟩ := h
  rw [← hk]
  clear hk
  induction hsteps with
  | refl => exact hs.seeds seed hseed hnot
  | tail _ hbc ih =>
    obtain ⟨hlisted, hrefers⟩ := of_mem_consumers (proper_ofCards hg) hbc.1
    obtain ⟨c, hc, hkc⟩ := (listed_ofCards hg).1 hlisted
    rw [providers_ofCards_of_mem hg honce hc hkc] at hrefers
    obtain ⟨p, hp, hkp⟩ := (Ids.has_iff _ _).1 hrefers
    rw [← hkc]
    refine hs.consumers c hc ?_ p hp (hkp ▸ ih)
    rw [Ids.has_congr hkc]
    exact hbc.2

/-- **The blocked cards are the least such set.** -/
theorem isLeast_blocked (honce : (Ids.keys (cards.map (·.id))).Nodup) (hg : ofCards cards = .ok g)
    (seeds done : Ids) :
    IsLeast {s | Saturated cards seeds done s} {k | k ∈ (g.blocked seeds done).keys} := by
  have hmem (a : Json) : a.key ∈ (g.blocked seeds done).keys ↔ g.Reaches seeds done a :=
    Ids.mem_keys.trans blocked_iff
  constructor
  · refine ⟨fun a ha hdone => (hmem a).2 ⟨a, ha, hdone, a, .refl, rfl⟩, fun c hc hdone p hp hblocked => ?_⟩
    refine (hmem _).2 (((hmem p).1 hblocked).of_consumer (proper_ofCards hg) ?_ ?_ hdone)
    · exact (listed_ofCards hg).2 ⟨c, hc, rfl⟩
    · rw [providers_ofCards_of_mem hg honce hc rfl]
      exact Ids.has_of_mem hp
  · intro s hs k hk
    obtain ⟨a, ha, rfl⟩ := List.mem_map.1 hk
    exact Saturated.key_mem honce hg hs ((hmem a).1 (List.mem_map_of_mem ha))

theorem Saturated.of_perm {seeds' : Ids} (hperm : others.Perm cards) (hseeds : ∀ a, seeds'.has a = seeds.has a)
    {s : Set Key} (h : Saturated others seeds' done s) : Saturated cards seeds done s := by
  refine ⟨fun a ha hdone => ?_, fun c hc => h.consumers c (hperm.mem_iff.2 hc)⟩
  have hhas := hseeds a
  rw [Ids.has_of_mem ha] at hhas
  obtain ⟨b, hb, hk⟩ := (Ids.has_iff _ _).1 hhas
  rw [← hk]
  refine h.seeds b hb ?_
  rw [Ids.has_congr hk]
  exact hdone

/-- **Blocking is just propagation through cards that are not done.** For cards with different ids, the table of
consumers turns the references round, with each consumer once under each of its providers. The search over this table
ends with an empty queue after as many rounds as there are blocked cards, each of which comes into the queue once.
The blocked cards are the least set that has the seeds and with any card the cards that refer to it, as far as
these are not done; none of them is done; and neither the order of the cards nor that of the seeds matters. -/
theorem blocked_is_propagation (honce : (Ids.keys (cards.map (·.id))).Nodup) (hg : ofCards cards = .ok g)
    (seeds done : Ids) :
    (∃ table, consumerTable cards = .ok table ∧ Transposes cards table ∧
      (∀ p, ((table.get? p).getD []).keys.Nodup ∧
        ∀ c, Ids.has ((table.get? p).getD []) c = true ↔ (g.providers c).has p = true) ∧
      (searchRound table done)^[(g.blocked seeds done).length] (seeds.foldl (enqueue done) ([], [])) =
        (g.blocked seeds done, [])) ∧
    (g.blocked seeds done).keys.Nodup ∧
    IsLeast {s | Saturated cards seeds done s} {k | k ∈ (g.blocked seeds done).keys} ∧
    (∀ a, (g.blocked seeds done).has a = true → done.has a = false) ∧
    ∀ others seeds', others.Perm cards → (∀ a, seeds'.has a = seeds.has a) →
      ∃ h, ofCards others = .ok h ∧ ∀ a, (h.blocked seeds' done).has a = (g.blocked seeds done).has a := by
  have hproper := proper_ofCards hg
  obtain ⟨hkeys, hfound⟩ := ofCards_isOk_iff.1 ⟨g, hg⟩
  rw [byId_of_nodup honce] at hfound
  obtain ⟨table, htable, htransposes⟩ := exists_consumerTable hkeys fun c hc =>
    hfound (c.id, c) (List.mem_map_of_mem hc)
  have hconsumers (p : Json) : (table.get? p).getD [] = g.consumers p :=
    (htransposes.consumers p).trans (consumersIn_eq honce hg p)
  obtain ⟨hnodup, hsearch⟩ := iterate_searchRound hproper hconsumers seeds done
  have hleast := isLeast_blocked honce hg seeds done
  refine ⟨⟨table, htable, htransposes, fun p => ⟨?_, fun c => ?_⟩, hsearch⟩, hnodup, hleast,
    fun a ha => (blocked_iff.1 ha).has_done, fun others seeds' hperm hseeds => ?_⟩
  · rw [hconsumers]
    exact nodup_consumers hproper p
  · rw [hconsumers, has_consumers hproper, and_iff_right_iff_imp]
    exact listed_of_has_providers
  · obtain ⟨h, hh, -⟩ := exists_ofCards_of_perm honce hg hperm
    have honce' : (Ids.keys (others.map (·.id))).Nodup := ((hperm.map _).map _).nodup_iff.2 honce
    have hleast' := isLeast_blocked honce' hh seeds' done
    refine ⟨h, hh, fun a => ?_⟩
    rw [Bool.eq_iff_iff, ← Ids.mem_keys, ← Ids.mem_keys]
    have hsub := hleast'.2 (hleast.1.of_perm hperm.symm fun a => (hseeds a).symm)
    have hsub' := hleast.2 (hleast'.1.of_perm hperm hseeds)
    exact ⟨fun h => hsub h, fun h => hsub' h⟩

/-- Where card 9 is done, the cards 7 and 8, which refer to each other, and 3 and 2 are blocked behind card 8 and
a card that is not listed. -/
theorem blocked_is_propagation_referringCards : (Ids.keys (Session.referringCards.map (·.id))).Nodup ∧
    ∃ g table, ofCards Session.referringCards = .ok g ∧ consumerTable Session.referringCards = .ok table ∧
      (g.blocked [.int 50, .int 8, .int 8] [.int 9]).keys =
        [.whole 50, .whole 8, .whole 3, .whole 7, .whole 2] ∧
      (searchRound table [.int 9])^[5] ([.int 50, .int 8, .int 8].foldl (enqueue [.int 9]) ([], [])) =
        (g.blocked [.int 50, .int 8, .int 8] [.int 9], []) ∧
      IsLeast {s | Saturated Session.referringCards [.int 50, .int 8, .int 8] [.int 9] s}
        {k | k ∈ [.whole 50, .whole 8, .whole 3, .whole 7, .whole 2]} := by
  have honce : (Ids.keys (Session.referringCards.map (·.id))).Nodup := by decide
  have hblocked : (ofCards Session.referringCards).toOption.map (fun g =>
      (g.blocked [.int 50, .int 8, .int 8] [.int 9]).keys) =
      some [.whole 50, .whole 8, .whole 3, .whole 7, .whole 2] := by decide +kernel
  obtain ⟨g, hg, hkeys⟩ := exists_ok_of_toOption hblocked
  obtain ⟨⟨table, htable, -, -, hsearch⟩, -, hleast, -⟩ :=
    blocked_is_propagation honce hg [.int 50, .int 8, .int 8] [.int 9]
  have hlength : (g.blocked [.int 50, .int 8, .int 8] [.int 9]).length = 5 := by
    rw [← List.length_map Json.key]
    exact congrArg List.length hkeys
  rw [hlength] at hsearch
  rw [hkeys] at hleast
  exact ⟨honce, g, table, hg, htable, hkeys, hsearch, hleast⟩

end Graph
end CardTransfer
