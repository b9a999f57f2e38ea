import CardTransfer.Card.State
import CardTransfer.Proofs.Card.Order
import CardTransfer.Proofs.Card.Reference
import CardTransfer.Proofs.Json.IdOrder

/-!
# Cards that are blocked

Blocking spreads from the seeds to their consumers, to the consumers of those, and so on, as long as these
are not done. Each card comes into the queue once, so the steps that are allowed suffice to empty it, and
then no consumer has been left out: the cards that are blocked are those that are reached in this way
(`blocked_iff`).

A card can only be ready or open if it is neither done nor among those that wait nor blocked
(`stateOf_attemptable_iff`).
-/

namespace CardTransfer

open Relation (ReflTransGen)

namespace Graph

variable {g : Graph} {a b : Json} {seeds done reached queue : Ids}

theorem consumers_congr (h : a.key = b.key) : g.consumers a = g.consumers b := by
  unfold consumers
  simp only [Ids.has_congr h]

/-- A card is a consumer of another one and not done. -/
def Spreads (g : Graph) (done : Ids) (a b : Json) : Prop :=
  b ∈ g.consumers a ∧ done.has b = false

/-- From a seed that is not done, a card is reached over consumers that are not done. -/
def Reaches (g : Graph) (seeds done : Ids) (a : Json) : Prop :=
  ∃ s ∈ seeds, done.has s = false ∧ ∃ b, ReflTransGen (g.Spreads done) s b ∧ b.key = a.key

/-- A card that is reached is not done. -/
theorem Reaches.has_done (h : g.Reaches seeds done a) : done.has a = false := by
  obtain ⟨s, -, hnot, b, hsteps, hk⟩ := h
  rw [← Ids.has_congr hk]
  cases hsteps with
  | refl => exact hnot
  | tail _ hbc => exact hbc.2

/-- **What is reached stays so** with other cards done, if none of them is reached and no seed is lost. -/
theorem Reaches.mono {seeds' done' : Ids}
    (hseeds : ∀ s ∈ seeds, g.Reaches seeds done s → seeds'.has s = true)
    (hdone : ∀ b, g.Reaches seeds done b → done'.has b = false) (h : g.Reaches seeds done a) :
    g.Reaches seeds' done' a := by
  obtain ⟨s, hs, hnot, b, hsteps, hk⟩ := h
  have hreached {b : Json} (hsteps : ReflTransGen (g.Spreads done) s b) : g.Reaches seeds done b :=
    ⟨s, hs, hnot, b, hsteps, rfl⟩
  obtain ⟨s', hs', hks⟩ := (Ids.has_iff _ _).1 (hseeds s hs (hreached .refl))
  -- the seed may be spelled in another way, and so may its consumers be
  have hway : ∃ b', ReflTransGen (g.Spreads done') s' b' ∧ b'.key = b.key := by
    clear hk
    induction hsteps with
    | refl => exact ⟨s', .refl, hks⟩
    | tail hsteps hbc ih =>
      obtain ⟨b', hb', hkb⟩ := ih
      exact ⟨_, hb'.tail ⟨consumers_congr hkb ▸ hbc.1, hdone _ (hreached (hsteps.tail hbc))⟩, rfl⟩
  obtain ⟨b', hb', hkb⟩ := hway
  refine ⟨s', hs', ?_, b', hb', hkb.trans hk⟩
  rw [Ids.has_congr hks]
  exact hdone s (hreached .refl)

/-- A card that is reached is so from one seed, which is that card or has a consumer. -/
theorem Reaches.exists_seed (h : g.Reaches seeds done a) : ∃ s ∈ seeds, g.Reaches [s] done a ∧
    (s.key = a.key ∨ ∃ b, b ∈ g.consumers s) := by
  obtain ⟨s, hs, hnot, b, hsteps, hk⟩ := h
  refine ⟨s, hs, ⟨s, List.mem_singleton_self _, hnot, b, hsteps, hk⟩, ?_⟩
  rcases hsteps.cases_head with rfl | ⟨c, hsc, -⟩
  · exact .inl hk
  · exact .inr ⟨c, hsc.1⟩

/-- A card that has a consumer has a whole number as its id. -/
theorem exists_key_of_mem_consumers {cards : List Card} (hg : ofCards cards = .ok g) (h : b ∈ g.consumers a) :
    ∃ n, a.key = .whole n := by
  obtain ⟨-, hprovides⟩ := of_mem_consumers (proper_ofCards hg) h
  obtain ⟨c, hc, hk⟩ := (Ids.has_iff _ _).1 hprovides
  rw [providers_ofCards hg] at hc
  cases hget : (byId cards).get? b with
  | none =>
    rw [hget] at hc
    cases hc
  | some card =>
    rw [hget] at hc
    rw [← hk]
    exact Json.exists_key_of_isInt (Card.isInt_of_mem_references hc)

/-- How many listed cards have not been reached. -/
def unreached (g : Graph) (reached : Ids) : Nat := g.nodes.countP fun p => !reached.has p.2.id

/-- The consumers of a card that are new, and not done. -/
def fresh (g : Graph) (done reached : Ids) (a : Json) : Ids :=
  (g.consumers a).filter fun c => !(reached.has c || done.has c)

theorem spread_succ (n : Nat) : g.spread done (n + 1) reached (a :: queue) =
    g.spread done n (reached ++ g.fresh done reached a) (queue ++ g.fresh done reached a) := rfl

theorem mem_fresh : b ∈ g.fresh done reached a ↔
    b ∈ g.consumers a ∧ reached.has b = false ∧ done.has b = false := by
  unfold fresh
  rw [List.mem_filter, Bool.not_eq_true', Bool.or_eq_false_iff]

/-- Two properties that exclude each other and of which each brings about a third. -/
theorem countP_add_le {α : Type} {p q r : α → Bool} {l : List α}
    (hq : ∀ x ∈ l, q x = true → p x = true ∧ r x = false) (hr : ∀ x ∈ l, r x = true → p x = true) :
    l.countP q + l.countP r ≤ l.countP p := by
  induction l with
  | nil => exact Nat.le_refl _
  | cons x l ih =>
    rw [List.forall_mem_cons] at hq hr
    have hle := ih hq.2 hr.2
    have hx : (q x).toNat + (r x).toNat ≤ (p x).toNat := by
      cases hqx : q x with
      | true =>
        rw [(hq.1 hqx).1, (hq.1 hqx).2]
        decide
      | false =>
        cases hrx : r x with
        | true =>
          rw [hr.1 hrx]
          decide
        | false => exact Nat.zero_le _
    simp only [List.countP_cons, Bool.toNat] at hx ⊢
    simp only [Bool.cond_eq_ite] at hx
    omega

/-- As many cards as are new are no longer to be reached. -/
theorem unreached_append (done reached : Ids) (a : Json) : g.unreached (reached ++ g.fresh done reached a) +
    (g.fresh done reached a).length ≤ g.unreached reached := by
  let new (p : Json × Node) : Bool := p.2.providers.has a && !(reached.has p.2.id || done.has p.2.id)
  have hlength : (g.fresh done reached a).length = g.nodes.countP new := by
    unfold fresh consumers
    rw [List.filter_map, List.length_map, List.filter_filter, List.countP_eq_length_filter]
    congr 1
    refine List.filter_congr fun p _ => ?_
    exact Bool.and_comm _ _
  have hnew (p : Json × Node) (hp : p ∈ g.nodes) (h : new p = true) :
      p.2.id ∈ g.fresh done reached a := by
    obtain ⟨hhas, hfresh⟩ := (Bool.and_eq_true _ _ ▸ h : _ ∧ _)
    exact List.mem_filter.2 ⟨List.mem_map_of_mem (List.mem_filter.2 ⟨hp, hhas⟩), hfresh⟩
  unfold unreached
  rw [hlength]
  refine countP_add_le (fun p hp h => ?_) fun p hp h => ?_
  · rw [Ids.has_append, Bool.not_eq_true', Bool.or_eq_false_iff] at h
    refine ⟨by rw [h.1]; rfl, ?_⟩
    rw [Bool.eq_false_iff]
    intro hnow
    rw [Ids.has_of_mem (hnew p hp hnow)] at h
    exact nomatch h.2
  · rw [(mem_fresh.1 (hnew p hp h)).2.1]
    rfl

/-- What the cards that are reached have in common, if their consumers inherit it. -/
theorem forall_mem_spread {P : Json → Prop} (hnext : ∀ a b, P a → g.Spreads done a b → P b) {n : Nat}
    (hqueue : ∀ a ∈ queue, P a) (hreached : ∀ a ∈ reached, P a) :
    ∀ a ∈ g.spread done n reached queue, P a := by
  induction n generalizing reached queue with
  | zero => exact hreached
  | succ n ih =>
    cases queue with
    | nil => exact hreached
    | cons a queue =>
      rw [List.forall_mem_cons] at hqueue
      have hfresh : ∀ b ∈ g.fresh done reached a, P b := fun b hb =>
        hnext a b hqueue.1 ⟨(mem_fresh.1 hb).1, (mem_fresh.1 hb).2.2⟩
      rw [spread_succ]
      exact ih (List.forall_mem_append.2 ⟨hqueue.2, hfresh⟩)
        (List.forall_mem_append.2 ⟨hreached, hfresh⟩)

theorem subset_spread {n : Nat} : reached ⊆ g.spread done n reached queue := by
  induction n generalizing reached queue with
  | zero => exact List.Subset.refl _
  | succ n ih =>
    cases queue with
    | nil => exact List.Subset.refl _
    | cons a queue =>
      rw [spread_succ]
      exact fun x hx => ih (List.mem_append_left _ hx)

/-- Cards together with all their consumers that are not done. -/
def Closed (g : Graph) (done reached : Ids) (a : Json) : Prop :=
  ∀ b ∈ g.consumers a, done.has b = false → reached.has b = true

/-- With enough steps, no consumer is left out. -/
theorem closed_spread {n : Nat} (hn : queue.length + g.unreached reached ≤ n)
    (h : ∀ a ∈ reached, a ∈ queue ∨ g.Closed done reached a) :
    ∀ a ∈ g.spread done n reached queue, g.Closed done (g.spread done n reached queue) a := by
  induction n generalizing reached queue with
  | zero =>
    obtain rfl : queue = [] := List.length_eq_zero_iff.1 (by omega)
    exact fun a ha => (h a ha).resolve_left List.not_mem_nil
  | succ n ih =>
    cases queue with
    | nil => exact fun a ha => (h a ha).resolve_left List.not_mem_nil
    | cons c queue =>
      rw [spread_succ]
      have hfewer := g.unreached_append done reached c
      refine ih ?_ fun a ha => ?_
      · rw [List.length_append]
        rw [List.length_cons] at hn
        omega
      rcases List.mem_append.1 ha with ha | ha
      · rcases h a ha with hqueue | hclosed
        · rcases List.mem_cons.1 hqueue with rfl | hqueue
          · -- the card that has been taken from the queue
            refine .inr fun b hb hdone => ?_
            rw [Ids.has_append, Bool.or_eq_true]
            cases hreached : reached.has b with
            | true => exact .inl rfl
            | false => exact .inr (Ids.has_of_mem (mem_fresh.2 ⟨hb, hreached, hdone⟩))
          · exact .inl (List.mem_append_left _ hqueue)
        · refine .inr fun b hb hdone => ?_
          rw [Ids.has_append, hclosed b hb hdone]
          rfl
      · exact .inl (List.mem_append_right _ ha)

/-- **The cards that are blocked**: those that are reached from a seed. -/
theorem blocked_iff : (g.blocked seeds done).has a = true ↔ g.Reaches seeds done a := by
  have hstart (b : Json) : (Ids.distinct (seeds.without done)).has b = true ↔
      ∃ s ∈ seeds, done.has s = false ∧ s.key = b.key := by
    rw [Ids.has_distinct, Ids.has_iff]
    unfold Ids.without
    simp only [List.mem_filter, Bool.not_eq_true', and_assoc]
  unfold blocked
  constructor
  · intro h
    obtain ⟨b, hb, hk⟩ := (Ids.has_iff _ _).1 h
    have hseed : ∀ b ∈ Ids.distinct (seeds.without done), ∃ s ∈ seeds, done.has s = false ∧
        ReflTransGen (g.Spreads done) s b := by
      intro b hb
      obtain ⟨hmem, hnot⟩ := List.mem_filter.1 (Ids.mem_of_mem_distinct hb)
      exact ⟨b, hmem, Bool.not_eq_true' _ ▸ hnot, .refl⟩
    obtain ⟨s, hs, hnot, hsteps⟩ := forall_mem_spread (P := fun b => ∃ s ∈ seeds, done.has s = false ∧
      ReflTransGen (g.Spreads done) s b) (fun b c ⟨s, hs, hnot, hsteps⟩ hbc =>
        ⟨s, hs, hnot, hsteps.tail hbc⟩) hseed hseed b hb
    exact ⟨s, hs, hnot, b, hsteps, hk⟩
  · rintro ⟨s, hs, hnot, b, hsteps, hk⟩
    rw [← Ids.has_congr hk]
    clear hk
    induction hsteps with
    | refl =>
      obtain ⟨c, hc, hck⟩ := (Ids.has_iff _ _).1 ((hstart s).2 ⟨s, hs, hnot, rfl⟩)
      exact (Ids.has_iff _ _).2 ⟨c, subset_spread hc, hck⟩
    | tail _ hbc ih =>
      obtain ⟨c, hc, hck⟩ := (Ids.has_iff _ _).1 ih
      let start := Ids.distinct (seeds.without done)
      have hclosed : g.Closed done (g.spread done (start.length + g.nodes.length) start start) c :=
        closed_spread (Nat.add_le_add_left List.countP_le_length _) (fun a ha => .inl ha) c hc
      refine hclosed _ ?_ hbc.2
      rw [consumers_congr hck]
      exact hbc.1

end Graph

theorem stateOf_congr {g : Graph} {done failed blocked : Ids} {a b : Json} (h : a.key = b.key) :
    stateOf g done failed blocked a = stateOf g done failed blocked b := by
  unfold stateOf
  rw [Ids.has_congr h, Ids.has_congr h, Ids.has_congr h, Graph.providers_congr h]

/-- The states of cards depend on their ids alone. -/
theorem get?_states {cards : List Card} {g : Graph} {done failed blocked : Ids} {id : Json}
    (hg : Graph.ofCards cards = .ok g) :
    (IdMap.ofList (cards.map fun c => (c.id, stateOf g done failed blocked c.id))).get? id =
      if g.listed id then some (stateOf g done failed blocked id) else none := by
  have hids : (cards.map fun c => (c.id, stateOf g done failed blocked c.id)) =
      (cards.map (·.id)).map fun a => (a, stateOf g done failed blocked a) := by
    rw [List.map_map]
    rfl
  have hlisted : Ids.has (cards.map (·.id)) id = g.listed id := by
    rw [Bool.eq_iff_iff, Graph.listed_ofCards hg, Ids.has_iff]
    simp
  rw [hids, IdMap.get?_ofList_map fun a b => stateOf_congr, hlisted]

/-- A card can be attempted if it is neither done nor among those that failed nor blocked. -/
theorem stateOf_attemptable_iff {g : Graph} {done failed blocked : Ids} {id : Json} :
    (stateOf g done failed blocked id = .ready ∨ stateOf g done failed blocked id = .open) ↔
      done.has id = false ∧ failed.has id = false ∧ blocked.has id = false := by
  unfold stateOf
  cases done.has id <;> cases failed.has id <;> cases blocked.has id <;>
    cases Ids.within (g.providers id) done <;> simp

theorem stateOf_ready_iff {g : Graph} {done failed blocked : Ids} {id : Json} :
    stateOf g done failed blocked id = .ready ↔ done.has id = false ∧ failed.has id = false ∧
      blocked.has id = false ∧ Ids.within (g.providers id) done = true := by
  unfold stateOf
  cases done.has id <;> cases failed.has id <;> cases blocked.has id <;>
    cases Ids.within (g.providers id) done <;> simp

end CardTransfer
