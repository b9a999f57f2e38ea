import CardTransfer.Proofs.Card.Order
import CardTransfer.Proofs.Json.IdOrder
import CardTransfer.Transfer.Batch

/-!
# The order of a batch

A batch leaves the cards in circles of references and behind them out and puts the others into an order of
their own. What is left out is just that (`ordered_of_batchOrder`), and the rest always has an order if the
ids are integers (`exists_batchOrder`): a circle among the rest would be one among all cards.
-/

namespace CardTransfer

namespace Graph

variable {g rest : Graph} {cards : List Card} {a b : Json} {stuck order : Ids}

/-- The cards of a list without those whose ids are among some others. -/
def remaining (cards : List Card) (stuck : Ids) : List Card := cards.filter fun c => !stuck.has c.id

theorem byId_append_singleton (cards : List Card) (c : Card) :
    byId (cards ++ [c]) = IdMap.insert (byId cards) c.id c := by
  unfold byId IdMap.ofList
  rw [List.map_append, List.foldl_append]
  rfl

theorem get?_byId_remaining (cards : List Card) (stuck : Ids) (a : Json) :
    (byId (remaining cards stuck)).get? a = if stuck.has a then none else (byId cards).get? a := by
  unfold remaining
  induction cards using List.reverseRecOn with
  | nil => exact (ite_self none).symm
  | append_singleton cards c ih =>
    rw [List.filter_append, byId_append_singleton, IdMap.get?_insert]
    cases hc : stuck.has c.id with
    | true =>
      rw [List.filter_singleton, hc, Bool.not_true, cond_false, List.append_nil, ih]
      split
      · rfl
      · rename_i ha
        rw [if_neg]
        intro hsame
        rw [← Ids.has_congr ((Json.sameId_iff _ _).1 hsame)] at ha
        exact ha hc
    | false =>
      rw [List.filter_singleton, hc, Bool.not_false, cond_true, byId_append_singleton, IdMap.get?_insert, ih]
      split
      · rename_i hsame
        rw [← Ids.has_congr ((Json.sameId_iff _ _).1 hsame), hc]
        rfl
      · rfl

theorem listed_remaining (hg : ofCards cards = .ok g) (hrest : ofCards (remaining cards stuck) = .ok rest) :
    rest.listed a = true ↔ g.listed a = true ∧ stuck.has a = false := by
  have hiff {g : Graph} {cards : List Card} (h : ofCards cards = .ok g) :
      g.listed a = ((byId cards).get? a).isSome := by
    unfold listed IdMap.has
    rw [get?_nodes h, Option.isSome_map]
  rw [hiff hrest, hiff hg, get?_byId_remaining]
  cases stuck.has a <;> simp

theorem providers_remaining (hg : ofCards cards = .ok g)
    (hrest : ofCards (remaining cards stuck) = .ok rest) (ha : stuck.has a = false) :
    rest.providers a = g.providers a := by
  rw [providers_ofCards hrest, providers_ofCards hg, get?_byId_remaining, ha]
  rfl

theorem uses_of_remaining (hg : ofCards cards = .ok g)
    (hrest : ofCards (remaining cards stuck) = .ok rest) (h : rest.Uses a b) : g.Uses a b := by
  obtain ⟨ha, hab, hb⟩ := h
  rw [listed_remaining hg hrest] at ha hb
  rw [providers_remaining hg hrest ha.2] at hab
  exact ⟨ha.1, hab, hb.1⟩

/-- A circle among the cards that remain is one among all. -/
theorem circular_of_remaining (hg : ofCards cards = .ok g)
    (hrest : ofCards (remaining cards stuck) = .ok rest) (h : rest.Circular a) : g.Circular a := by
  obtain ⟨b, c, hab, hbc, hk⟩ := h
  have hmono : ∀ x y, rest.Uses x y → g.Uses x y := fun _ _ => uses_of_remaining hg hrest
  exact ⟨b, c, Relation.ReflTransGen.mono hmono _ _ hab, Relation.TransGen.mono hmono _ _ hbc, hk⟩

theorem exists_ofCards_remaining (hg : ofCards cards = .ok g) (stuck : Ids) :
    ∃ rest, ofCards (remaining cards stuck) = .ok rest := by
  obtain ⟨hkeys, hfound⟩ := ofCards_isOk_iff.1 ⟨g, hg⟩
  refine ofCards_isOk_iff.2 ⟨fun c hc => hkeys c (List.mem_filter.1 hc).1, fun p hp => ?_⟩
  -- the card stands for its id among all cards too
  have hget : (byId (remaining cards stuck)).get? p.1 = some p.2 :=
    IdMap.get?_of_mem IdMap.nodup_ofList hp
  rw [get?_byId_remaining] at hget
  split at hget
  · cases hget
  · obtain ⟨q, hq, -, hsame⟩ := IdMap.exists_mem_of_get? hget
    rw [← hsame]
    exact hfound q hq

theorem integerIds_ofCards (hg : ofCards cards = .ok g) (hcards : ∀ c ∈ cards, c.id.isInt = true) :
    g.IntegerIds := by
  intro p hp
  rw [nodes_ofCards hg] at hp
  obtain ⟨q, hq, rfl⟩ := List.mem_map.1 hp
  constructor
  · obtain ⟨c, hc, hid⟩ := List.mem_map.1 (IdMap.mem_of_mem_ofList (List.mem_map_of_mem hq))
    obtain ⟨card, hcard, rfl⟩ := List.mem_map.1 hc
    show q.1.isInt = true
    rw [← hid]
    exact hcards card hcard
  · obtain ⟨c, hc, -, hsame⟩ := IdMap.exists_of_mem_ofList hq
    obtain ⟨card, hcard, rfl⟩ := List.mem_map.1 hc
    show q.2.id.isInt = true
    rw [hsame]
    exact hcards card hcard

end Graph

namespace Session

open CardTransfer.Graph (remaining)

variable {g : Graph} {cards : List Card} {stuck order : Ids}

/-- **The order of a batch**: the cards in circles and behind them are left out, each once, and the others
are put into an order. -/
theorem ordered_of_batchOrder (hg : Graph.ofCards cards = .ok g)
    (h : batchOrder cards = .ok (order, stuck)) :
    g.Ordered stuck order ∧ stuck.keys.Nodup ∧ ∀ a, stuck.has a = true ↔ g.Circular a := by
  have hproper := Graph.proper_ofCards hg
  unfold batchOrder at h
  rw [hg, ok_bind] at h
  cases horder : g.order with
  | ok whole =>
    rw [horder] at h
    cases h
    obtain ⟨harranged, hmissing⟩ := Graph.order_eq_ok horder
    refine ⟨Graph.ordered_of_order hproper horder, List.nodup_nil, fun a => ?_⟩
    rw [← Graph.missing_iff_circular hproper harranged, hmissing]
  | error f =>
    rw [horder] at h
    cases f with
    | cycle circles =>
      obtain ⟨done, harranged, -, rfl⟩ := Graph.order_eq_cycle horder
      obtain ⟨rest, hrest, h⟩ := bind_eq_ok.1 h
      obtain ⟨order', horder', h⟩ := bind_eq_ok.1 h
      obtain ⟨sorted, hsort, h⟩ := bind_eq_ok.1 h
      cases h
      rw [Ids.eq_of_sort hsort]
      have hstuck (a : Json) : (g.missing done).sorted.has a = true ↔ g.Circular a := by
        rw [Ids.has_sorted, Graph.missing_iff_circular hproper harranged]
      have hrests := Graph.ordered_of_order (Graph.proper_ofCards hrest) horder'
      refine ⟨⟨hrests.once, fun a => ?_, fun first a more heq b hb hlisted => ?_⟩, ?_, fun a => ?_⟩
      · rw [hrests.has_iff, Graph.listed_remaining hg hrest]
        simp
      · -- what a card of the order refers to is in no circle either
        have ha : rest.listed a = true := by
          refine ((hrests.has_iff a).1 ?_).1
          rw [heq]
          simp
        rw [Graph.listed_remaining hg hrest] at ha
        refine hrests.before first a more heq b ?_ ?_
        · rw [Graph.providers_remaining hg hrest ha.2]
          exact hb
        · rw [Graph.listed_remaining hg hrest]
          refine ⟨hlisted, ?_⟩
          rw [Bool.eq_false_iff, Ne, hstuck]
          intro hcircular
          have hnot := (hstuck a).2 (hcircular.of_uses ⟨ha.1, hb, hlisted⟩)
          rw [ha.2] at hnot
          cases hnot
      · refine Ids.keys_sorted_perm.nodup_iff.2 (Ids.keys_sorted_perm.nodup_iff.2 ?_)
        have honce : (Ids.keys (IdMap.ids g.nodes)).Nodup := by
          unfold Ids.keys IdMap.ids
          rw [← IdMap.keys_eq]
          exact hproper.once
        exact honce.sublist (List.filter_sublist.map _)
      · rw [Ids.has_sorted, hstuck]
    | _ => cases h

/-- Cards with integer ids have an order of such ids. -/
theorem exists_batchOrder (hg : Graph.ofCards cards = .ok g) (hcards : ∀ c ∈ cards, c.id.isInt = true) :
    ∃ order stuck, batchOrder cards = .ok (order, stuck) ∧ ∀ a ∈ order, a.isInt = true := by
  have hproper := Graph.proper_ofCards hg
  have hints := Graph.integerIds_ofCards hg hcards
  unfold batchOrder
  rw [hg, ok_bind]
  rcases Graph.order_of_integerIds hints with ⟨order, horder, hints⟩ | ⟨stuck, horder⟩
  · rw [horder]
    exact ⟨order, [], rfl, hints⟩
  · rw [horder]
    obtain ⟨done, harranged, -, rfl⟩ := Graph.order_eq_cycle horder
    obtain ⟨rest, hrest⟩ := Graph.exists_ofCards_remaining hg (g.missing done).sorted
    have hrestInts : rest.IntegerIds :=
      Graph.integerIds_ofCards hrest fun c hc => hcards c (List.mem_filter.1 hc).1
    obtain ⟨order, hrestOrder, horderInts⟩ : ∃ order, rest.order = .ok order ∧
        ∀ a ∈ order, a.isInt = true := by
      refine (Graph.order_of_integerIds hrestInts).resolve_right ?_
      rintro ⟨circles, hcircles⟩
      obtain ⟨done', harranged', hsome, -⟩ := Graph.order_eq_cycle hcircles
      obtain ⟨a, ha⟩ := List.exists_mem_of_ne_nil _ hsome
      have hcircular : rest.Circular a :=
        (Graph.missing_iff_circular (Graph.proper_ofCards hrest) harranged').1 (Ids.has_of_mem ha)
      have hlisted := (Graph.listed_remaining hg hrest).1 hcircular.listed
      have hmissing := (Graph.missing_iff_circular hproper harranged).2
        (Graph.circular_of_remaining hg hrest hcircular)
      rw [Ids.has_sorted, hmissing] at hlisted
      cases hlisted.2
    have hsort : Ids.sort (g.missing done).sorted = .ok (g.missing done).sorted.sorted := by
      refine Ids.sort_of_isInt fun a ha => ?_
      obtain ⟨p, hp, rfl⟩ := List.mem_map.1 (List.mem_filter.1 (Ids.mem_sorted.1 ha)).1
      exact (hints p hp).1
    refine ⟨order, (g.missing done).sorted.sorted, ?_, horderInts⟩
    exact bind_eq_ok.2 ⟨rest, hrest, bind_eq_ok.2 ⟨order, hrestOrder, bind_eq_ok.2 ⟨_, hsort, rfl⟩⟩⟩

end Session
end CardTransfer

/-!
## The order of cards, however they are listed

Cards with integer ids are put into an order with providers first if no references among them form a circle, and
else the cards are named from which a circle is reached; what remains without those has an order
(`order_correct`).

Neither depends on how the cards are listed. What a graph is asked for while an order is made are the providers
of a card, its consumers in increasing order, and the cards without providers in increasing order, and these are
the same for two listings of the same cards (`order_congr`).
-/

namespace CardTransfer

open Relation (TransGen)

namespace Graph

variable {g h : Graph} {cards others : List Card} {a b : Json} {done queue order : Ids}

/-! ### Two listings of the same cards -/

/-- Two graphs that list the same cards, each once and with integer ids. -/
structure Alike (g h : Graph) : Prop where
  nodes : g.nodes.Perm h.nodes
  proper : g.Proper
  ints : g.IntegerIds

theorem Alike.get?_nodes (hgh : Alike g h) (a : Json) : g.nodes.get? a = h.nodes.get? a := by
  have honce : h.nodes.keys.Nodup := (hgh.nodes.map _).nodup_iff.1 hgh.proper.once
  cases hg : g.nodes.get? a with
  | none =>
    refine (Option.eq_none_iff_forall_ne_some.2 fun n hn => ?_).symm
    obtain ⟨p, hp, hk, -⟩ := IdMap.exists_mem_of_get? hn
    rw [Json.sameId_iff] at hk
    rw [← IdMap.get?_congr hk, IdMap.get?_of_mem hgh.proper.once (hgh.nodes.mem_iff.2 hp)] at hg
    cases hg
  | some n =>
    obtain ⟨p, hp, hk, rfl⟩ := IdMap.exists_mem_of_get? hg
    rw [Json.sameId_iff] at hk
    rw [← IdMap.get?_congr hk, IdMap.get?_of_mem honce (hgh.nodes.mem_iff.1 hp)]

theorem Alike.providedBy (hgh : Alike g h) : g.providedBy done a = h.providedBy done a := by
  have hproviders : g.providers a = h.providers a := by rw [providers, providers, hgh.get?_nodes]
  have hlisted : g.listed = h.listed := funext fun b => by rw [listed, listed, IdMap.has, IdMap.has, hgh.get?_nodes]
  rw [Graph.providedBy, Graph.providedBy, hproviders, hlisted]

theorem Alike.perm_ids (hgh : Alike g h) : (IdMap.ids g.nodes).Perm (IdMap.ids h.nodes) := hgh.nodes.map _

theorem Alike.nodup_ids (hgh : Alike g h) : (Ids.keys (IdMap.ids g.nodes)).Nodup := by
  unfold Ids.keys IdMap.ids
  rw [← IdMap.keys_eq]
  exact hgh.proper.once

theorem IntegerIds.ids (hg : g.IntegerIds) : ∀ a ∈ IdMap.ids g.nodes, a.isInt = true := by
  intro a ha
  obtain ⟨p, hp, rfl⟩ := List.mem_map.1 ha
  exact (hg p hp).1

/-- Some of the ids of two such graphs are the same in increasing order. -/
theorem Alike.sort_filter (hgh : Alike g h) (p : Json → Bool) :
    Ids.sort ((IdMap.ids g.nodes).filter p) = Ids.sort ((IdMap.ids h.nodes).filter p) := by
  have hperm := hgh.perm_ids.filter p
  have hints : ∀ a ∈ (IdMap.ids g.nodes).filter p, a.isInt = true := fun a ha =>
    hgh.ints.ids a (List.mem_filter.1 ha).1
  rw [Ids.sort_of_isInt hints, Ids.sort_of_isInt fun a ha => hints a (hperm.mem_iff.2 ha)]
  exact congrArg _ (Ids.sorted_congr hperm hints (hgh.nodup_ids.sublist (List.filter_sublist.map _)))

theorem Alike.sort_consumers (hgh : Alike g h) (a : Json) : (g.consumers a).sort = (h.consumers a).sort := by
  have hperm : (g.consumers a).Perm (h.consumers a) := (hgh.nodes.filter _).map _
  have hints : ∀ b ∈ g.consumers a, b.isInt = true := by
    intro b hb
    obtain ⟨p, hp, rfl⟩ := List.mem_map.1 hb
    exact (hgh.ints p (List.mem_filter.1 hp).1).2
  rw [Ids.sort_of_isInt hints, Ids.sort_of_isInt fun b hb => hints b (hperm.mem_iff.2 hb)]
  exact congrArg _ (Ids.sorted_congr hperm hints (nodup_consumers hgh.proper a))

theorem Alike.arrange (hgh : Alike g h) (n : Nat) (done queue : Ids) :
    g.arrange n done queue = h.arrange n done queue := by
  induction n generalizing done queue with
  | zero => rfl
  | succ n ih =>
    cases queue with
    | nil => rfl
    | cons a queue =>
      have hfreed (done : Ids) : g.providedBy done = h.providedBy done := funext fun _ => hgh.providedBy
      simp only [Graph.arrange, hgh.sort_consumers, hfreed, ih]

/-- **The order does not depend on the listing.** -/
theorem order_congr (hgh : Alike g h) : g.order = h.order := by
  have harranged : g.arranged = h.arranged := by
    have hroots : g.providedBy [] = h.providedBy [] := funext fun _ => hgh.providedBy
    unfold arranged
    rw [hgh.sort_filter, hroots, hgh.nodes.length_eq]
    exact bind_congr fun roots => hgh.arrange ..
  unfold order
  rw [harranged]
  refine bind_congr fun done => ?_
  have hempty : (g.missing done).isEmpty = (h.missing done).isEmpty := (hgh.perm_ids.filter _).isEmpty_eq
  have hsort : (g.missing done).sort = (h.missing done).sort := hgh.sort_filter _
  simp only [hempty, hsort]

/-- Cards with a graph have one however they are listed. -/
theorem exists_ofCards_of_perm (honce : (Ids.keys (cards.map (·.id))).Nodup) (hg : ofCards cards = .ok g)
    (hperm : others.Perm cards) : ∃ h, ofCards others = .ok h ∧ h.nodes.Perm g.nodes := by
  have honce' : (Ids.keys (others.map (·.id))).Nodup := ((hperm.map _).map _).nodup_iff.2 honce
  have hbyId : (byId others).Perm (byId cards) := by
    rw [byId_of_nodup honce, byId_of_nodup honce']
    exact hperm.map _
  obtain ⟨hkeys, hfound⟩ := ofCards_isOk_iff.1 ⟨g, hg⟩
  obtain ⟨h, hh⟩ : ∃ h, ofCards others = .ok h := ofCards_isOk_iff.2
    ⟨fun c hc => hkeys c (hperm.mem_iff.1 hc), fun p hp => hfound p (hbyId.mem_iff.1 hp)⟩
  refine ⟨h, hh, ?_⟩
  rw [nodes_ofCards hg, nodes_ofCards hh]
  exact hbyId.map _

theorem alike_ofCards (hints : ∀ c ∈ cards, c.id.isInt = true) (honce : (Ids.keys (cards.map (·.id))).Nodup)
    (hg : ofCards cards = .ok g) (hperm : others.Perm cards) : ∃ h, ofCards others = .ok h ∧ Alike g h := by
  obtain ⟨h, hh, hnodes⟩ := exists_ofCards_of_perm honce hg hperm
  exact ⟨h, hh, hnodes.symm, proper_ofCards hg, integerIds_ofCards hg hints⟩

/-! ### The whole of it -/

/-- No references among the listed cards form a circle. -/
def Acyclic (g : Graph) : Prop := ∀ a b, TransGen g.Uses a b → b.key ≠ a.key

theorem acyclic_iff : g.Acyclic ↔ ∀ a, ¬g.Circular a :=
  ⟨fun h _ ⟨b, c, _, hbc, hk⟩ => h b c hbc hk, fun h a b hab hk => h a ⟨a, b, .refl, hab, hk⟩⟩

/-- An order of all cards has the id of each of them once. -/
theorem Ordered.perm (hg : ofCards cards = .ok g) (honce : (Ids.keys (cards.map (·.id))).Nodup)
    (h : g.Ordered [] order) : order.keys.Perm (Ids.keys (cards.map (·.id))) := by
  refine (List.perm_ext_iff_of_nodup h.once honce).2 fun k => ⟨fun hk => ?_, fun hk => ?_⟩
  · obtain ⟨a, ha, rfl⟩ := List.mem_map.1 hk
    obtain ⟨c, hc, hk⟩ := (listed_ofCards hg).1 ((h.has_iff a).1 (Ids.has_of_mem ha)).1
    rw [← hk]
    exact List.mem_map_of_mem (List.mem_map_of_mem hc)
  · obtain ⟨a, ha, rfl⟩ := List.mem_map.1 hk
    obtain ⟨c, hc, rfl⟩ := List.mem_map.1 ha
    exact Ids.mem_keys.2 ((h.has_iff _).2 ⟨(listed_ofCards hg).2 ⟨c, hc, rfl⟩, rfl⟩)

theorem isInt_of_mem_missing (hg : g.IntegerIds) (ha : a ∈ g.missing done) : a.isInt = true :=
  hg.ids a (List.mem_filter.1 ha).1

end Graph

namespace Session

open CardTransfer.Graph (ofCards remaining)

variable {g : Graph} {cards : List Card}

/-- **The order of cards is right.** It is the same for every listing of the cards. If no references among them
form a circle, it has each of them once, after its listed providers. Otherwise it is refused, with just those
cards from which a circle is reached, and what remains without them has no circle and an order, with which a
batch goes on. -/
theorem order_correct (hints : ∀ c ∈ cards, c.id.isInt = true) (honce : (Ids.keys (cards.map (·.id))).Nodup)
    (hg : ofCards cards = .ok g) :
    (∀ others, others.Perm cards → ∃ h, ofCards others = .ok h ∧ h.order = g.order) ∧
    (g.Acyclic → ∃ order, g.order = .ok order ∧ order.keys.Perm (Ids.keys (cards.map (·.id))) ∧
      g.Ordered [] order) ∧
    (¬g.Acyclic → ∃ stuck rest order, g.order = .error (.cycle stuck) ∧ stuck.keys.Nodup ∧
      (∀ a, stuck.has a = true ↔ g.Circular a) ∧ ofCards (remaining cards stuck) = .ok rest ∧
      rest.Acyclic ∧ rest.order = .ok order ∧ batchOrder cards = .ok (order, stuck)) := by
  have hproper := Graph.proper_ofCards hg
  have hids := Graph.integerIds_ofCards hg hints
  refine ⟨fun others hperm => ?_, fun hacyclic => ?_, fun hcircle => ?_⟩
  · obtain ⟨h, hh, halike⟩ := Graph.alike_ofCards hints honce hg hperm
    exact ⟨h, hh, (Graph.order_congr halike).symm⟩
  · rw [Graph.acyclic_iff] at hacyclic
    rcases Graph.order_of_integerIds hids with ⟨order, horder, -⟩ | ⟨stuck, hcycle⟩
    · have hordered := Graph.ordered_of_order hproper horder
      exact ⟨order, horder, hordered.perm hg honce, hordered⟩
    · obtain ⟨done, harranged, hsome, -⟩ := Graph.order_eq_cycle hcycle
      obtain ⟨a, ha⟩ := List.exists_mem_of_ne_nil _ hsome
      exact absurd ((Graph.missing_iff_circular hproper harranged).1 (Ids.has_of_mem ha)) (hacyclic a)
  · rw [Graph.acyclic_iff] at hcircle
    push Not at hcircle
    obtain ⟨a, ha⟩ := hcircle
    obtain ⟨order, stuck, hbatch, -⟩ := exists_batchOrder hg hints
    obtain ⟨-, hnodup, hstuck⟩ := ordered_of_batchOrder hg hbatch
    have hwhole := hbatch
    unfold batchOrder at hwhole
    rw [hg, ok_bind] at hwhole
    rcases Graph.order_of_integerIds hids with ⟨whole, horder, -⟩ | ⟨circles, hcycle⟩
    · rw [horder] at hwhole
      cases hwhole
      cases (hstuck a).2 ha
    · rw [hcycle] at hwhole
      obtain ⟨rest, hrest, hwhole⟩ := bind_eq_ok.1 hwhole
      obtain ⟨order', horder, hwhole⟩ := bind_eq_ok.1 hwhole
      obtain ⟨sorted, hsort, hwhole⟩ := bind_eq_ok.1 hwhole
      cases hwhole
      -- the cards that are stuck are in increasing order already
      obtain ⟨done, -, -, rfl⟩ := Graph.order_eq_cycle hcycle
      have hsorted := Ids.eq_of_sort hsort
      rw [Ids.sorted_sorted fun b hb => Json.isCompound_of_isInt (Graph.isInt_of_mem_missing hids hb)] at hsorted
      subst hsorted
      refine ⟨_, rest, order, hcycle, hnodup, hstuck, hrest, ?_, horder, hbatch⟩
      obtain ⟨harranged, hmissing⟩ := Graph.order_eq_ok horder
      refine Graph.acyclic_iff.2 fun b hb => ?_
      have hhas := (Graph.missing_iff_circular (Graph.proper_ofCards hrest) harranged).2 hb
      rw [hmissing] at hhas
      cases hhas

/-- A card that refers to other cards by their texts. -/
def referringCard (id : Int) (sources : List String) : Card :=
  ⟨.int id, .null, [("sources", .arr (sources.map .str))], .null, .null, .null, .null⟩

/-- Cards 7 and 8, which refer to each other, card 9, which refers to card 7 and to itself, card 3, which refers
to a card that is not listed, and card 2, which refers to card 3. -/
def referringCards : List Card :=
  [referringCard 9 ["card__7", "card__9"], referringCard 2 ["card__3"], referringCard 7 ["card__8"],
    referringCard 8 ["card__7"], referringCard 3 ["card__50"]]

/-- The order of these cards is refused for cards 7, 8 and 9; cards 3 and 2 remain. -/
theorem order_correct_referringCards :
    (∀ c ∈ referringCards, c.id.isInt = true) ∧ (Ids.keys (referringCards.map (·.id))).Nodup ∧
      ∃ g stuck rest order, ofCards referringCards = .ok g ∧ ¬g.Acyclic ∧ g.order = .error (.cycle stuck) ∧
        stuck.keys = [.whole 7, .whole 8, .whole 9] ∧ (∀ a, stuck.has a = true ↔ g.Circular a) ∧
        ofCards (remaining referringCards stuck) = .ok rest ∧ rest.order = .ok order ∧
        order.keys = [.whole 3, .whole 2] ∧
        ∀ others, others.Perm referringCards → ∃ h, ofCards others = .ok h ∧ h.order = g.order := by
  have hints : ∀ c ∈ referringCards, c.id.isInt = true := by decide
  have honce : (Ids.keys (referringCards.map (·.id))).Nodup := by decide
  have hbatch : (batchOrder referringCards).toOption.map (fun r => (r.1.keys, r.2.keys)) =
      some ([.whole 3, .whole 2], [.whole 7, .whole 8, .whole 9]) := by decide +kernel
  obtain ⟨g, hg⟩ := exists_ok_of_isOk (x := ofCards referringCards) (by decide +kernel)
  obtain ⟨hlisting, hordered, hrefused⟩ := order_correct hints honce hg
  have hcircle : ¬g.Acyclic := by
    intro hacyclic
    obtain ⟨order, horder, -⟩ := hordered hacyclic
    have hfault : ((ofCards referringCards).bind Graph.order).isOk = false := by decide +kernel
    rw [hg] at hfault
    change g.order.isOk = false at hfault
    rw [horder] at hfault
    cases hfault
  obtain ⟨stuck, rest, order, hcycle, -, hstuck, hrest, -, horder, hall⟩ := hrefused hcircle
  rw [hall] at hbatch
  obtain ⟨hkeys, hstuckKeys⟩ := Prod.mk.inj (Option.some.inj hbatch)
  exact ⟨hints, honce, g, stuck, rest, order, hg, hcircle, hcycle, hstuckKeys, hstuck, hrest, horder, hkeys,
    hlisting⟩

end Session
end CardTransfer
