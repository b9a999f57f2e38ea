import CardTransfer.Proofs.Card.Search

/-!
# All providers of a card

To visit a card is to meet it, to visit the cards that it refers to, and to leave it; a card that has been met
is passed over. `Visits` says so without a count of steps, and the steps that are allowed are enough
(`visits_foldl`), as each listed card is met once.

A card that is left has been met with all that it refers to (`Visits.closed`), and cards that have been met and
not been left lead to the one that is being visited. So at the end, what has been left is what the card leads
to, and what a card refers to has been left before it or leads back to it (`Visits.deep`).
-/

namespace CardTransfer

open Relation (ReflTransGen TransGen)

namespace Graph

variable {g : Graph} {cards : List Card} {a b : Json} {as : Ids} {s t : Ids × Ids}

/-- A card has another one among its providers. -/
def RefersTo (g : Graph) (a b : Json) : Prop := (g.providers a).has b = true

theorem RefersTo.congr {a' b' : Json} (ha : a.key = a'.key) (hb : b.key = b'.key) (h : g.RefersTo a b) :
    g.RefersTo a' b' := by
  unfold RefersTo at h ⊢
  rwa [← providers_congr ha, ← Ids.has_congr hb]

theorem RefersTo.of_mem (h : b ∈ g.providers a) : g.RefersTo a b := Ids.has_of_mem h

/-- Visiting some cards in turn. Of the two lists, the first holds the cards met so far, the second those left
again. -/
inductive Visits (g : Graph) : Ids × Ids → Ids → Ids × Ids → Prop
  | nil (s : Ids × Ids) : Visits g s [] s
  | met {s t : Ids × Ids} {a : Json} {as : Ids} : s.1.has a = true → Visits g s as t → Visits g s (a :: as) t
  | new {s t u : Ids × Ids} {a : Json} {as : Ids} : s.1.has a = false →
      Visits g (s.1 ++ [a], s.2) (g.providers a) t → Visits g (t.1, t.2 ++ [a]) as u → Visits g s (a :: as) u

namespace Visits

/-- What has been met has been met. -/
theorem met_mono (h : Visits g s as t) (hb : s.1.has b = true) : t.1.has b = true := by
  induction h with
  | nil => exact hb
  | met _ _ ih => exact ih hb
  | new _ _ _ ih ih' =>
    refine ih' (ih ?_)
    rw [Ids.has_append, hb]
    rfl

theorem left_mono (h : Visits g s as t) (hb : s.2.has b = true) : t.2.has b = true := by
  induction h with
  | nil => exact hb
  | met _ _ ih => exact ih hb
  | new _ _ _ ih ih' =>
    refine ih' ?_
    rw [Ids.has_append, ih hb]
    rfl

/-- A card that is visited is met. -/
theorem met_of_mem (h : Visits g s as t) (ha : a ∈ as) : t.1.has a = true := by
  induction h with
  | nil => cases ha
  | met hmet h ih =>
    rcases List.mem_cons.1 ha with rfl | ha
    · exact h.met_mono hmet
    · exact ih ha
  | new _ h h' _ ih' =>
    rcases List.mem_cons.1 ha with rfl | ha
    · refine h'.met_mono (h.met_mono ?_)
      rw [Ids.has_append, Ids.has_cons, Json.sameId_refl, Bool.true_or, Bool.or_true]
    · exact ih' ha

/-- A card that is met in the course of a visit is left in its course. -/
theorem met_or_left (h : Visits g s as t) (hb : t.1.has b = true) : s.1.has b = true ∨ t.2.has b = true := by
  induction h with
  | nil => exact .inl hb
  | met _ _ ih => exact ih hb
  | new _ _ h' ih ih' =>
    rcases ih' hb with hb | hb
    · rcases ih hb with hb | hb
      · rw [Ids.has_append, Bool.or_eq_true] at hb
        refine hb.imp id fun hb => h'.left_mono ?_
        rw [Ids.has_append, hb, Bool.or_true]
      · refine .inr (h'.left_mono ?_)
        rw [Ids.has_append, hb]
        rfl
    · exact .inr hb

/-- Only cards that have been met are left. -/
theorem left_met (h : Visits g s as t) (hs : ∀ b, s.2.has b = true → s.1.has b = true)
    (hb : t.2.has b = true) : t.1.has b = true := by
  induction h generalizing b with
  | nil => exact hs b hb
  | met _ _ ih => exact ih hs hb
  | new _ h _ ih ih' =>
    refine ih' (fun c hc => ?_) hb
    rw [Ids.has_append, Bool.or_eq_true] at hc
    rcases hc with hc | hc
    · refine ih (fun d hd => ?_) hc
      rw [Ids.has_append, hs d hd]
      rfl
    · refine h.met_mono ?_
      rw [Ids.has_append, hc, Bool.or_true]

/-- A card that has been met before is not left in the course of a visit. -/
theorem left_of_met (h : Visits g s as t) (hb : s.1.has b = true) : t.2.has b = s.2.has b := by
  induction h with
  | nil => rfl
  | met _ _ ih => exact ih hb
  | @new s t u a as hnew h _ ih ih' =>
    have hb' : Ids.has (s.1 ++ [a]) b = true := by
      rw [Ids.has_append, hb]
      rfl
    have hne : a.sameId b = false := by
      rw [Bool.eq_false_iff, Ne, Json.sameId_iff]
      intro hk
      rw [Ids.has_congr hk, hb] at hnew
      cases hnew
    rw [ih' (h.met_mono hb'), Ids.has_append, ih hb', Ids.has_cons, hne, Ids.has_nil, Bool.or_false, Bool.or_false]

/-- Each card is left once. -/
theorem nodup (h : Visits g s as t) (hs : ∀ b, s.2.has b = true → s.1.has b = true)
    (honce : s.2.keys.Nodup) : t.2.keys.Nodup := by
  induction h with
  | nil => exact honce
  | met _ _ ih => exact ih hs honce
  | @new s t u a as hnew h _ ih ih' =>
    have hs' (b : Json) (hb : s.2.has b = true) : Ids.has (s.1 ++ [a]) b = true := by
      rw [Ids.has_append, hs b hb]
      rfl
    have hmet : Ids.has (s.1 ++ [a]) a = true := by
      rw [Ids.has_append, Ids.has_cons, Json.sameId_refl, Bool.true_or, Bool.or_true]
    have hnot : t.2.has a = false := by
      rw [h.left_of_met hmet, Bool.eq_false_iff]
      intro hleft
      rw [hs a hleft] at hnew
      cases hnew
    refine ih' (fun b hb => ?_) ?_
    · rw [Ids.has_append, Bool.or_eq_true] at hb
      refine hb.elim (h.left_met hs') fun hb => h.met_mono ?_
      rw [Ids.has_append, hb, Bool.or_true]
    · rw [Ids.keys_append, List.nodup_append]
      refine ⟨ih hs' honce, List.nodup_singleton _, fun k hk l hl hkl => ?_⟩
      rw [hkl, List.mem_singleton.1 hl, Ids.mem_keys, hnot] at hk
      cases hk

/-- **What is met is what the visited cards lead to.** -/
theorem sound (h : Visits g s as t) (hb : t.1.has b = true) :
    s.1.has b = true ∨ ∃ a ∈ as, a.key = b.key ∨ TransGen g.RefersTo a b := by
  induction h with
  | nil => exact .inl hb
  | met _ _ ih => exact (ih hb).imp id fun ⟨a, ha, h⟩ => ⟨a, List.mem_cons_of_mem _ ha, h⟩
  | @new s t u a as _ _ _ ih ih' =>
    rcases ih' hb with hb | ⟨c, hc, h⟩
    · rcases ih hb with hb | ⟨p, hp, h⟩
      · rw [Ids.has_append, Ids.has_cons, Ids.has_nil, Bool.or_false, Bool.or_eq_true, Json.sameId_iff] at hb
        exact hb.imp id fun hk => ⟨a, List.mem_cons_self .., .inl hk⟩
      · refine .inr ⟨a, List.mem_cons_self .., .inr ?_⟩
        have hap : g.RefersTo a p := .of_mem hp
        exact h.elim (fun hk => .single (hap.congr rfl hk)) (.head hap)
    · exact .inr ⟨c, List.mem_cons_of_mem _ hc, h⟩

/-- **A card that has been left has been met with all that it refers to.** -/
theorem closed (h : Visits g s as t) (hs : ∀ a b, s.2.has a = true → g.RefersTo a b → s.1.has b = true)
    (ha : t.2.has a = true) (hab : g.RefersTo a b) : t.1.has b = true := by
  induction h generalizing a b with
  | nil => exact hs a b ha hab
  | met _ _ ih => exact ih hs ha hab
  | @new s t u c as _ h _ ih ih' =>
    refine ih' (fun d e hd hde => ?_) ha hab
    rw [Ids.has_append, Ids.has_cons, Ids.has_nil, Bool.or_false, Bool.or_eq_true, Json.sameId_iff] at hd
    rcases hd with hd | hk
    · refine ih (fun d e hd hde => ?_) hd hde
      rw [Ids.has_append, hs d e hd hde]
      rfl
    · obtain ⟨p, hp, hpe⟩ := (Ids.has_iff _ _).1 (hde.congr hk.symm rfl)
      rw [← Ids.has_congr hpe]
      exact h.met_of_mem hp

end Visits

/-- What a card of a list refers to comes before it, or leads back to it. -/
def Deep (g : Graph) (ids : Ids) : Prop :=
  ∀ before a after, ids = before ++ a :: after → ∀ b, g.RefersTo a b →
    Ids.has before b = true ∨ TransGen g.RefersTo b a

theorem Deep.append {ids : Ids} (h : g.Deep ids)
    (ha : ∀ b, g.RefersTo a b → ids.has b = true ∨ TransGen g.RefersTo b a) : g.Deep (ids ++ [a]) := by
  intro before c after heq
  rcases List.eq_nil_or_concat after with rfl | ⟨after, d, rfl⟩
  · obtain ⟨rfl, hlast⟩ := List.append_inj' heq rfl
    cases hlast
    exact ha
  · rw [List.concat_eq_append, ← List.cons_append, ← List.append_assoc] at heq
    exact h before c after (List.append_inj' heq rfl).1

/-- **The deepest providers come first,** if the cards that have been met, and not been left, lead to those that are
visited. -/
theorem Visits.deep (h : Visits g s as t)
    (hopen : ∀ b, s.1.has b = true → s.2.has b = true ∨ ∀ a ∈ as, TransGen g.RefersTo b a)
    (hs : g.Deep s.2) : g.Deep t.2 := by
  induction h with
  | nil => exact hs
  | met _ _ ih =>
    exact ih (fun b hb => (hopen b hb).imp id fun h a ha => h a (List.mem_cons_of_mem _ ha)) hs
  | @new s t u a as _ h _ ih ih' =>
    have hleads (b : Json) (hb : Ids.has (s.1 ++ [a]) b = true) :
        s.2.has b = true ∨ a.key = b.key ∨ ∀ c ∈ a :: as, TransGen g.RefersTo b c := by
      rw [Ids.has_append, Ids.has_cons, Ids.has_nil, Bool.or_false, Bool.or_eq_true, Json.sameId_iff] at hb
      exact hb.elim (fun hb => (hopen b hb).imp id .inr) fun hk => .inr (.inl hk)
    refine ih' (fun b hb => ?_) (Deep.append (ih (fun b hb => ?_) hs) fun b hab => ?_)
    · rw [Ids.has_append, Bool.or_eq_true]
      rcases h.met_or_left hb with hb | hb
      · rcases hleads b hb with hb | hk | hb
        · exact .inl (.inl (h.left_mono hb))
        · refine .inl (.inr ?_)
          rw [Ids.has_cons, (Json.sameId_iff _ _).2 hk]
          rfl
        · exact .inr fun c hc => hb c (List.mem_cons_of_mem _ hc)
      · exact .inl (.inl hb)
    · refine (hleads b hb).imp id fun hb p hp => ?_
      have hap : g.RefersTo a p := .of_mem hp
      exact hb.elim (fun hk => .single (hap.congr hk rfl)) fun hb => (hb a (List.mem_cons_self ..)).tail hap
    · obtain ⟨p, hp, hpb⟩ := (Ids.has_iff _ _).1 hab
      have hmet : t.1.has b = true := by
        rw [← Ids.has_congr hpb]
        exact h.met_of_mem hp
      rcases h.met_or_left hmet with hb | hb
      · rcases hleads b hb with hb | hk | hb
        · exact .inl (h.left_mono hb)
        · exact .inr (.single (hab.congr hk hk.symm))
        · exact .inr (hb a (List.mem_cons_self ..))
      · exact .inl hb

/-! ### The steps that are allowed -/

theorem unreached_mono {met more : Ids} (h : ∀ b, met.has b = true → more.has b = true) :
    g.unreached more ≤ g.unreached met := by
  refine List.countP_mono_left fun p _ hp => ?_
  rw [Bool.not_eq_true'] at hp ⊢
  rw [Bool.eq_false_iff] at hp ⊢
  exact fun hmet => hp (h _ hmet)

/-- A listed card that is met is no longer to be met. -/
theorem unreached_append_lt (hg : g.Proper) {met : Ids} (hlisted : g.listed a = true) (hnew : met.has a = false) :
    g.unreached (met ++ [a]) < g.unreached met := by
  obtain ⟨p, hp, hk⟩ := IdMap.has_iff.1 hlisted
  have hkp : a.key = p.2.id.key := hk.symm.trans (hg.own p hp).symm
  have hmore := countP_add_le (l := g.nodes) (p := fun p => !met.has p.2.id)
    (q := fun p => !Ids.has (met ++ [a]) p.2.id) (r := fun p => a.sameId p.2.id)
    (fun q _ hq => ?_) fun q _ hq => ?_
  · have hpos : 0 < g.nodes.countP fun p => a.sameId p.2.id :=
      List.countP_pos_iff.2 ⟨p, hp, (Json.sameId_iff _ _).2 hkp⟩
    unfold unreached
    omega
  · rw [Bool.not_eq_true', Ids.has_append, Bool.or_eq_false_iff, Ids.has_cons, Bool.or_eq_false_iff] at hq
    exact ⟨by rw [hq.1]; rfl, hq.2.1⟩
  · rw [← Ids.has_congr ((Json.sameId_iff _ _).1 hq), hnew]
    rfl

theorem providers_of_not_listed (h : g.listed a = false) : g.providers a = [] := by
  unfold listed IdMap.has at h
  rw [Option.isSome_eq_false_iff, Option.isNone_iff_eq_none] at h
  unfold providers
  rw [h]
  rfl

/-- **The steps are enough,** if there are more of them than listed cards to be met. -/
theorem visits_foldl {n : Nat} (hg : g.Proper) (hn : g.unreached s.1 < n) :
    Visits g s as (as.foldl (g.visit n) s) := by
  induction n generalizing s as with
  | zero => exact absurd hn (Nat.not_lt_zero _)
  | succ n ih =>
    induction as generalizing s with
    | nil => exact .nil s
    | cons a as ih' =>
      rw [List.foldl_cons]
      cases hmet : s.1.has a with
      | true =>
        have hvisit : g.visit (n + 1) s a = s := if_pos hmet
        rw [hvisit]
        exact .met hmet (ih' hn)
      | false =>
        have hvisit : g.visit (n + 1) s a =
            (((g.providers a).foldl (g.visit n) (s.1 ++ [a], s.2)).1,
              ((g.providers a).foldl (g.visit n) (s.1 ++ [a], s.2)).2 ++ [a]) :=
          if_neg (by rw [hmet]; decide)
        have hproviders : Visits g (s.1 ++ [a], s.2) (g.providers a)
            ((g.providers a).foldl (g.visit n) (s.1 ++ [a], s.2)) := by
          cases hlisted : g.listed a with
          | true =>
            refine ih ?_
            have hlt := unreached_append_lt hg hlisted hmet
            dsimp only
            omega
          | false =>
            rw [providers_of_not_listed hlisted]
            exact .nil _
        rw [hvisit]
        refine .new hmet hproviders (ih' (Nat.lt_of_le_of_lt (unreached_mono fun b hb => ?_) hn))
        refine hproviders.met_mono ?_
        rw [Ids.has_append, hb]
        rfl

/-- **All providers of a card** are what is left in a visit of the cards that it refers to. -/
theorem visits_allProviders (hg : g.Proper) (c : Json) :
    ∃ met, Visits g ([c], []) (g.providers c) (met, g.allProviders c) := by
  have hsteps : g.unreached [] < g.nodes.length + 2 :=
    Nat.lt_of_le_of_lt List.countP_le_length (Nat.lt_add_of_pos_right (by decide))
  have hvisits : Visits g ([], []) [c] ([c].foldl (g.visit (g.nodes.length + 2)) ([], [])) :=
    visits_foldl hg hsteps
  rw [List.foldl_cons, List.foldl_nil] at hvisits
  unfold allProviders
  generalize g.visit (g.nodes.length + 2) ([], []) c = u at hvisits
  cases hvisits with
  | met hmet => cases hmet
  | @new _ t _ _ _ _ h hrest =>
    cases hrest
    refine ⟨t.1, ?_⟩
    rw [List.dropLast_concat]
    exact h

/-! ### What the list holds -/

/-- A card of a list refers to a card. -/
def Citation (cards : List Card) (a b : Json) : Prop := ∃ c ∈ cards, c.id.key = a.key ∧ c.references.has b = true

theorem refersTo_eq (honce : (Ids.keys (cards.map (·.id))).Nodup) (hg : ofCards cards = .ok g) :
    g.RefersTo = Citation cards := by
  funext a b
  refine propext ⟨fun h => ?_, fun ⟨c, hc, hk, h⟩ => ?_⟩
  · obtain ⟨c, hc, hk⟩ := (listed_ofCards hg).1 (listed_of_has_providers h)
    refine ⟨c, hc, hk, ?_⟩
    rw [← providers_ofCards_of_mem hg honce hc hk]
    exact h
  · unfold RefersTo
    rw [providers_ofCards_of_mem hg honce hc hk]
    exact h

/-- **All providers of a card, deepest first.** For cards with different ids, the list has each card once, and not
the card itself; it has just those other cards that the card leads to by one or more references of listed cards;
and if it leads into no circle, whatever a card of the list refers to comes before it. -/
theorem allProviders_correct (honce : (Ids.keys (cards.map (·.id))).Nodup) (hg : ofCards cards = .ok g) (c : Json) :
    (g.allProviders c).keys.Nodup ∧
    (∀ a, (g.allProviders c).has a = true ↔ TransGen (Citation cards) c a ∧ a.key ≠ c.key) ∧
    ((∀ a, ReflTransGen (Citation cards) c a → ¬TransGen (Citation cards) a a) →
      ∀ before a after, g.allProviders c = before ++ a :: after →
        ∀ b, Citation cards a b → Ids.has before b = true) := by
  obtain ⟨met, hvisits⟩ := visits_allProviders (proper_ofCards hg) c
  rw [← refersTo_eq honce hg]
  have hself (a : Json) : Ids.has [c] a = true ↔ a.key = c.key := by
    rw [Ids.has_cons, Ids.has_nil, Bool.or_false, Json.sameId_iff, eq_comm]
  have hleft : ∀ b, Ids.has [] b = true → Ids.has [c] b = true := nofun
  have hnot (a : Json) (hk : a.key = c.key) : (g.allProviders c).has a = false :=
    hvisits.left_of_met ((hself a).2 hk)
  have hsound (a : Json) (ha : (g.allProviders c).has a = true) : TransGen g.RefersTo c a := by
    rcases hvisits.sound (hvisits.left_met hleft ha) with hc | ⟨p, hp, hpa⟩
    · rw [hnot a ((hself a).1 hc)] at ha
      cases ha
    · have hcp : g.RefersTo c p := .of_mem hp
      exact hpa.elim (fun hk => .single (hcp.congr rfl hk)) (.head hcp)
  refine ⟨hvisits.nodup hleft List.nodup_nil, fun a => ⟨fun ha => ⟨hsound a ha, fun hk => ?_⟩, ?_⟩, ?_⟩
  · rw [hnot a hk] at ha
    cases ha
  · rintro ⟨hca, hne⟩
    have hmet : met.has a = true := by
      have hnext {a b : Json} (ha : a.key = c.key ∨ met.has a = true) (hab : g.RefersTo a b) :
          met.has b = true := by
        have hroots {a : Json} (hk : a.key = c.key) (hab : g.RefersTo a b) : met.has b = true := by
          obtain ⟨p, hp, hpb⟩ := (Ids.has_iff _ _).1 (hab.congr hk rfl)
          rw [← Ids.has_congr hpb]
          exact hvisits.met_of_mem hp
        rcases ha with hk | ha
        · exact hroots hk hab
        · rcases hvisits.met_or_left ha with hc | ha
          · exact hroots ((hself a).1 hc) hab
          · exact hvisits.closed nofun ha hab
      clear hne
      induction hca with
      | single h => exact hnext (.inl rfl) h
      | tail _ h ih => exact hnext (.inr ih) h
    exact (hvisits.met_or_left hmet).resolve_left fun hc => hne ((hself a).1 hc)
  · intro hacyclic before a after heq b hab
    have hdeep : g.Deep (g.allProviders c) := by
      refine hvisits.deep (fun b hb => .inr fun p hp => ?_) fun before a after h => ?_
      · exact .single ((RefersTo.of_mem hp).congr ((hself b).1 hb).symm rfl)
      · cases before <;> cases h
    refine (hdeep before a after heq b hab).resolve_right fun hba => ?_
    have ha : (g.allProviders c).has a = true := by
      rw [heq]
      exact Ids.has_of_mem (by simp)
    exact hacyclic a (hsound a ha).to_reflTransGen (.head hab hba)

/-- Card 9 leads into the circle of the cards 7 and 8, and to itself; card 2 leads to card 3 and to a card that is
not listed. -/
theorem allProviders_correct_referringCards : (Ids.keys (Session.referringCards.map (·.id))).Nodup ∧
    ∃ g, ofCards Session.referringCards = .ok g ∧ (g.allProviders (.int 2)).keys = [.whole 50, .whole 3] ∧
      (g.allProviders (.int 9)).keys = [.whole 8, .whole 7] ∧
      ∀ a, (g.allProviders (.int 9)).has a = true ↔
        TransGen (Citation Session.referringCards) (.int 9) a ∧ a.key ≠ .whole 9 := by
  have honce : (Ids.keys (Session.referringCards.map (·.id))).Nodup := by decide
  have hlists : (ofCards Session.referringCards).toOption.map (fun g =>
      ((g.allProviders (.int 2)).keys, (g.allProviders (.int 9)).keys)) =
      some ([.whole 50, .whole 3], [.whole 8, .whole 7]) := by decide +kernel
  obtain ⟨g, hg, hkeys⟩ := exists_ok_of_toOption hlists
  obtain ⟨hkeys, hkeys'⟩ := Prod.mk.inj hkeys
  exact ⟨honce, g, hg, hkeys, hkeys', (allProviders_correct honce hg (.int 9)).2.1⟩

end Graph
end CardTransfer
