import CardTransfer.Proofs.Session.Frame
import CardTransfer.Proofs.Transfer.Stage
import CardTransfer.Transfer.Card

/-!
# What the transfer of a card keeps

A transfer is made of still steps, fetches, and stages 5 and 6, in which a card is written. A relation that
still steps and fetches keep is therefore kept by the whole transfer, over any number of levels, if it is
kept where a card that is `Due` is written (`keeps_transferCard_of_fetch`), and there, if calm steps keep it,
by each of the five steps that do so (`keeps_commit`).
-/

namespace CardTransfer
namespace Session

open Steps (Keeps keeps_pure keeps_throw keeps_ofExcept keeps_get keeps_get_bind)

variable {terms : Terms} {id : Json} {card : Card}

/-- Reporting about a card that is in the card map fetches the card in its place. -/
theorem keeps_reportExisting {R : Session → Session → Prop} [Std.Refl R] [IsTrans Session R]
    (hfetch : ∀ id, Keeps R (fetch id)) (dryRun id : Json) (card : Card) (target : Json) :
    Keeps R (reportExisting dryRun id card target) := by
  intro s
  have hfetch := hfetch target s
  unfold reportExisting
  rw [Steps.run_outcome_bind]
  cases ((fetch target).run s).1 with
  | ok counterpart => exact hfetch
  | error f =>
    simp only
    split
    · exact hfetch
    · exact hfetch

theorem silent_reportExisting (dryRun id : Json) (card : Card) (target : Json) :
    Keeps Silent (reportExisting dryRun id card target) :=
  keeps_reportExisting silent_fetch dryRun id card target

/-- A card is due to be written: in session `s` its providers have been transferred, it has `existing` in the
card map, and what transfers its query to `q` leads to session `t`. -/
structure Due (terms : Terms) (id : Json) (card : Card) (s : Session) (existing : Option Json)
    (q : NewQuery) (t : Session) : Prop where
  live : terms.dryRun.truthy = false
  free : terms.force = false → existing = none
  readExisting : Store.cardTarget? s.directory id = .ok existing
  transferred : ∃ cards, Store.cardMap s.directory = .ok cards ∧
    (transferQuery false cards card).run s = (.ok (.ok q), t)

section

variable {R : Session → Session → Prop} [Std.Refl R] [IsTrans Session R]

/-- Writing a card keeps what each of its steps keeps. -/
theorem keeps_commit (hcalm : ∀ s t, Calm s t → R s t)
    (hput : ∀ replaced definition, Keeps R (putCard card replaced definition))
    (hnote : ∀ replaced definition answer, Keeps R (noteAttempt id card replaced definition answer))
    (hrepair : ∀ target query, Keeps R (repairCard target query))
    (henter : ∀ target, Keeps R (enterCard id target)) (existing : Option Json) (q : NewQuery) :
    Keeps R (commit terms id card existing q) := by
  have hsettle (target : Json) : Keeps R (settle id card target q) :=
    (keeps_verify hcalm (hrepair target) card q.query q.warnings).bind fun _ =>
      (henter target).bind fun _ => keeps_get.bind fun _ => keeps_pure _
  have hwrite (definition : Members) : Keeps R (writeCard terms id card existing definition) :=
    (hput _ _).outcome.bind fun _ => (hnote _ _ _).bind fun _ => keeps_ofExcept _
  unfold commit
  refine keeps_get.bind fun s => ?_
  split
  · exact keeps_pure _
  refine keeps_get.bind fun s => (keeps_ofExcept _).bind fun definition => ?_
  refine (hwrite definition).outcome.bind fun r => ?_
  cases r with
  | error f =>
    simp only
    split
    · exact keeps_pure _
    · exact keeps_throw _
  | ok target => exact (hsettle target).bind fun _ => keeps_pure _

/-- Stages 3 to 6 lead where still steps, fetches and the writing of the card, if it is due, lead. -/
theorem related_transferReady_of_fetch (hstill : ∀ s t, Still s t → R s t)
    (hfetch : ∀ id, Keeps R (fetch id)) {s : Session}
    (hcommit : ∀ existing q t, Due terms id card s existing q t →
      R t ((commit terms id card existing q).run t).2) :
    R s ((transferReady terms id card).run s).2 := by
  have hstay : R s s := Std.Refl.refl s
  unfold transferReady
  refine Steps.run_bind_of (motive := fun p => R s p.2) (fun existing t hread => ?_)
    fun f t hread => ?_
  · obtain ⟨hexisting, rfl⟩ := Prod.mk.inj hread
    split
    · exact ((keeps_reportExisting hfetch _ _ _ _).bind fun _ => keeps_pure _) s
    rename_i hfree
    rw [Steps.run_get_bind]
    split
    · exact hstay
    refine Steps.run_bind_of (motive := fun p => R s p.2) (fun cards t hcards => ?_) fun f t hcards => ?_
    · obtain ⟨hmap, rfl⟩ := Prod.mk.inj hcards
      have hquery := hstill _ _ (still_transferQuery terms.dryRun.truthy cards card s)
      refine Steps.run_bind_of (motive := fun p => R s p.2) (fun r t hrun => ?_) fun f t hrun => ?_
      · rw [hrun] at hquery
        split
        · exact hquery
        split
        · exact hquery
        · rename_i hlive
          rw [Bool.not_eq_true] at hlive
          rw [hlive] at hrun
          refine IsTrans.trans _ _ _ hquery (hcommit _ _ _ ⟨hlive, fun hforce => ?_, hexisting, cards, hmap, hrun⟩)
          exact Option.eq_none_iff_forall_ne_some.2 fun target h => hfree target h hforce
      · rw [hrun] at hquery
        exact hquery
    · obtain ⟨-, rfl⟩ := Prod.mk.inj hcards
      exact hstay
  · obtain ⟨-, rfl⟩ := Prod.mk.inj hread
    exact hstay

/-- Stages 3 to 6 lead where silent steps and the writing of the card, if it is due, lead. -/
theorem related_transferReady_of (hsilent : ∀ s t, Silent s t → R s t) {s : Session}
    (hcommit : ∀ existing q t, Due terms id card s existing q t →
      R t ((commit terms id card existing q).run t).2) :
    R s ((transferReady terms id card).run s).2 :=
  related_transferReady_of_fetch (fun s t h => hsilent s t (h.silent s t))
    (fun id => (silent_fetch id).imp hsilent) hcommit

theorem related_transferReady (hcalm : ∀ s t, Calm s t → R s t) {s : Session}
    (hcommit : ∀ existing, Store.cardTarget? s.directory id = .ok existing →
      ∀ q, Keeps R (commit terms id card existing q)) :
    R s ((transferReady terms id card).run s).2 :=
  related_transferReady_of (fun _ _ h => hcalm _ _ h.toCalm) fun existing q t due =>
    hcommit existing due.readExisting q t

theorem keeps_transferProviders {transfer : Json → Action Outcome}
    (htransfer : ∀ id, Keeps R (transfer id)) (deadline : Option Number) (mapped : IdMap Json)
    (ids : Ids) (outcomes : List Outcome) :
    Keeps R (transferProviders deadline transfer mapped ids outcomes) := by
  induction ids generalizing outcomes with
  | nil => exact keeps_pure _
  | cons id ids ih =>
    unfold transferProviders
    split
    · exact ih _
    refine keeps_get.bind fun s => ?_
    split
    · exact keeps_pure _
    refine (htransfer id).bind fun o => ?_
    split
    · exact ih _
    · exact keeps_pure _

/-- **What still steps, fetches and the writing of cards keep, a transfer keeps**, over any number of levels.
The terms may be of a kind that the terms for the cards referred to are of as well. -/
theorem keeps_transferCard_of_fetch {P : Terms → Prop} (hstill : ∀ s t, Still s t → R s t)
    (hfetch : ∀ id, Keeps R (fetch id)) (hproviders : ∀ terms, P terms → P terms.forProviders)
    (hcommit : ∀ terms, P terms → ∀ id card s existing q t, Due terms id card s existing q t →
      R t ((commit terms id card existing q).run t).2)
    (hterms : P terms) (levels : Nat) (path : Ids) (id : Json) :
    Keeps R (transferCard levels terms path id) := by
  have hkeeps {α : Type} {steps : Action α} (h : Keeps Still steps) : Keeps R steps := h.imp hstill
  induction levels generalizing terms path id with
  | zero => exact keeps_throw _
  | succ levels ih =>
    unfold transferCard transferVia transferFetched
    refine (keeps_ofExcept _).bind fun id => ?_
    split
    · exact (keeps_ofExcept _).bind fun _ => keeps_pure _
    refine keeps_get.bind fun s => ?_
    split
    · exact keeps_pure _
    refine (hfetch id).outcome.bind fun r => ?_
    split
    · split
      · exact keeps_pure _
      · exact keeps_throw _
    rename_i card
    split
    · exact keeps_pure _
    refine (hkeeps (still_readStore _)).bind fun mapped => ?_
    refine (keeps_ofExcept _).bind fun providers => ?_
    refine (keeps_transferProviders (ih (hproviders _ hterms) _) _ _ _ _).bind fun p => ?_
    split
    · exact keeps_pure _
    · have hready : Keeps R (transferReady terms id card) :=
        fun s => related_transferReady_of_fetch hstill hfetch (hcommit _ hterms id card s)
      exact hready.bind fun _ => keeps_pure _

/-- So it keeps what silent steps and the writing of cards keep. -/
theorem keeps_transferCard_of {P : Terms → Prop} (hsilent : ∀ s t, Silent s t → R s t)
    (hproviders : ∀ terms, P terms → P terms.forProviders)
    (hcommit : ∀ terms, P terms → ∀ id card s existing q t, Due terms id card s existing q t →
      R t ((commit terms id card existing q).run t).2)
    (hterms : P terms) (levels : Nat) (path : Ids) (id : Json) :
    Keeps R (transferCard levels terms path id) :=
  keeps_transferCard_of_fetch (fun s t h => hsilent s t (h.silent s t))
    (fun id => (silent_fetch id).imp hsilent) hproviders hcommit hterms levels path id

theorem keeps_transferCard {P : Terms → Prop} (hcalm : ∀ s t, Calm s t → R s t)
    (hproviders : ∀ terms, P terms → P terms.forProviders)
    (hcommit : ∀ terms, P terms → ∀ id card existing q, Keeps R (commit terms id card existing q))
    (hterms : P terms) (levels : Nat) (path : Ids) (id : Json) :
    Keeps R (transferCard levels terms path id) :=
  keeps_transferCard_of (fun _ _ h => hcalm _ _ h.toCalm) hproviders
    (fun _ hterms _ _ _ _ _ t _ => hcommit _ hterms _ _ _ _ t) hterms levels path id

end

end Session
end CardTransfer

/-!
## Which cards of the instance a transfer leaves alone

New cards get the ids from the next one on, one after another, and besides them a transfer changes only
the card that it replaces. So a card is the same afterwards if its id is none of those that were given
away meanwhile and it is not replaced (`leaves_transferVia`). A card that has just been created may be
changed again when its query is repaired; its id has been given away then.
-/

namespace CardTransfer

open Steps (Keeps keeps_pure keeps_get keeps_get_bind keeps_ofExcept)

variable {α : Type} {id : Json}

namespace Metabase.Instance

/-- Ids may have been given away, and the card under another id is the same. -/
structure Leaves (id : Json) (m m' : Instance) : Prop where
  later : m.nextId ≤ m'.nextId
  card : (∀ k, id.key = .whole k → k < m.nextId ∨ m'.nextId ≤ k) →
    m'.cards.get? id = m.cards.get? id

variable {m m' m₁ : Instance}

theorem Leaves.of_sameCards (h : Session.SameCards m m') : Leaves id m m' where
  later := Int.le_of_eq h.2.symm
  card _ := by rw [h.1]

theorem Leaves.trans (h₁ : Leaves id m m₁) (h₂ : Leaves id m₁ m') : Leaves id m m' where
  later := Int.le_trans h₁.later h₂.later
  card h := by
    have hlater₁ := h₁.later
    have hlater₂ := h₂.later
    rw [h₂.card fun k hk => (h k hk).imp_left fun _ => by omega,
      h₁.card fun k hk => (h k hk).imp_right fun _ => by omega]

instance : Std.Refl (Leaves id) := ⟨fun _ => .of_sameCards (Std.Refl.refl _)⟩

instance : IsTrans Instance (Leaves id) := ⟨fun _ _ _ h₁ h₂ => h₁.trans h₂⟩

/-- A new card gets the next id. -/
theorem leaves_createCard (definition : Members) : Keeps (Leaves id) (createCard definition) := by
  have hmeet : Keeps (Leaves id) (meet .create) :=
    (Session.sameCards_meet _).imp fun _ _ h => .of_sameCards h
  refine hmeet.bind fun _ => keeps_get_bind fun m => ?_
  constructor
  · show m.nextId ≤ m.nextId + 1
    omega
  · intro h
    change (IdMap.insert m.cards (.int m.nextId) _).get? id = _
    rw [IdMap.get?_insert, if_neg]
    intro hsame
    have hgiven : m.nextId < m.nextId ∨ m.nextId + 1 ≤ m.nextId :=
      h m.nextId ((Json.sameId_iff _ _).1 hsame).symm
    omega

/-- Changing another card leaves a card alone. -/
theorem leaves_updateCard {target : Json} (h : target.sameId id = false) (changes : Members) :
    Keeps (Leaves id) (updateCard target changes) := by
  have hmeet : Keeps (Leaves id) (meet .update) :=
    (Session.sameCards_meet _).imp fun _ _ h => .of_sameCards h
  refine hmeet.bind fun _ => keeps_get_bind fun m => ?_
  split
  · constructor
    · exact Int.le_refl m.nextId
    · intro _
      change (IdMap.insert m.cards target _).get? id = _
      rw [IdMap.get?_insert, if_neg (by rw [h]; exact Bool.false_ne_true)]
  · exact Std.Refl.refl m

/-- The id of a card that has been created is given away. -/
theorem nextId_of_createCard {definition : Members} {target : Json}
    (h : (createCard definition).run m = (.ok target, m')) : m'.nextId = m.nextId + 1 := by
  obtain ⟨_, m₁, hmeet, h⟩ := Steps.run_bind_eq_ok.1 h
  have hsame := (Session.sameCards_meet .create m).2
  rw [hmeet] at hsame
  rw [Steps.run_get_bind] at h
  obtain ⟨_, u, hset, h⟩ := Steps.run_bind_eq_ok.1 h
  cases h
  cases hset
  exact congrArg (· + 1) hsame

end Metabase.Instance

namespace Session

variable {s t u : Session} {terms : Terms} {card : Card} {path : Ids} {other : Json}

/-- So it is in a session. -/
def Leaves (id : Json) (s t : Session) : Prop := s.metabase.Leaves id t.metabase

theorem Leaves.trans (h₁ : Leaves id s t) (h₂ : Leaves id t u) : Leaves id s u :=
  Metabase.Instance.Leaves.trans h₁ h₂

theorem Leaves.of_idle (h : Idle s t) : Leaves id s t := .of_sameCards ⟨h.cards, h.nextId⟩

instance : Std.Refl (Leaves id) := ⟨fun _ => .of_idle (Std.Refl.refl _)⟩

instance : IsTrans Session (Leaves id) := ⟨fun _ _ _ h₁ h₂ => h₁.trans h₂⟩

theorem Leaves.of_calm (s t : Session) (h : Calm s t) : Leaves id s t := .of_idle h.idle

theorem leaves_call {steps : Steps Metabase.Instance α}
    (h : Keeps (Metabase.Instance.Leaves id) steps) : Keeps (Leaves id) (call steps) :=
  fun s => h s.metabase

theorem leaves_create (card : Card) (definition : Members) :
    Keeps (Leaves id) (create card definition) :=
  (leaves_call (Metabase.Instance.leaves_createCard definition)).bind fun _ =>
    ((calm_note _).imp Leaves.of_calm).bind fun _ => keeps_pure _

theorem leaves_putCard {replaced : Option Json}
    (h : ∀ target, replaced = some target → target.sameId id = false) (card : Card)
    (definition : Members) : Keeps (Leaves id) (putCard card replaced definition) := by
  cases replaced with
  | some target =>
    have hreplace : Keeps (Leaves id) (replace card target definition) :=
      (leaves_call (Metabase.Instance.leaves_updateCard (h target rfl) definition)).bind fun _ =>
        (calm_note _).imp Leaves.of_calm
    exact hreplace.bind fun _ => keeps_pure _
  | none => exact leaves_create card definition

/-- Verifying and entering another card leaves a card alone. -/
theorem leaves_settle {target : Json} (h : target.sameId id = false) (source : Json) (card : Card)
    (q : NewQuery) : Keeps (Leaves id) (settle source card target q) := by
  have hrepair (query : Json) : Keeps (Leaves id) (repairCard target query) :=
    (leaves_call (Metabase.Instance.leaves_updateCard h _)).bind fun _ =>
      (calm_note _).imp Leaves.of_calm
  have henter : Keeps (Leaves id) (enterCard source target) :=
    (keeps_writeStore fun _ _ _ => .of_sameCards ⟨rfl, rfl⟩).bind fun _ =>
      Steps.keeps_modify fun _ => .of_sameCards ⟨rfl, rfl⟩
  exact (keeps_verify .of_calm hrepair card q.query q.warnings).bind fun _ => henter.bind fun _ =>
    keeps_get.bind fun _ => keeps_pure _

/-- A card that is put on the target as a new one gets the next id. -/
theorem run_putCard_new {definition : Members} {target : Json}
    (h : (putCard card none definition).run s = (.ok target, t)) :
    target = .int s.metabase.nextId ∧ t.metabase.nextId = s.metabase.nextId + 1 := by
  obtain ⟨new, u, hcall, h⟩ := Steps.run_bind_eq_ok.1 h
  obtain ⟨_, v, hnote, h⟩ := Steps.run_bind_eq_ok.1 h
  have hresult : ((Metabase.Instance.createCard definition).run s.metabase).1 = .ok new :=
    congrArg Prod.fst hcall
  have hafter : ((Metabase.Instance.createCard definition).run s.metabase).2 = u.metabase :=
    congrArg (·.2.metabase) hcall
  have hcreate := Prod.ext (y := (.ok new, u.metabase)) hresult hafter
  cases h
  cases hnote
  exact ⟨id_of_createCard hcreate, Metabase.Instance.nextId_of_createCard hcreate⟩

/-- Writing a card leaves other cards alone. If it is written under the id of one of them, then this id
has just been given away. -/
theorem run_writeCard_leaves {existing : Option Json} {definition : Members}
    {answer : Except Fault Json}
    (hother : terms.force = true → ∀ target, existing = some target → target.sameId other = false)
    (h : (writeCard terms id card existing definition).run s = (answer, t)) :
    Leaves other s t ∧ ∀ target, answer = .ok target → target.sameId other = true →
      ∃ k, other.key = .whole k ∧ s.metabase.nextId ≤ k ∧ k < t.metabase.nextId := by
  unfold writeCard at h
  generalize hreplaced : (if terms.force then existing else none) = replaced at h
  have hput : ∀ target, replaced = some target → target.sameId other = false := by
    intro target htarget
    rw [← hreplaced] at htarget
    split at htarget
    · rename_i hforce
      exact hother hforce target htarget
    · cases htarget
  have hleaves := leaves_putCard hput card definition s
  simp only at h
  rw [Steps.run_outcome_bind] at h
  generalize hrun : (putCard card replaced definition).run s = p at h hleaves
  obtain ⟨result, u⟩ := p
  cases h
  refine ⟨hleaves, fun target htarget hsame => ?_⟩
  cases htarget
  rcases target_of_putCard hrun with rfl | ⟨rfl, -⟩
  · rw [hput target rfl] at hsame
    cases hsame
  · obtain ⟨rfl, hnext⟩ := run_putCard_new hrun
    rw [Json.sameId_iff] at hsame
    refine ⟨s.metabase.nextId, hsame.symm, Int.le_refl _, ?_⟩
    change s.metabase.nextId < u.metabase.nextId
    omega

/-- **Writing a card leaves other cards alone**, but for those whose ids are given away. -/
theorem leaves_commit {existing : Option Json}
    (hother : terms.force = true → ∀ target, existing = some target → target.sameId other = false)
    (q : NewQuery) : Keeps (Leaves other) (commit terms id card existing q) := by
  intro s
  have hrefl : Leaves other s s := Std.Refl.refl s
  unfold commit
  rw [Steps.run_get_bind]
  simp only
  split
  · exact hrefl
  rw [Steps.run_get_bind]
  cases card.definition (.obj q.query) s.settings.nameSuffix terms.collection with
  | error f => exact hrefl
  | ok definition =>
    rw [Steps.run_ofExcept_bind_ok, Steps.run_outcome_bind]
    generalize hwrite : (writeCard terms id card existing definition).run s = w
    obtain ⟨answer, u⟩ := w
    obtain ⟨hleaves, hgiven⟩ := run_writeCard_leaves hother hwrite
    cases answer with
    | error f =>
      simp only
      split
      · exact hleaves
      · exact hleaves
    | ok target =>
      have hsettle {id' : Json} (h : target.sameId id' = false) : Keeps (Leaves id') (do
          return Report.transferred (← settle id card target q)) :=
        (leaves_settle h id card q).bind fun _ => keeps_pure _
      cases hsame : target.sameId other with
      | false => exact hleaves.trans (hsettle hsame u)
      | true =>
        obtain ⟨k, hk, hge, hlt⟩ := hgiven target rfl hsame
        -- what is claimed of this card is nothing, as its id has been given away
        have hlater := hleaves.later
        have hnull : target.sameId .null = false := by
          rw [Bool.eq_false_iff, Ne, Json.sameId_iff, (Json.sameId_iff _ _).1 hsame, hk]
          exact fun h => nomatch h
        have hlater' := (hsettle hnull u).later
        refine ⟨Int.le_trans hlater hlater', fun h => ?_⟩
        rcases h k hk with h | h
        · omega
        · have hle := Int.le_trans hlater' h
          omega

/-- A transfer without force leaves a card alone, over any number of levels. -/
theorem leaves_transferCard {levels : Nat} (hforce : terms.force = false) (path : Ids) (id : Json) :
    Keeps (Leaves other) (transferCard levels terms path id) :=
  keeps_transferCard (P := fun terms => terms.force = false) .of_calm (fun _ _ => rfl)
    (fun _ hforce _ _ _ => leaves_commit fun h => absurd (hforce.symm.trans h) Bool.false_ne_true)
    hforce levels path id

/-! ### Transfers that end well -/

/-- **The run of a transfer that ends well**: the card is fetched, all cards that it refers to are in the
card map or are transferred, and then the card itself is. -/
theorem exists_ready_via {transfer : Json → Action Outcome} {o : Outcome}
    (h : (transferVia terms transfer path id).run s = (.ok o, t)) (hok : o.ok = true) :
    ∃ (g : Fetched path id s) (u : Session),
      g.transferProviders terms transfer = (.ok (o.providers, none), u) ∧
      (transferReady terms id g.card).run u = (.ok o.report, t) := by
  have hrun := cardRun terms transfer path id s
  rw [h] at hrun
  generalize hr : (Except.ok o : Except Fault Outcome) = r at hrun
  cases hrun with
  | left idle failed =>
    rw [failed o hr.symm] at hok
    cases hok
  | stopped g run stop failed =>
    rw [failed o hr.symm] at hok
    cases hok
  | ready g run ready ran =>
    obtain ⟨report, rfl, rfl⟩ := map_eq_ok.1 hr.symm
    exact ⟨g, _, run, ran⟩

theorem exists_ready {levels : Nat} {o : Outcome}
    (h : (transferCard levels terms path id).run s = (.ok o, t)) (hok : o.ok = true) :
    ∃ (n : Nat) (g : Fetched path id s) (u : Session),
      g.transferProviders terms (transferCard n terms.forProviders (path.add id)) =
        (.ok (o.providers, none), u) ∧
      (transferReady terms id g.card).run u = (.ok o.report, t) := by
  cases levels with
  | zero => cases h
  | succ n => exact ⟨n, exists_ready_via h hok⟩

end Session
end CardTransfer
