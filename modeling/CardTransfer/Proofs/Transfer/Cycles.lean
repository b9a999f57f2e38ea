import CardTransfer.Proofs.Card.Reference
import CardTransfer.Proofs.Transfer.Levels
import Mathlib.Logic.Relation

/-!
# Circles of references

A card from which a circle of references is reached cannot be transferred, unless a card on the way is
in the card map already: it is `Doomed`. A doomed card refers to a doomed one that is not in the map,
and that has to be transferred first; so its transfer fails if no transfer of a doomed card over fewer
levels succeeds (`spares_transferCard`). The other cards on which it depends may well be transferred
before that happens, and they enter the card map, but no doomed card ever does.
-/

namespace CardTransfer
namespace Session

variable {s₀ s t u : Session} {a b : Json}

/-! ### Doomed cards -/

/-- Whether a card of the instance refers to a card. -/
def Refers (s : Session) (a b : Json) : Prop :=
  ∃ payload card ids, s.metabase.cards.get? a = some payload ∧ Card.ofPayload payload = .ok card ∧
    card.findReferences = .ok ids ∧ ids.has b = true

/-- Whether a card is missing from the card map, as far as the map can be read. -/
def Unmapped (s : Session) (a : Json) : Prop :=
  ∀ m, Store.cardMap s.directory = .ok m → m.has a = false

theorem refers_iff : Refers s a b ↔ ((s.metabase.cards.get? a).any fun payload =>
    (Card.ofPayload payload >>= Card.findReferences).toOption.any (·.has b)) = true := by
  constructor
  · rintro ⟨payload, card, ids, hget, hcard, hfound, hhas⟩
    rw [hget]
    show (Card.ofPayload payload >>= Card.findReferences).toOption.any (·.has b) = true
    rw [hcard]
    show card.findReferences.toOption.any (·.has b) = true
    rw [hfound]
    exact hhas
  · intro h
    obtain ⟨payload, hget, h⟩ := (Option.any_eq_true _ _).1 h
    obtain ⟨ids, hids, hhas⟩ := (Option.any_eq_true _ _).1 h
    obtain ⟨card, hcard, hfound⟩ := bind_eq_ok.1 (eq_ok_of_toOption hids)
    exact ⟨payload, card, ids, hget, hcard, hfound, hhas⟩

instance : Decidable (Refers s a b) := decidable_of_iff _ refers_iff.symm

theorem unmapped_iff :
    Unmapped s a ↔ (Store.cardMap s.directory).toOption.all (fun m => !m.has a) = true := by
  cases hm : Store.cardMap s.directory with
  | error f => exact ⟨fun _ => rfl, fun _ m h => by rw [hm] at h; cases h⟩
  | ok m =>
    constructor
    · intro h
      show (!m.has a) = true
      rw [h m hm]
      rfl
    · intro h m' hm'
      rw [hm] at hm'
      cases hm'
      change (!m.has a) = true at h
      rwa [Bool.not_eq_true'] at h

instance : Decidable (Unmapped s a) := decidable_of_iff _ unmapped_iff.symm

/-- Whether a card refers to one that is missing from the card map. -/
def Leads (s : Session) (a b : Json) : Prop := Refers s a b ∧ Unmapped s b

instance : Decidable (Leads s a b) := inferInstanceAs (Decidable (_ ∧ _))

/-- Whether a circle of references is reached from a card, through cards that are missing from the card
map. -/
def Doomed (s : Session) (a : Json) : Prop :=
  ∃ c, Relation.ReflTransGen (Leads s) a c ∧ Relation.TransGen (Leads s) c c

theorem Unmapped.congr (h : Unmapped s a) (hkey : a.key = b.key) : Unmapped s b := by
  intro m hm
  have ha := h m hm
  unfold IdMap.has at ha ⊢
  rwa [← IdMap.get?_congr hkey]

theorem Unmapped.of_quiet (h : Unmapped s a) (hc : Store.cardObject t.directory = Store.cardObject s.directory) :
    Unmapped t a := by
  intro m hm
  rw [Store.cardMap_congr hc] at hm
  exact h m hm

/-- A doomed card refers to a doomed card that is missing from the card map. -/
theorem Doomed.exists_leads (h : Doomed s a) : ∃ b, Leads s a b ∧ Doomed s b := by
  obtain ⟨c, hreach, hcircle⟩ := h
  rcases Relation.ReflTransGen.cases_head hreach with rfl | ⟨b, hab, hbc⟩
  · obtain ⟨b, hab, hba⟩ := Relation.TransGen.head'_iff.1 hcircle
    exact ⟨b, hab, a, hba, hcircle⟩
  · exact ⟨b, hab, c, hbc, hcircle⟩

theorem Doomed.of_leads (hab : Leads s a b) (h : Doomed s b) : Doomed s a := by
  obtain ⟨c, hreach, hcircle⟩ := h
  exact ⟨c, hreach.head hab, hcircle⟩

/-- Whether a card is doomed depends on its thing alone. -/
theorem Doomed.congr (h : Doomed s a) (hkey : a.key = b.key) : Doomed s b := by
  obtain ⟨c, ⟨⟨payload, card, ids, hget, hrest⟩, hunmapped⟩, hc⟩ := h.exists_leads
  rw [IdMap.get?_congr hkey] at hget
  exact .of_leads ⟨⟨payload, card, ids, hget, hrest⟩, hunmapped⟩ hc

/-! ### What is spared -/

/-- No doomed card is written or entered in the card map on the way from one session to another. -/
structure Spares (s₀ s t : Session) : Prop where
  attempts : ∃ new, t.journal.attempts = s.journal.attempts ++ new ∧
    ∀ a ∈ new, ¬Doomed s₀ a.source
  commits : ∃ new, t.journal.commits = s.journal.commits ++ new ∧ ∀ p ∈ new, ¬Doomed s₀ p.1

/-- The cards of the instance are as at the beginning, new ones apart, and the doomed cards that were
missing from the card map still are. -/
structure Missing (s₀ s : Session) : Prop where
  beyond : Beyond s₀.metabase.nextId s₀ s
  unmapped : ∀ a, Doomed s₀ a → Unmapped s₀ a → Unmapped s a

theorem Spares.of_quiet (h : Quiet s t) : Spares s₀ s t where
  attempts := ⟨[], h.attempts.trans (List.append_nil _).symm, fun _ h => nomatch h⟩
  commits := ⟨[], h.commits.trans (List.append_nil _).symm, fun _ h => nomatch h⟩

theorem Spares.trans (h₁ : Spares s₀ s t) (h₂ : Spares s₀ t u) : Spares s₀ s u where
  attempts := appended_trans h₁.attempts h₂.attempts
  commits := appended_trans h₁.commits h₂.commits

theorem Missing.refl (s : Session) : Missing s s where
  beyond := Std.Refl.refl s
  unmapped _ _ h := h

theorem Missing.idle (h : Missing s₀ s) (hidle : Idle s t) : Missing s₀ t where
  beyond := h.beyond.trans (.of_idle hidle)
  unmapped a ha hunmapped := (h.unmapped a ha hunmapped).of_quiet hidle.cardObject

variable {terms : Terms} {path : Ids} {id : Json} {card : Card}

/-- Stages 3 to 6 for a card that is not doomed. -/
theorem spares_ready {r : Except Fault Report} (hsafe : ¬Doomed s₀ id) (hint : id.isInt = true)
    (hs : Missing s₀ s) (h : ReadyRun terms id card s (r, t)) :
    Spares s₀ s t ∧ ∀ a, Doomed s₀ a → Unmapped s₀ a → Unmapped t a := by
  have hidle (hidle : Idle s t) :
      Spares s₀ s t ∧ ∀ a, Doomed s₀ a → Unmapped s₀ a → Unmapped t a :=
    ⟨.of_quiet hidle.toQuiet, (hs.idle hidle).unmapped⟩
  cases h with
  | unwritten idle failed => exact hidle idle
  | before unforced read idle newId => exact hidle idle
  | dry dry idle => exact hidle idle
  | refused d tried answer attempted failed =>
    constructor
    · refine ⟨⟨_, attempted.attempts, fun a ha => ?_⟩, ⟨[], ?_, fun _ h => nomatch h⟩⟩
      · rw [List.mem_singleton.1 ha, tried.source]
        exact hsafe
      · rw [attempted.commits, List.append_nil]
    · exact fun a ha hunmapped => (hs.unmapped a ha hunmapped).of_quiet attempted.cardObject
  | written d tried answer attempted set settings correspondence attempts commits newId =>
    constructor
    · rw [attempted.commits] at commits
      refine ⟨⟨_, attempts.trans attempted.attempts, fun a ha => ?_⟩, ⟨_, commits, fun p hp => ?_⟩⟩
      · rw [List.mem_singleton.1 ha, tried.source]
        exact hsafe
      · rw [List.mem_singleton.1 hp]
        exact hsafe
    · intro a ha hunmapped m' hm'
      have hcards := (Store.cardMap_congr attempted.cardObject).trans d.readCards
      rw [Bool.eq_false_iff]
      intro hhas
      rcases Store.has_of_setCard set hcards hm' hint hhas with hold | hkey
      · rw [hs.unmapped a ha hunmapped _ d.readCards] at hold
        cases hold
      · exact hsafe (ha.congr hkey)

/-- A card whose providers are all in the card map, or not doomed, is not doomed. -/
theorem not_doomed_of_providers (hs : Missing s₀ s) (g : Fetched path id s)
    (hstart : ∃ payload, s₀.metabase.cards.get? id = some payload ∧
      Card.ofPayload payload = .ok g.card)
    (hall : ∀ i ∈ g.providers, g.mapped.has i = true ∨ ¬Doomed s₀ i) : ¬Doomed s₀ id := by
  intro hdoomed
  obtain ⟨b, ⟨⟨payload, card, ids, hget, hcard, hfound, hhas⟩, hunmapped⟩, hb⟩ :=
    hdoomed.exists_leads
  obtain ⟨payload', hget', hcard'⟩ := hstart
  rw [hget] at hget'
  cases hget'
  rw [hcard] at hcard'
  cases hcard'
  rw [g.found] at hfound
  cases hfound
  -- the provider is doomed and not in the map, so its transfer cannot have ended well
  obtain ⟨i, hi, hkey⟩ := (Ids.has_iff _ _).1 hhas
  rcases hall i hi with hmapped | hsafe
  · have hnot := (hs.idle g.idle).unmapped i (hb.congr hkey.symm) (hunmapped.congr hkey.symm)
    rw [hnot _ g.readMapped] at hmapped
    cases hmapped
  · exact hsafe (hb.congr hkey.symm)

/-- What a transfer of a card does to the doomed cards: none is written, those that were missing from
the card map still are, and it does not succeed for one. -/
def Harmless (s₀ s t : Session) (id : Json) (r : Except Fault Outcome) : Prop :=
  Spares s₀ s t ∧ (∀ a, Doomed s₀ a → Unmapped s₀ a → Unmapped t a) ∧
    (Doomed s₀ id → ∀ o, r = .ok o → o.ok = false)

/-- The providers of a card, if the transfer of each of them is harmless. -/
theorem spares_providers {n : Nat} {r : Except Fault (List Outcome × Option Stop)}
    (hs : Missing s₀ s) (g : Fetched path id s)
    (hbelow : ∀ i ∈ g.providers, Below s₀.metabase.nextId i)
    (ih : ∀ {i : Json} {v w : Session} {o : Except Fault Outcome}, Missing s₀ v → i.isInt = true →
      Below s₀.metabase.nextId i →
      (transferCard n terms.forProviders (path.add id) i).run v = (o, w) → Harmless s₀ v w i o)
    (h : g.transferProviders terms (transferCard n terms.forProviders (path.add id)) = (r, t)) :
    Missing s₀ t ∧ Spares s₀ s t ∧ ∀ outcomes, r = .ok (outcomes, none) →
      ∀ i ∈ g.providers, g.mapped.has i = true ∨ ¬Doomed s₀ i := by
  obtain ⟨⟨hmissing, hspares⟩, -, hall⟩ := run_transferProviders
    (P := fun v => Missing s₀ v ∧ Spares s₀ s v) (D := fun i _ => ¬Doomed s₀ i) (by
      intro i hi v o w hv hrun
      obtain ⟨hspares, hunmapped, hfails⟩ :=
        ih hv.1 (Card.isInt_of_mem_findReferences g.found hi) (hbelow i hi) hrun
      have hbeyond : Beyond s₀.metabase.nextId v w := by
        have hkeeps : Beyond s₀.metabase.nextId v
            ((transferCard n terms.forProviders (path.add id) i).run v).2 :=
          beyond_transferCard rfl _ _ v
        rwa [hrun] at hkeeps
      refine ⟨⟨⟨hv.1.beyond.trans hbeyond, hunmapped⟩, hv.2.trans hspares⟩, ?_, fun _ h => h⟩
      intro o' ho' hok hdoomed
      rw [hfails hdoomed o' ho'] at hok
      cases hok)
    ⟨hs.idle g.idle, .of_quiet g.idle.toQuiet⟩ h
  exact ⟨hmissing, hspares, hall⟩

/-- **No transfer writes a doomed card, or succeeds for one.** The card is one that another refers to,
and not forced, or it is doomed and asked for at the beginning. The induction is on the levels. -/
theorem spares_transferCard {n : Nat} {r : Except Fault Outcome} (hsettled : Settled s₀)
    (hs : Missing s₀ s)
    (hid : (terms.force = false ∧ id.isInt = true ∧ Below s₀.metabase.nextId id) ∨
      (s = s₀ ∧ Doomed s₀ id))
    (h : (transferCard n terms path id).run s = (r, t)) : Harmless s₀ s t id r := by
  induction n generalizing terms path id s t r with
  | zero =>
    cases h
    exact ⟨.of_quiet (Std.Refl.refl s), hs.unmapped, fun _ _ h => nomatch h⟩
  | succ n ih =>
    have hrun := cardRun terms (transferCard n terms.forProviders (path.add id)) path id s
    change (transferVia terms _ path id).run s = _ at h
    rw [h] at hrun
    -- what the card was at the beginning, and that its providers are not among the new cards
    have hstart (g : Fetched path id s) : ∃ payload, s₀.metabase.cards.get? id = some payload ∧
        Card.ofPayload payload = .ok g.card :=
      exists_card_of_fetch hs.beyond (hid.symm.imp And.left (fun h => h.2.2)) g.fetched
    have hbelow (g : Fetched path id s) : ∀ i ∈ g.providers, Below s₀.metabase.nextId i := by
      obtain ⟨payload, hget, hcard⟩ := hstart g
      obtain ⟨p, hp, -, rfl⟩ := IdMap.exists_mem_of_get? hget
      exact hsettled p hp _ _ hcard g.found
    cases hrun with
    | left idle failed =>
      exact ⟨.of_quiet idle.toQuiet, (hs.idle idle).unmapped, fun _ => failed⟩
    | stopped g run stop failed =>
      obtain ⟨hmissing, hspares, -⟩ := spares_providers hs g (hbelow g)
        (fun hv hint hi hrun => ih hv (.inl ⟨rfl, hint, hi⟩) hrun) run
      exact ⟨hspares, hmissing.unmapped, fun _ => failed⟩
    | ready g run ready =>
      obtain ⟨hmissing, hspares, hall⟩ := spares_providers hs g (hbelow g)
        (fun hv hint hi hrun => ih hv (.inl ⟨rfl, hint, hi⟩) hrun) run
      have hsafe : ¬Doomed s₀ id := not_doomed_of_providers hs g (hstart g) (hall _ rfl)
      have hint : id.isInt = true := by
        rcases hid with ⟨-, hint, -⟩ | ⟨-, hdoomed⟩
        · exact hint
        · exact absurd hdoomed hsafe
      obtain ⟨hready, hunmapped⟩ := spares_ready hsafe hint hmissing ready
      exact ⟨hspares.trans hready, hunmapped, fun hdoomed => absurd hdoomed hsafe⟩

/-! ### A whole request -/

/-- What a request for a doomed card answers: if it can be used, the outcome of the transfer, a
failure, unless it is live and the waiting area cannot be brought up to date with it. -/
def FailsFor (r : Request) (s : Session) : Prop :=
  match r.terms s with
  | .error f => ((transfer r).run s).1 = .error f
  | .ok (terms, path) =>
    let c := r.transferCard s terms path
    let o := outcomeOf r.card c.1
    o.ok = false ∧ ((transfer r).run s).1 =
      if r.dryRun.truthy then .ok o
      else (WaitingArea.update c.2.today o.reports c.2.directory).map fun _ => o

/-- **Circles of references do no harm**, if no card refers to one that is still to be created.

1. Transfers do not go deeper than there are cards: with more levels, the run is the one with all
   levels, whatever would be done below.
2. If a circle of references is reached from the card that is asked for, through cards that are
   missing from the card map, the request fails; neither that card nor any other from which such a
   circle is reached is written, or entered in the card map. -/
theorem circles_are_safe (r : Request) (s : Session) (hsettled : Settled s) :
    (∀ terms path bottom levels, s.metabase.cards.length < levels →
      (transferOver bottom levels terms path r.card).run s = r.transferCard s terms path) ∧
    (Doomed s r.card → Spares s s ((transfer r).run s).2 ∧ FailsFor r s) := by
  have hfew (path : Ids) : s.room path ≤ s.metabase.cards.length := List.length_filter_le ..
  constructor
  · intro terms path bottom levels hlevels
    have hroom := hfew path
    refine run_transferOver hsettled bottom ?_ ?_ (Std.Refl.refl s) (.inl rfl)
    · omega
    · show s.room path < s.metabase.cards.length + 1000
      omega
  · intro hdoomed
    have hid (deadline : Option Number) (path : Ids) {o : Except Fault Outcome} {u : Session}
        (h : (transferCard s.levels ⟨r.dryRun, r.force, r.collection, deadline⟩ path r.card).run s =
          (o, u)) : Spares s s u ∧ (outcomeOf r.card o).ok = false := by
      obtain ⟨hspares, -, hfails⟩ := spares_transferCard hsettled (.refl s) (.inr ⟨rfl, hdoomed⟩) h
      refine ⟨hspares, ?_⟩
      cases o with
      | ok o => exact hfails hdoomed o rfl
      | error f => rfl
    constructor
    · rcases transfer_cases (Prod.eta ((transfer r).run s)).symm with ⟨hsame, -⟩ | h
      · rw [hsame]
        exact .of_quiet (Std.Refl.refl s)
      · obtain ⟨deadline, path, o, u, hrun, hidle, -⟩ := h
        exact (hid deadline path hrun).1.trans (.of_quiet hidle.toQuiet)
    · unfold FailsFor
      rw [run_transfer]
      cases hterms : r.terms s with
      | error f => rfl
      | ok p =>
        obtain ⟨terms, path⟩ := p
        obtain ⟨deadline, rfl⟩ := Request.eq_of_terms hterms
        simp only
        constructor
        · exact (hid deadline path (Prod.eta _).symm).2
        · split
          · rfl
          · rw [run_updateWaiting]
            simp only
            generalize WaitingArea.update _ _ _ = e
            cases e with
            | error f => rfl
            | ok d => rfl

/-! ### A circle of two cards -/

/-- Cards 7 and 8, which refer to each other. -/
def circleCards : IdMap Json :=
  [structuredCard 7 (.str "card__8"), structuredCard 8 (.str "card__7")]

/-- A live request for card 7 fails, and neither card is written. -/
theorem circles_are_safe_circleCards :
    let s := smallSession circleCards ⟨[]⟩
    Settled s ∧ Doomed s (.int 7) ∧ Spares s s ((transfer (liveRequest 7 false)).run s).2 ∧
      FailsFor (liveRequest 7 false) s := by
  intro s
  have hsettled : Settled s := by decide +kernel
  have hdoomed : Doomed s (.int 7) := by
    have h₁ : Leads s (.int 7) (.int 8) := by decide +kernel
    have h₂ : Leads s (.int 8) (.int 7) := by decide +kernel
    exact ⟨.int 7, .refl, .head h₁ (.single h₂)⟩
  obtain ⟨-, h⟩ := circles_are_safe (liveRequest 7 false) s hsettled
  obtain ⟨hspares, hfails⟩ := h hdoomed
  exact ⟨hsettled, hdoomed, hspares, hfails⟩

/-- If the stored waiting area is unusable, a live request for card 7 ends in a fault. -/
theorem circleCards_fault :
    let s := smallSession circleCards ⟨[("state/waiting_cards.json", "[1]")]⟩
    Doomed s (.int 7) ∧ ((transfer (liveRequest 7 false)).run s).1.toOption.isNone = true := by
  intro s
  have h₁ : Leads s (.int 7) (.int 8) := by decide +kernel
  have h₂ : Leads s (.int 8) (.int 7) := by decide +kernel
  constructor
  · exact ⟨.int 7, .refl, .head h₁ (.single h₂)⟩
  · decide +kernel

end Session
end CardTransfer
