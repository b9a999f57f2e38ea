import CardTransfer.Proofs.Card.Reference
import CardTransfer.Proofs.Transfer.Call

/-!
# Providers come first

When an attempt is made to write a card, all cards that it refers to are in the card map, and if its
query is structured, nothing in it is without counterpart (`attempts_prepared`).

The argument goes by the levels of the transfer. Providers are looked up in the card map as it was
before any of them was transferred, but the map only grows (`Grown`). So a provider that was found
there is still there when the card is written, and one that was not has been transferred since, which
put it there.
-/

namespace CardTransfer
namespace Session

variable {s t u : Session} {id : Json}

/-- The structured query of a card, transferred with some cards in the places of others. -/
def structured (s : Session) (cards : IdMap Json) (card : Card) : StructuredTransfer :=
  .ofQuery s.correspondence cards s.settings.sourceDatabase s.settings.targetDatabase card.query

/-- What must be the case when an attempt is made to write a card, in a session with the
correspondence and the settings of `s`: with `cards` the card map at that time, all cards that the
card refers to are in it, and the query to be written, if it is structured, has no gap. -/
structure Prepared (s : Session) (a : Attempt) (cards : IdMap Json) : Prop where
  readCards : Store.cardMap a.store = .ok cards
  providers : ∃ ids, a.card.findReferences = .ok ids ∧ ∀ id ∈ ids, cards.has id = true
  complete : a.card.kind? = some .structured →
    (s.structured cards a.card).unmatchedTables = [] ∧
    (s.structured cards a.card).unmatchedFields = [] ∧
    (s.structured cards a.card).unresolvedCards = [] ∧
    Members.get? a.definition "dataset_query" = some (.obj (s.structured cards a.card).query)

/-- What a live transfer makes of a session: if the card map can be read afterwards, it could be read
before and has lost no id, and all new attempts were prepared. -/
structure Grown (s t : Session) : Prop where
  settings : t.settings = s.settings
  correspondence : t.correspondence = s.correspondence
  ids : ∀ m', Store.cardMap t.directory = .ok m' →
    ∃ m, Store.cardMap s.directory = .ok m ∧ ∀ id, m.has id = true → m'.has id = true
  attempts : ∃ new, t.journal.attempts = s.journal.attempts ++ new ∧
    ∀ a ∈ new, ∃ cards, Prepared s a cards

/-- Whether the card map has an id, if it can be read. -/
def Held (id : Json) (s : Session) : Prop :=
  ∀ m, Store.cardMap s.directory = .ok m → m.has id = true

theorem Prepared.congr {a : Attempt} {cards : IdMap Json} (h : Prepared t a cards)
    (hs : t.settings = s.settings) (hc : t.correspondence = s.correspondence) :
    Prepared s a cards := by
  have heq : t.structured cards a.card = s.structured cards a.card := by
    unfold structured
    rw [hs, hc]
  exact ⟨h.readCards, h.providers, heq ▸ h.complete⟩

theorem Grown.of_quiet (h : Quiet s t) : Grown s t where
  settings := h.settings
  correspondence := h.correspondence
  ids m' hm' := ⟨m', (Store.cardMap_congr h.cardObject).symm.trans hm', fun _ h => h⟩
  attempts := ⟨[], h.attempts.trans (List.append_nil _).symm, fun _ h => nomatch h⟩

theorem Grown.trans (h₁ : Grown s t) (h₂ : Grown t u) : Grown s u where
  settings := h₂.settings.trans h₁.settings
  correspondence := h₂.correspondence.trans h₁.correspondence
  ids m₂ hm₂ := by
    obtain ⟨m₁, hm₁, h₂₁⟩ := h₂.ids m₂ hm₂
    obtain ⟨m, hm, h₁⟩ := h₁.ids m₁ hm₁
    exact ⟨m, hm, fun id hid => h₂₁ id (h₁ id hid)⟩
  attempts := by
    obtain ⟨new, hnew, hprepared⟩ := h₂.attempts
    refine appended_trans h₁.attempts ⟨new, hnew, fun a ha => ?_⟩
    obtain ⟨cards, hcards⟩ := hprepared a ha
    exact ⟨cards, hcards.congr h₁.settings h₁.correspondence⟩

/-- What the map has stays there. -/
theorem Held.mono (h : Grown s t) (hid : Held id s) : Held id t := by
  intro m' hm'
  obtain ⟨m, hm, hkeep⟩ := h.ids m' hm'
  exact hkeep id (hid m hm)

/-! ### Queries without gaps -/

/-- A structured query that is transferred has no gap. -/
theorem ofStructured_eq_ok {card : Card} {t : StructuredTransfer} {q : NewQuery}
    (h : NewQuery.ofStructured false card t = .ok (.ok q)) :
    t.unmatchedTables = [] ∧ t.unmatchedFields = [] ∧ t.unresolvedCards = [] ∧ q.query = t.query := by
  unfold NewQuery.ofStructured at h
  split at h
  · obtain ⟨names, -, h⟩ := bind_eq_ok.1 h
    cases h
  rename_i htables
  split at h
  · obtain ⟨names, -, h⟩ := bind_eq_ok.1 h
    cases h
  rename_i hfields
  simp only [Bool.not_eq_true', Bool.not_eq_false, List.isEmpty_iff] at htables hfields
  obtain ⟨hcards, hquery⟩ := unlessUnresolved_eq_ok h
  exact ⟨htables, hfields, hcards, hquery⟩

/-- What becomes of the query of a structured card is told by its transfer. -/
theorem ofStructured_of_transferQuery {dryRun : Bool} {card : Card} {cards : IdMap Json}
    {r : Except Failure NewQuery} (hkind : card.kind? = some .structured)
    (h : (transferQuery dryRun cards card).run s = (.ok r, t)) :
    NewQuery.ofStructured dryRun card (s.structured cards card) = .ok r := by
  unfold transferQuery at h
  rw [if_pos (by rw [hkind]; rfl)] at h
  obtain ⟨result, u, hresult, h⟩ := Steps.run_bind_eq_ok.1 h
  unfold transferStructured at hresult
  rw [Steps.run_get_bind] at hresult
  obtain ⟨-, v, -, hresult⟩ := Steps.run_bind_eq_ok.1 hresult
  cases hresult
  exact congrArg Prod.fst h

/-- The query of a structured card that is transferred has no gap. -/
theorem run_transferQuery_structured {card : Card} {cards : IdMap Json} {q : NewQuery}
    (hkind : card.kind? = some .structured)
    (h : (transferQuery false cards card).run s = (.ok (.ok q), t)) :
    (s.structured cards card).unmatchedTables = [] ∧
    (s.structured cards card).unmatchedFields = [] ∧
    (s.structured cards card).unresolvedCards = [] ∧ q.query = (s.structured cards card).query :=
  ofStructured_eq_ok (ofStructured_of_transferQuery hkind h)

/-! ### Levels of the transfer -/

variable {terms : Terms} {card : Card} {path : Ids}

/-- An attempt that is made from a draft was prepared, if the card map had all references by then. -/
theorem Draft.prepared (d : Draft terms id card s) {a : Attempt} (htried : d.Tried a)
    (hattempted : Attempted s a u) {ids : Ids} (hfound : card.findReferences = .ok ids)
    (hids : ∀ id ∈ ids, d.cards.has id = true) : Prepared s a d.cards where
  readCards := (Store.cardMap_congr hattempted.store).trans d.readCards
  providers := ⟨ids, by rw [htried.card, hfound], hids⟩
  complete hkind := by
    rw [htried.card] at hkind
    obtain ⟨htables, hfields, hcards, hquery⟩ := run_transferQuery_structured hkind d.transferred
    rw [htried.card, htried.definition]
    exact ⟨htables, hfields, hcards, by rw [get?_definition d.defined, hquery]⟩

/-- A card that is looked up and found is in the card map. -/
theorem held_of_cardTarget? {target : Json}
    (h : Store.cardTarget? s.directory id = .ok (some target)) : Held id s := by
  intro m hm
  exact IdMap.has_eq_true.2 ⟨target, Store.get?_of_cardTarget? h hm⟩

/-- Stages 3 to 6, once all references are in the card map. -/
theorem grown_ready {r : Except Fault Report} (hlive : terms.dryRun.truthy = false)
    (h : ReadyRun terms id card s (r, t)) {ids : Ids} (hfound : card.findReferences = .ok ids)
    (hids : ∀ i ∈ ids, Held i s) :
    Grown s t ∧ ∀ report, r = .ok report → report.ok = true → id.isInt = true → Held id t := by
  cases h with
  | unwritten idle failed =>
    refine ⟨.of_quiet idle.toQuiet, fun report hr hok => ?_⟩
    rw [failed report hr] at hok
    cases hok
  | before unforced read idle newId =>
    have hgrown : Grown s t := .of_quiet idle.toQuiet
    exact ⟨hgrown, fun _ _ _ _ => (held_of_cardTarget? read).mono hgrown⟩
  | dry dry idle =>
    rw [hlive] at dry
    cases dry
  | refused d tried answer attempted failed =>
    refine ⟨?_, fun report hr hok => ?_⟩
    · exact {
        settings := attempted.settings
        correspondence := attempted.correspondence
        ids m' hm' := ⟨m', (Store.cardMap_congr attempted.cardObject).symm.trans hm', fun _ h => h⟩
        attempts := ⟨_, attempted.attempts, fun a ha => ⟨d.cards, List.mem_singleton.1 ha ▸
          d.prepared tried attempted hfound fun i hi => hids i hi _ d.readCards⟩⟩ }
    · rw [failed report hr] at hok
      cases hok
  | written d tried answer attempted set settings correspondence attempts commits newId =>
    have hcards := (Store.cardMap_congr attempted.cardObject).trans d.readCards
    refine ⟨?_, fun _ _ _ hint m' hm' => (Store.has_setCard set hcards hm').2 hint⟩
    exact {
      settings := settings.trans attempted.settings
      correspondence := correspondence.trans attempted.correspondence
      ids m' hm' := ⟨d.cards, d.readCards, (Store.has_setCard set hcards hm').1⟩
      attempts := ⟨_, attempts.trans attempted.attempts, fun a ha => ⟨d.cards, List.mem_singleton.1 ha ▸
        d.prepared tried attempted hfound fun i hi => hids i hi _ d.readCards⟩⟩ }

/-- Transferring the providers of a card, if the transfer of each of them grows the card map and enters
the card if it ends well: afterwards all of them are in the map, unless one of them stops it. -/
theorem grown_providers {transfer : Json → Action Outcome}
    (htransfer : ∀ i v o w, (transfer i).run v = (o, w) →
      Grown v w ∧ ∀ o', o = .ok o' → o'.ok = true → i.isInt = true → Held i w)
    (g : Fetched path id s) {p : Except Fault (List Outcome × Option Stop)}
    (hg : g.transferProviders terms transfer = (p, u)) :
    Grown s u ∧ ∀ outcomes, p = .ok (outcomes, none) → ∀ i ∈ g.providers, Held i u := by
  obtain ⟨hgrown, -, hall⟩ := run_transferProviders (P := Grown g.start)
    (D := fun i v => i.isInt = true → Held i v) (by
      intro i hi v o w hv hrun
      obtain ⟨hgrown, hheld⟩ := htransfer i v o w hrun
      exact ⟨hv.trans hgrown, hheld, fun other h hint => (h hint).mono hgrown⟩)
    (.of_quiet (Std.Refl.refl _)) hg
  have hstart : Grown s g.start := .of_quiet g.idle.toQuiet
  refine ⟨hstart.trans hgrown, fun outcomes hp i hi => ?_⟩
  rcases hall outcomes hp i hi with hmapped | hheld
  · -- the card was in the map when the providers were looked up
    intro m' hm'
    obtain ⟨m, hm, hkeep⟩ := hgrown.ids m' hm'
    rw [g.readMapped] at hm
    cases hm
    exact hkeep i hmapped
  · exact hheld (Card.isInt_of_mem_findReferences g.found hi)

/-- **A live transfer of a card only grows the card map, and every attempt in it was prepared.** If it
ends well, the map has the card. The induction is on the levels. -/
theorem grown_transferCard {n : Nat} {r : Except Fault Outcome} (hlive : terms.dryRun.truthy = false)
    (h : (transferCard n terms path id).run s = (r, t)) :
    Grown s t ∧ ∀ o, r = .ok o → o.ok = true → id.isInt = true → Held id t := by
  induction n generalizing terms path id s t r with
  | zero =>
    cases h
    exact ⟨.of_quiet (Std.Refl.refl s), fun _ h => nomatch h⟩
  | succ n ih =>
    have hlive' : terms.forProviders.dryRun.truthy = false := hlive
    have hrun := cardRun terms (transferCard n terms.forProviders (path.add id)) path id s
    change (transferVia terms _ path id).run s = _ at h
    rw [h] at hrun
    cases hrun with
    | left idle failed =>
      refine ⟨.of_quiet idle.toQuiet, fun o ho hok => ?_⟩
      rw [failed o ho] at hok
      cases hok
    | stopped g run stop failed =>
      refine ⟨(grown_providers (fun _ _ _ _ => ih hlive') g run).1, fun o ho hok => ?_⟩
      rw [failed o ho] at hok
      cases hok
    | ready g run ready =>
      obtain ⟨hgrown, hheld⟩ := grown_providers (fun _ _ _ _ => ih hlive') g run
      obtain ⟨hready, hok⟩ := grown_ready hlive ready g.found (hheld _ rfl)
      refine ⟨hgrown.trans hready, fun o ho => ?_⟩
      obtain ⟨report, hreport, rfl⟩ := map_eq_ok.1 ho
      exact hok report hreport

/-- **At every attempt that a request makes to write a card, all cards that it refers to are in the
card map already**, and if the card is structured, its query has no table, field or card without
counterpart. -/
theorem attempts_prepared (r : Request) (s : Session) :
    ∃ new, ((transfer r).run s).2.journal.attempts = s.journal.attempts ++ new ∧
      ∀ a ∈ new, ∃ cards, Prepared s a cards := by
  suffices h : Grown s ((transfer r).run s).2 from h.attempts
  rcases transfer_cases (Prod.eta ((transfer r).run s)).symm with ⟨hsame, -⟩ | h
  · rw [hsame]
    exact .of_quiet (Std.Refl.refl s)
  obtain ⟨deadline, path, o, u, hrun, hidle, -⟩ := h
  refine Grown.trans ?_ (.of_quiet hidle.toQuiet)
  cases hdry : r.dryRun.truthy with
  | true => exact .of_quiet (idle_transferCard_of_dryRun hdry hrun).toQuiet
  | false => exact (grown_transferCard hdry hrun).1

end Session
end CardTransfer

/-!
## The story of the card map

The attempts to write cards, taken in turn, tell how the card map changes. A refused attempt leaves it as
it is. A card that was written is entered, and the id is new then or has the same value already: the
map is read right before a card is written, and whatever else happens in between does not touch it.

So a live transfer whose card map is plain at the beginning and can be read at the end is a `Story`
from the one map to the other (`story_transferCard`). In a story nothing is taken from the map and no
value is changed (`Story.kept`), every card that was written is in the map at the end
(`Story.get?_of_written`), and no card is created twice (`Story.nodup_sources`).
-/

namespace CardTransfer

/-- The id of the card that an attempt created, if it did. -/
def Attempt.created? (a : Attempt) : Option Json :=
  match a.replaced, a.answer with
  | none, .ok target => some target
  | _, _ => none

/-- The cards for which attempts created others, as often as they did. -/
def Attempt.sources (as : List Attempt) : List Key :=
  as.filterMap fun a => a.created?.map fun _ => a.source.key

theorem Attempt.created?_eq_some {a : Attempt} {target : Json} :
    a.created? = some target ↔ a.replaced = none ∧ a.answer = .ok target := by
  unfold created?
  constructor
  · intro h
    split at h
    · rename_i hreplaced hanswer
      cases h
      exact ⟨hreplaced, hanswer⟩
    · cases h
  · rintro ⟨hreplaced, hanswer⟩
    rw [hreplaced, hanswer]

theorem Attempt.mem_sources {as : List Attempt} {k : Key} :
    k ∈ Attempt.sources as ↔ ∃ a ∈ as, (∃ target, a.created? = some target) ∧ a.source.key = k := by
  unfold sources
  simp only [List.mem_filterMap, Option.map_eq_some_iff, exists_and_right]

/-- A map that says all that another says. -/
def IdMap.Extends (m m' : IdMap Json) : Prop := ∀ id v, m.get? id = some v → m'.get? id = some v

/-- How attempts, taken in turn, lead from one card map to another. -/
inductive Story : IdMap Json → List Attempt → IdMap Json → Prop
  | done (m : IdMap Json) : Story m [] m
  /-- The target refuses a card. -/
  | refused {m m' : IdMap Json} {a : Attempt} {as : List Attempt} {f : Fault}
    (read : Store.cardMap a.store = .ok m) (answer : a.answer = .error f) (rest : Story m as m') :
    Story m (a :: as) m'
  /-- A card is written and entered. -/
  | written {m m₁ m' : IdMap Json} {a : Attempt} {as : List Attempt} {target : Json}
    (read : Store.cardMap a.store = .ok m) (answer : a.answer = .ok target)
    (new : a.replaced = none → m.get? a.source = none)
    (old : ∀ v, m.get? a.source = some v → v = target)
    (entered : ∀ id, m₁.get? id = if id.key = a.source.key then some target else m.get? id)
    (rest : Story m₁ as m') : Story m (a :: as) m'

variable {m m' m₁ : IdMap Json} {as bs : List Attempt} {a : Attempt} {id : Json}

theorem IdMap.Extends.refl (m : IdMap Json) : m.Extends m := fun _ _ h => h

theorem IdMap.Extends.trans (h₁ : m.Extends m₁) (h₂ : m₁.Extends m') : m.Extends m' :=
  fun id v h => h₂ id v (h₁ id v h)

/-- A map in which a card has been entered extends the one before. -/
theorem extends_of_entered {target : Json} (old : ∀ v, m.get? a.source = some v → v = target)
    (entered : ∀ id, m₁.get? id = if id.key = a.source.key then some target else m.get? id) :
    m.Extends m₁ := by
  intro id v hv
  rw [entered]
  split
  · rename_i hk
    rw [IdMap.get?_congr hk] at hv
    rw [old v hv]
  · exact hv

namespace Story

/-- Stories in a row. -/
theorem append (h₁ : Story m as m₁) (h₂ : Story m₁ bs m') : Story m (as ++ bs) m' := by
  induction h₁ with
  | done m => exact h₂
  | refused read answer rest ih => exact .refused read answer (ih h₂)
  | written read answer new old entered rest ih => exact .written read answer new old entered (ih h₂)

/-- **Nothing is taken from the map and no value is changed.** -/
theorem kept (h : Story m as m') : m.Extends m' := by
  induction h with
  | done m => exact .refl m
  | refused read answer rest ih => exact ih
  | written read answer new old entered rest ih => exact (extends_of_entered old entered).trans ih

/-- An id for which no card is written keeps its value, or has none as before. -/
theorem get?_eq (h : Story m as m') (hid : ∀ a ∈ as, ∀ target, a.answer = .ok target →
    id.key ≠ a.source.key) : m'.get? id = m.get? id := by
  induction h with
  | done m => rfl
  | refused read answer rest ih => exact ih fun a ha => hid a (List.mem_cons_of_mem _ ha)
  | written read answer new old entered rest ih =>
    rw [ih fun a ha => hid a (List.mem_cons_of_mem _ ha), entered,
      if_neg (hid _ (List.mem_cons_self ..) _ answer)]

/-- A card that was written is in the map at the end. -/
theorem get?_of_written (h : Story m as m') (ha : a ∈ as) {target : Json}
    (hanswer : a.answer = .ok target) : m'.get? a.source = some target := by
  induction h with
  | done m => cases ha
  | refused read answer rest ih =>
    rcases List.mem_cons.1 ha with rfl | ha
    · rw [hanswer] at answer
      cases answer
    · exact ih ha
  | written read answer new old entered rest ih =>
    rcases List.mem_cons.1 ha with rfl | ha
    · rw [hanswer] at answer
      cases answer
      exact rest.kept _ _ (by rw [entered, if_pos rfl])
    · exact ih ha

/-- A card for which another one was created had no counterpart before. -/
theorem get?_of_created (h : Story m as m') (ha : a ∈ as) {target : Json}
    (hcreated : a.created? = some target) : m.get? a.source = none := by
  obtain ⟨hreplaced, hanswer⟩ := Attempt.created?_eq_some.1 hcreated
  induction h with
  | done m => cases ha
  | refused read answer rest ih =>
    rcases List.mem_cons.1 ha with rfl | ha
    · rw [hanswer] at answer
      cases answer
    · exact ih ha
  | written read answer new old entered rest ih =>
    rcases List.mem_cons.1 ha with rfl | ha
    · exact new hreplaced
    · rw [Option.eq_none_iff_forall_ne_some]
      intro v hv
      have hlater := extends_of_entered old entered _ v hv
      rw [ih ha] at hlater
      cases hlater

/-- **No card is created twice.** -/
theorem nodup_sources (h : Story m as m') : (Attempt.sources as).Nodup := by
  induction h with
  | done m => exact List.nodup_nil
  | refused read answer rest ih =>
    rename_i a as f
    have hnone : a.created? = none := by
      rw [Option.eq_none_iff_forall_ne_some]
      intro target htarget
      rw [(Attempt.created?_eq_some.1 htarget).2] at answer
      cases answer
    unfold Attempt.sources
    rw [List.filterMap_cons_none (by rw [hnone]; rfl)]
    exact ih
  | written read answer new old entered rest ih =>
    rename_i m m₁ m' a as target
    unfold Attempt.sources
    cases hcreated : a.created? with
    | none =>
      rw [List.filterMap_cons_none (by rw [hcreated]; rfl)]
      exact ih
    | some v =>
      rw [List.filterMap_cons_some (b := a.source.key) (by rw [hcreated]; rfl), List.nodup_cons]
      refine ⟨fun hmem => ?_, ih⟩
      -- the map has the card by the time of the other attempt
      obtain ⟨b, hb, ⟨w, hw⟩, hkey⟩ := Attempt.mem_sources.1 hmem
      have hnone := rest.get?_of_created hb hw
      rw [entered, if_pos hkey] at hnone
      cases hnone

/-! ### Moments -/

/-- At every moment of a story the map can be read and has kept what it said at the beginning. -/
theorem exists_read (h : Story m as m') {d' : Directory} (hd' : Store.cardMap d' = .ok m') :
    ∀ d ∈ as.map (·.store) ++ [d'], ∃ m₁, Store.cardMap d = .ok m₁ ∧ m.Extends m₁ := by
  induction h with
  | done m =>
    intro d hd
    obtain rfl := List.mem_singleton.1 hd
    exact ⟨m, hd', .refl m⟩
  | refused read answer rest ih =>
    intro d hd
    rcases List.mem_cons.1 hd with rfl | hd
    · exact ⟨_, read, .refl _⟩
    · exact ih hd' d hd
  | written read answer new old entered rest ih =>
    intro d hd
    rcases List.mem_cons.1 hd with rfl | hd
    · exact ⟨_, read, .refl _⟩
    · obtain ⟨m₁, hm₁, hext⟩ := ih hd' d hd
      exact ⟨m₁, hm₁, (extends_of_entered old entered).trans hext⟩

end Story

/-- From one store to the next, the card map can be read and loses and changes nothing. -/
def Store.Kept (d d' : Directory) : Prop :=
  ∃ m m', cardMap d = .ok m ∧ cardMap d' = .ok m' ∧ m.Extends m'

theorem Store.Kept.trans {d₁ d₂ d₃ : Directory} (h₁ : Kept d₁ d₂) (h₂ : Kept d₂ d₃) : Kept d₁ d₃ := by
  obtain ⟨m₁, m₂, hm₁, hm₂, hext⟩ := h₁
  obtain ⟨m₂', m₃, hm₂', hm₃, hext'⟩ := h₂
  rw [hm₂] at hm₂'
  cases hm₂'
  exact ⟨m₁, m₃, hm₁, hm₃, hext.trans hext'⟩

/-- At each moment of a story, the map has kept what it said at every earlier moment. -/
theorem Story.pairwise_kept {d' : Directory} (h : Story m as m')
    (hd' : Store.cardMap d' = .ok m') : (as.map (·.store) ++ [d']).Pairwise Store.Kept := by
  induction h with
  | done m => exact List.pairwise_singleton _ _
  | refused read answer rest ih =>
    refine List.pairwise_cons.2 ⟨fun d hd => ?_, ih hd'⟩
    obtain ⟨m₁, hm₁, hext⟩ := rest.exists_read hd' d hd
    exact ⟨_, _, read, hm₁, hext⟩
  | written read answer new old entered rest ih =>
    refine List.pairwise_cons.2 ⟨fun d hd => ?_, ih hd'⟩
    obtain ⟨m₁, hm₁, hext⟩ := rest.exists_read hd' d hd
    exact ⟨_, _, read, hm₁, (extends_of_entered old entered).trans hext⟩

end CardTransfer
