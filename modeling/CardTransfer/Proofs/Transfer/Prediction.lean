import CardTransfer.Proofs.Session.Kept
import CardTransfer.Proofs.Transfer.Again

/-!
# Dry runs predict live runs

Everything that the transfer of a query goes by – the correspondence, the settings, the card map and the
renderings that are kept – is the same after a dry run, apart from the renderings that the dry run itself has
got. Those are found in the store when the query is transferred once more, so it becomes the same query
(`transferQuery_again`), whatever the oracle would answer now. So the live run that follows creates one card
with that query (`live_run_as_predicted`).

The one thing that a dry run does not come across is the definition of the card: a name that is no text, or
settings that are no object, are a fault only there (`numberedSession_not_created`).
-/

namespace CardTransfer

/-! ### Queries without gaps of cards -/

/-- Warnings about cards without counterpart. -/
def AboutCard (warning : String) : Prop := ∃ (c : Correspondence) (id : Json),
  warning = NativeDraft.warning id ∨ warning = StructuredTransfer.warning c (.card id)

namespace NewQuery

variable {card : Card} {q : NewQuery}

/-- A query that no card stands against becomes the same in a live run. -/
theorem unlessUnresolved_live {query : Members} {warnings : List String} {cards : Ids}
    (h : unlessUnresolved true card query warnings cards = .ok (.ok q)) (hnone : cards = []) :
    unlessUnresolved false card query warnings cards = .ok (.ok q) := by
  subst hnone
  exact h

theorem warnings_of_unlessUnresolved {query : Members} {warnings : List String} {cards : Ids}
    (h : unlessUnresolved true card query warnings cards = .ok (.ok q)) : q.warnings = warnings := by
  cases h
  rfl

theorem ofStructured_live {t : StructuredTransfer} (h : ofStructured true card t = .ok (.ok q))
    (hnone : q.warnings = t.warnings → t.unresolvedCards = []) :
    ofStructured false card t = .ok (.ok q) := by
  unfold ofStructured at h ⊢
  split at h
  · obtain ⟨names, -, h⟩ := bind_eq_ok.1 h
    cases h
  · rename_i htables
    rw [if_neg htables]
    split at h
    · obtain ⟨names, -, h⟩ := bind_eq_ok.1 h
      cases h
    · rename_i hfields
      rw [if_neg hfields]
      exact unlessUnresolved_live h (hnone (warnings_of_unlessUnresolved h))

end NewQuery

/-- A structured query without warnings about cards has no gaps of cards. -/
theorem StructuredTransfer.unresolvedCards_eq_nil {c : Correspondence} {cards : IdMap Json}
    {source target : Int} {query : Members}
    (h : ∀ w ∈ (ofQuery c cards source target query).warnings, ¬AboutCard w) :
    (ofQuery c cards source target query).unresolvedCards = [] := by
  refine List.filterMap_eq_nil_iff.2 fun u hu => ?_
  cases u with
  | card id =>
    refine absurd ⟨c, id, .inr rfl⟩ (h _ (List.mem_append_right _ ?_))
    exact List.mem_map.2 ⟨_, hu, rfl⟩
  | _ => rfl

/-- So has a native one. -/
theorem NativeDraft.unresolvedCards_eq_nil {draft : NativeDraft} {target : Int} {query : Members}
    {rendered : String} (h : ∀ w ∈ (draft.finish target query rendered).warnings, ¬AboutCard w) :
    (draft.finish target query rendered).unresolvedCards = [] := by
  refine List.eq_nil_iff_forall_not_mem.2 fun id hid => ?_
  exact h _ (List.mem_map.2 ⟨id, hid, rfl⟩) ⟨default, id, .inl rfl⟩

namespace Session

open Steps (Keeps keeps_pure keeps_get)

variable {s t u : Session} {terms : Terms} {id : Json} {card : Card} {cards : IdMap Json} {q : NewQuery}

/-! ### Transferring a query once more -/

/-- All that the transfer of a query goes by, the oracle apart. -/
structure SameSources (s t : Session) : Prop where
  settings : t.settings = s.settings
  correspondence : t.correspondence = s.correspondence
  directory : t.directory = s.directory
  unreadable : t.cacheUnreadable = s.cacheUnreadable

/-- The transfer of a structured query goes by the correspondence and the settings. -/
theorem run_transferStructured (query : Members) (s : Session) :
    (transferStructured cards query).run s = ((StructuredQuery.check query).map fun _ =>
      StructuredTransfer.ofQuery s.correspondence cards s.settings.sourceDatabase s.settings.targetDatabase
        query, s) := by
  unfold transferStructured
  rw [Steps.run_get_bind, Steps.run_bind_pure]
  rfl

/-- The store takes the renderings of all queries. -/
def WorksForAll (s : Session) : Prop := ∀ query context, Works s (Oracle.cacheKey query context)

/-- **A query that was transferred in a dry run is transferred to the same one in a live run.** -/
theorem transferQuery_again (hworks : WorksForAll s) (hplain : PlainAnswers s)
    (h : (transferQuery true cards card).run s = (.ok (.ok q), t))
    (hwarnings : ∀ w ∈ q.warnings, ¬AboutCard w) (hu : SameSources t u) :
    (transferQuery false cards card).run u = (.ok (.ok q), u) := by
  have hstill := still_transferQuery true cards card s
  rw [h] at hstill
  have hsettings : u.settings = s.settings := hu.settings.trans hstill.settings
  have hcorrespondence : u.correspondence = s.correspondence := hu.correspondence.trans hstill.correspondence
  by_cases hkind : card.kind? = some .structured
  · unfold transferQuery at h ⊢
    rw [if_pos (by rw [hkind]; rfl), Steps.run_bind, run_transferStructured] at h ⊢
    rw [hsettings, hcorrespondence]
    cases hcheck : StructuredQuery.check card.query with
    | error f =>
      rw [hcheck] at h
      cases h
    | ok checked =>
      rw [hcheck] at h
      have hq := congrArg Prod.fst h
      refine Prod.ext (NewQuery.ofStructured_live hq fun heq => ?_) rfl
      exact StructuredTransfer.unresolvedCards_eq_nil (heq ▸ hwarnings)
  · obtain ⟨draft, words, rendered, hdraft, hwords, hrendered, hq⟩ := exists_rendered hkind h
    have hagain : (renderText draft.text words).run u = (.ok rendered, u) :=
      rendered_alike (hworks _ _) hplain hrendered hu.directory hu.unreadable
    have hnative : (transferNative cards card.query).run u =
        (.ok (draft.finish s.settings.targetDatabase card.query rendered), u) := by
      unfold transferNative
      rw [Steps.run_get_bind, hcorrespondence, hdraft, Steps.run_ofExcept_bind_ok, hwords,
        Steps.run_ofExcept_bind_ok, Steps.run_bind, hagain, hsettings]
      rfl
    have hnone : (draft.finish s.settings.targetDatabase card.query rendered).unresolvedCards = [] := by
      refine NativeDraft.unresolvedCards_eq_nil fun w hw => hwarnings w ?_
      rw [NewQuery.warnings_of_unlessUnresolved hq]
      exact hw
    unfold transferQuery
    rw [if_neg (by simpa using hkind), Steps.run_outcome_bind, hnative]
    refine Prod.ext (NewQuery.unlessUnresolved_live hq hnone) rfl

/-! ### Creating the card -/

/-- A card that can be defined on the target: its name, if it gets a suffix, and the suffix are texts, and its
settings, if there are any, an object. -/
structure Definable (card : Card) (suffix : Json) : Prop where
  name : suffix.truthy = false ∨ ∃ name text, card.name = .str name ∧ suffix = .str text
  settings : card.settings.truthy = false ∨ ∃ ms, card.settings = .obj ms

theorem Definable.exists_definition {suffix : Json} (h : Definable card suffix) (query collection : Json) :
    ∃ definition, card.definition query suffix collection = .ok definition := by
  have hname : ∃ name, suffixedName card.name suffix = .ok name := by
    unfold suffixedName
    rcases h.name with hnone | ⟨name, text, hcard, rfl⟩
    · exact ⟨_, if_neg (by rw [hnone]; decide)⟩
    · split
      · rw [hcard]
        exact ⟨_, rfl⟩
      · exact ⟨_, rfl⟩
  have hsettings : ∃ settings, cleanSettings card.settings = .ok settings := by
    unfold cleanSettings Json.orElse
    rcases h.settings with hnone | ⟨ms, hcard⟩
    · rw [hnone]
      exact ⟨_, rfl⟩
    · rw [hcard]
      cases (Json.obj ms).truthy with
      | true => exact ⟨_, rfl⟩
      | false => exact ⟨_, rfl⟩
  obtain ⟨name, hname⟩ := hname
  obtain ⟨settings, hsettings⟩ := hsettings
  unfold Card.definition
  rw [hname, ok_bind, hsettings]
  exact ⟨_, rfl⟩

/-- Where no call is laid down to fail, a card is created under the next id. -/
theorem run_putCard_of_usual (h : s.metabase.courses.Usual) (card : Card) (definition : Members) :
    ((putCard card none definition).run s).1 = .ok (.int s.metabase.nextId) := by
  have hcreate : ((Metabase.Instance.createCard definition).run s.metabase).1 =
      .ok (.int s.metabase.nextId) := by
    unfold Metabase.Instance.createCard
    rw [Steps.run_bind, h.run_meet]
    rfl
  show ((create card definition).run s).1 = _
  unfold create
  rw [Steps.run_bind, run_call, hcreate]
  rfl

/-- Verifying a card and entering it in the card map is no attempt to write one. -/
theorem attempts_settle {attempts : List Attempt} (target : Json) :
    Keeps (Steps.Passes fun s => s.journal.attempts = attempts) (settle id card target q) := by
  have hverify : Keeps (Steps.Passes fun s => s.journal.attempts = attempts)
      (verify card target q.query q.warnings) :=
    (quiet_verify card target q.query q.warnings).imp fun _ _ h hs => h.attempts.trans hs
  have henter : Keeps (Steps.Passes fun s => s.journal.attempts = attempts) (enterCard id target) :=
    (keeps_writeStore fun _ _ _ hs => hs).bind fun _ => Steps.keeps_modify fun _ hs => hs
  exact hverify.bind fun _ => henter.bind fun _ => keeps_get.bind fun _ => keeps_pure _

/-- **A card that has no counterpart is created, once**, with the query that its own was transferred to. -/
theorem commit_creates (id : Json) (q : NewQuery) (hdeadline : terms.deadline = none)
    (husual : s.metabase.courses.Usual) (hdefinable : Definable card s.settings.nameSuffix) : ∃ a,
      ((commit terms id card none q).run s).2.journal.attempts = s.journal.attempts ++ [a] ∧ a.source = id ∧
        a.replaced = none ∧ Members.get? a.definition "dataset_query" = some (.obj q.query) ∧
          a.answer = .ok (.int s.metabase.nextId) := by
  obtain ⟨definition, hdefinition⟩ := hdefinable.exists_definition (.obj q.query) terms.collection
  have hquery := get?_definition hdefinition
  have hput := run_putCard_of_usual husual card definition
  generalize hrun : (putCard card none definition).run s = put at hput
  obtain ⟨answer, v⟩ := put
  cases hput
  have hquiet := quiet_putCard card none definition s
  rw [hrun] at hquiet
  let a : Attempt := ⟨id, card, none, definition, .ok (.int s.metabase.nextId), v.clock, v.directory⟩
  have hwrite : (writeCard terms id card none definition).run s = (.ok (.int s.metabase.nextId),
      { v with journal := { v.journal with attempts := v.journal.attempts ++ [a] } }) := by
    unfold writeCard
    dsimp only
    rw [ite_self, Steps.run_outcome_bind, hrun]
    rfl
  have hattempts : v.journal.attempts ++ [a] = s.journal.attempts ++ [a] := by rw [hquiet.attempts]
  refine ⟨a, ?_, rfl, rfl, hquery, rfl⟩
  unfold commit
  rw [Steps.run_get_bind]
  simp only [hasPassed, hdeadline, Option.any_none, Bool.false_eq_true, ↓reduceIte]
  rw [Steps.run_get_bind, hdefinition, Steps.run_ofExcept_bind_ok, Steps.run_outcome_bind, hwrite]
  have hsettle : Keeps (Steps.Passes fun s => s.journal.attempts = v.journal.attempts ++ [a]) (do
      return Report.transferred (← settle id card (.int s.metabase.nextId) q)) :=
    (attempts_settle _).bind fun _ => keeps_pure _
  exact (hsettle _ rfl).trans hattempts

/-! ### The live run after the dry run -/

/-- Fetching a card changes the clock and the instance at most. -/
theorem exists_run_fetch (id : Json) (s : Session) : ∃ clock metabase,
    ((fetch id).run s).2 = { s with clock, metabase } := by
  unfold fetch elapse
  rw [Steps.run_get_bind, Steps.run_bind, Steps.run_get_bind]
  cases Json.plus "+=" s.clock s.metabase.fetchTime with
  | error f => exact ⟨s.clock, s.metabase, rfl⟩
  | ok clock => exact ⟨clock, _, rfl⟩

/-- A card that is fetched is found. -/
theorem found_of_fetch (h : (fetch id).run s = (.ok card, t)) : s.metabase.found id = .ok card := by
  obtain ⟨payload, hget, hcard⟩ := exists_payload_of_fetch h
  unfold Metabase.Instance.found
  rw [hget]
  exact hcard

/-- A card without counterpart whose query can be transferred is written. -/
theorem run_transferReady_of_free (hfree : Store.cardTarget? s.directory id = .ok none)
    (htime : s.hasPassed terms.deadline = false) (hcards : Store.cardMap s.directory = .ok cards)
    (hlive : terms.dryRun.truthy = false)
    (hquery : (transferQuery false cards card).run s = (.ok (.ok q), t)) :
    (transferReady terms id card).run s = (commit terms id card none q).run t := by
  unfold transferReady
  rw [Steps.run_bind, run_readStore hfree]
  dsimp only
  rw [Steps.run_get_bind, htime, if_neg Bool.false_ne_true, Steps.run_bind, run_readStore hcards]
  dsimp only
  rw [hlive, Steps.run_bind, hquery]
  rfl

/-- A dry run of a card without counterpart that ends well reports the query that its own was transferred
to. -/
theorem exists_query_of_dryRun {report : Report} (hfree : Store.cardTarget? s.directory id = .ok none)
    (hdry : terms.dryRun.truthy = true) (hok : report.ok = true)
    (h : (transferReady terms id card).run s = (.ok report, t)) : ∃ cards q,
      Store.cardMap s.directory = .ok cards ∧ (transferQuery true cards card).run s = (.ok (.ok q), t) ∧
        report = .transferred (dryReport id card none q) := by
  unfold transferReady at h
  rw [Steps.run_bind, run_readStore hfree] at h
  dsimp only at h
  rw [Steps.run_get_bind] at h
  split at h
  · cases h
    cases hok
  obtain ⟨cards, u, hcards, h⟩ := Steps.run_bind_eq_ok.1 h
  obtain ⟨hmap, rfl⟩ := Prod.mk.inj hcards
  obtain ⟨r, u, hquery, h⟩ := Steps.run_bind_eq_ok.1 h
  rw [hdry] at hquery
  cases r with
  | error failure =>
    cases h
    cases hok
  | ok q =>
    cases h
    exact ⟨cards, q, hmap, hquery, rfl⟩

/-- A dry run from a session `s` to a session `t` that ends well: it is of a card without counterpart, all
cards that this one refers to have one, and the query becomes `query` without a warning about a card. -/
structure Rehearsal (s : Session) (r : Request) (card : Card) (query : Members) (t : Session) : Prop where
  found : s.metabase.found r.card = .ok card
  unmapped : Store.cardTarget? s.directory r.card = .ok none
  providers : ∃ cards, Store.cardMap s.directory = .ok cards ∧ ∀ i ∈ card.references, cards.has i = true
  dry : r.dryRun.truthy = true
  ran : ∃ o, (transfer r).run s = (.ok o, t) ∧ o.ok = true ∧ o.report.result = some query ∧
    ∀ w ∈ o.report.warnings, ¬AboutCard w

/-- What a rehearsal comes down to: the card is fetched and its query transferred. -/
theorem Rehearsal.exists_query {r : Request} {query : Members} (h : Rehearsal s r card query t) :
    ∃ terms path start cards q, r.terms s = .ok (terms, path) ∧ path.has r.card = false ∧
      (fetch r.card).run s = (.ok card, start) ∧ card.kind?.isSome = true ∧
        card.findReferences = .ok card.references ∧ Store.cardMap s.directory = .ok cards ∧
          (transferQuery true cards card).run start = (.ok (.ok q), t) ∧ q.query = query ∧
            ∀ w ∈ q.warnings, ¬AboutCard w := by
  obtain ⟨o, hrun, hok, hresult, hwarnings⟩ := h.ran
  rw [run_transfer] at hrun
  cases hterms : r.terms s with
  | error f =>
    rw [hterms] at hrun
    cases hrun
  | ok p =>
    obtain ⟨terms, path⟩ := p
    obtain ⟨deadline, rfl⟩ := Request.eq_of_terms hterms
    rw [hterms] at hrun
    simp only [h.dry, ↓reduceIte] at hrun
    generalize hc : r.transferCard s ⟨r.dryRun, r.force, r.collection, deadline⟩ path = c at hrun
    obtain ⟨x, v⟩ := c
    obtain ⟨ho, rfl⟩ := Prod.mk.inj hrun
    cases x with
    | error f =>
      cases ho
      cases hok
    | ok o' =>
      obtain rfl : o' = o := Except.ok.inj ho
      obtain ⟨n, g, u, hproviders, hready⟩ := exists_ready hc hok
      obtain ⟨clock, metabase, hstart⟩ := exists_run_fetch r.card s
      rw [g.fetched] at hstart
      have hdirectory : g.start.directory = s.directory := congrArg (·.directory) hstart
      obtain rfl : g.card = card := Except.ok.inj ((found_of_fetch g.fetched).symm.trans h.found)
      obtain ⟨cards, hcards, hhas⟩ := h.providers
      have hmapped : g.mapped = cards := by
        have hread := g.readMapped
        rw [hdirectory, hcards] at hread
        exact (Except.ok.inj hread).symm
      have hfound : g.providers = g.card.references := by
        obtain ⟨-, -, hreferences⟩ := bind_eq_ok.1 g.found
        exact (Except.ok.inj hreferences).symm
      have hu : u = g.start := by
        unfold Fetched.transferProviders at hproviders
        rw [hmapped, hfound, run_transferProviders_of_has hhas] at hproviders
        exact (congrArg Prod.snd hproviders).symm
      rw [hu] at hready
      have hfree : Store.cardTarget? g.start.directory r.card = .ok none := by
        rw [hdirectory]
        exact h.unmapped
      obtain ⟨cards', q, hcards', hquery, hreport⟩ := exists_query_of_dryRun hfree h.dry hok hready
      rw [hdirectory, hcards] at hcards'
      cases hcards'
      rw [hreport] at hresult hwarnings
      exact ⟨_, path, g.start, cards, q, rfl, g.fresh, g.fetched, g.supported, hfound ▸ g.found, hcards,
        hquery, Option.some.inj hresult, hwarnings⟩

/-- The fetch of a card leaves all that the transfer of a query goes by as it is. -/
theorem sameSources_fetch (id : Json) (s : Session) : SameSources s ((fetch id).run s).2 := by
  obtain ⟨clock, metabase, hrun⟩ := exists_run_fetch id s
  rw [hrun]
  exact ⟨rfl, rfl, rfl, rfl⟩

/-- A card without counterpart, all of whose providers have one, is fetched and then created, if its query is
transferred whatever the clock, the oracle and the instance may be. -/
theorem transferCard_creates (n : Nat) (terms : Terms) (hlive : terms.dryRun.truthy = false)
    (hdeadline : terms.deadline = none) (hfresh : path.has id = false) (hfaultless : s.metabase.Faultless)
    (hcard : s.metabase.found id = .ok card) (hkind : card.kind?.isSome = true)
    (hcards : Store.cardMap s.directory = .ok cards)
    (hfree : Store.cardTarget? s.directory id = .ok none) (hfound : card.findReferences = .ok card.references)
    (hhas : ∀ i ∈ card.references, cards.has i = true)
    (hquery : ∀ u, SameSources s u → (transferQuery false cards card).run u = (.ok (.ok q), u))
    (hdefinable : Definable card s.settings.nameSuffix) : ∃ a,
      ((transferCard (n + 1) terms path id).run s).2.journal.attempts = s.journal.attempts ++ [a] ∧
        a.source = id ∧ a.replaced = none ∧
          Members.get? a.definition "dataset_query" = some (.obj q.query) ∧
            a.answer = .ok (.int s.metabase.nextId) := by
  obtain ⟨u, hfetch, hlater⟩ := run_fetch hfaultless id
  have hsources := sameSources_fetch id s
  have hidle := (calm_fetch id s).idle
  rw [hfetch] at hsources hidle
  have hid : id.asKey = .ok id := by
    obtain ⟨m, -, hread⟩ := bind_eq_ok.1 hfree
    obtain ⟨key, hkey, -⟩ := bind_eq_ok.1 hread
    rw [hkey, Json.eq_of_asKey hkey]
  have htime (v : Session) : v.hasPassed terms.deadline = false := by
    rw [hdeadline]
    rfl
  have hready : (transferReady terms id card).run u = (commit terms id card none q).run u := by
    refine run_transferReady_of_free ?_ (htime u) ?_ hlive (hquery u hsources)
    · rw [hsources.directory, hfree]
    · rw [hsources.directory, hcards]
  rw [hcard] at hfetch
  have hrun : (transferCard (n + 1) terms path id).run s = _ :=
    run_transferVia_of_has hid hfresh (htime s) hfetch hkind (by rw [hsources.directory, hcards]) hfound hhas
  obtain ⟨a, hattempts, hsource, hreplaced, hdefinition, hanswer⟩ :=
    commit_creates id q hdeadline hlater.faultless.courses (hsources.settings ▸ hdefinable)
  refine ⟨a, ?_, hsource, hreplaced, hdefinition, hidle.nextId ▸ hanswer⟩
  rw [hrun, hready, hattempts, hidle.attempts]

/-- A live run that is requested after a rehearsal, for the same card and with the same cards visited: there
is no deadline, no call to the instance is laid down to fail, and the card can be defined. -/
structure Performance (r r' : Request) (c : Card) (t : Session) : Prop where
  card : r'.card = r.card
  visited : r'.visited = r.visited
  live : r'.dryRun.truthy = false
  undated : r'.deadline t = .ok none
  faultless : t.metabase.Faultless
  definable : Definable c t.settings.nameSuffix

/-- A request attempts to write the cards that the transfer of its card does. -/
theorem attempts_transfer {r : Request} (hterms : r.terms s = .ok (terms, path)) :
    ((transfer r).run s).2.journal.attempts = (r.transferCard s terms path).2.journal.attempts := by
  rw [run_transfer, hterms]
  dsimp only
  split
  · rfl
  · obtain ⟨d, hupdate, -⟩ := exists_run_updateWaiting (outcomeOf r.card (r.transferCard s terms path).1)
      (r.transferCard s terms path).2
    rw [hupdate]

/-- It has the path of the rehearsal. -/
theorem Performance.terms_eq {r r' : Request} (h : Performance r r' card t)
    (hterms : r.terms s = .ok (terms, path)) (answers : Option (List Oracle.Answer)) :
    r'.terms { t with oracle := answers } =
      .ok (⟨r'.dryRun, r'.force, r'.collection, none⟩, path) := by
  obtain ⟨deadline, -, hterms⟩ := bind_eq_ok.1 hterms
  obtain ⟨visited, hvisited, hterms⟩ := bind_eq_ok.1 hterms
  cases hterms
  have hsame : r'.visitedIds = .ok visited := by
    unfold Request.visitedIds at hvisited ⊢
    rw [h.visited, hvisited]
  have hdeadline : r'.deadline { t with oracle := answers } = .ok none := h.undated
  unfold Request.terms
  rw [hdeadline, ok_bind, hsame]
  rfl

/-- **A live run does what the dry run before it has told**: it creates one card, with the query that the dry
run has reported, if the store works, no answer in the dry run had a carriage return, and the card can be
defined. The answers to come do not matter. -/
theorem live_run_as_predicted {r r' : Request} {query : Members} (hdry : Rehearsal s r card query t)
    (hworks : WorksForAll s) (hplain : PlainAnswers s) (hlive : Performance r r' card t)
    (answers : Option (List Oracle.Answer)) : ∃ a,
      ((transfer r').run { t with oracle := answers }).2.journal.attempts = t.journal.attempts ++ [a] ∧
        a.source = r.card ∧ a.replaced = none ∧
          Members.get? a.definition "dataset_query" = some (.obj query) ∧
            a.answer = .ok (.int t.metabase.nextId) := by
  obtain ⟨terms, path, start, cards, q, hterms, hfresh, hfetch, hkind, hfound, hcards, hquery, rfl,
    hwarnings⟩ := hdry.exists_query
  obtain ⟨clock, metabase, hstart⟩ := exists_run_fetch r.card s
  have hidle := (calm_fetch r.card s).idle
  rw [hfetch] at hstart hidle
  have hstill := still_transferQuery true cards card start
  rw [hquery] at hstill
  -- what the live run reads is as it was when the dry run began
  have hobject : Store.cardObject t.directory = Store.cardObject s.directory :=
    (cardObject_of_renderings hstill.renderings).trans hidle.cardObject
  have hmap : Store.cardMap t.directory = Store.cardMap s.directory := Store.cardMap_congr hobject
  have hfree : Store.cardTarget? t.directory r.card = .ok none := by
    have hunmapped := hdry.unmapped
    unfold Store.cardTarget? at hunmapped ⊢
    rw [hmap, hunmapped]
  have hcard : t.metabase.found r.card = .ok card := by
    have hread := hdry.found
    unfold Metabase.Instance.found at hread ⊢
    rw [hstill.metabase, hidle.cards, hread]
  have hhas : ∀ i ∈ card.references, cards.has i = true := by
    obtain ⟨cards', hcards', hall⟩ := hdry.providers
    rw [hcards] at hcards'
    cases hcards'
    exact hall
  have hworks' : WorksForAll start := by
    cases hstart
    exact fun query context => ⟨(hworks query context).readable, (hworks query context).writable,
      (hworks query context).takes⟩
  have hplain' : PlainAnswers start := by
    cases hstart
    exact hplain
  obtain ⟨a, hattempts, habout⟩ := transferCard_creates (t.metabase.cards.length + 999)
    ⟨r'.dryRun, r'.force, r'.collection, none⟩ (s := { t with oracle := answers }) hlive.live rfl hfresh
    hlive.faultless hcard hkind (hmap.trans hcards) hfree hfound hhas
    (fun u hu => transferQuery_again hworks' hplain' hquery hwarnings
      ⟨hu.settings, hu.correspondence, hu.directory, hu.unreadable⟩) hlive.definable
  refine ⟨a, ?_, habout⟩
  have hrun : r'.transferCard { t with oracle := answers } ⟨r'.dryRun, r'.force, r'.collection, none⟩ path =
      (transferCard (t.metabase.cards.length + 999 + 1) ⟨r'.dryRun, r'.force, r'.collection, none⟩ path
        r.card).run { t with oracle := answers } := by
    unfold Request.transferCard
    rw [hlive.card]
    rfl
  rw [attempts_transfer (hlive.terms_eq hterms answers), hrun]
  exact hattempts

/-- A dry run of a card that refers to no others is a rehearsal if it ends well and warns of nothing. -/
theorem exists_rehearsal {r : Request} (hfound : s.metabase.found r.card = .ok card)
    (hnone : card.references.isEmpty = true) (hcards : Store.cardMap s.directory = .ok [])
    (hid : r.card.isInt = true) (hdry : r.dryRun.truthy = true)
    (hrun : (((transfer r).run s).1.toOption.map fun o =>
      o.ok && o.report.warnings.isEmpty && o.report.result.isSome) = some true) :
    ∃ query, Rehearsal s r card query ((transfer r).run s).2 := by
  obtain ⟨o, ho, hreport⟩ := exists_ok_of_toOption hrun
  simp only [Bool.and_eq_true, List.isEmpty_iff] at hreport
  obtain ⟨⟨hok, hwarnings⟩, hresult⟩ := hreport
  obtain ⟨query, hquery⟩ := Option.isSome_iff_exists.1 hresult
  refine ⟨query, hfound, ?_, ⟨[], hcards, ?_⟩, hdry, o, Prod.ext ho rfl, hok, hquery, ?_⟩
  · unfold Store.cardTarget?
    rw [hcards, ok_bind, Json.asKey_of_isInt hid]
    rfl
  · rw [List.isEmpty_iff.1 hnone]
    exact List.forall_mem_nil _
  · rw [hwarnings]
    exact List.forall_mem_nil _

/-- Card 7, with a native query that the oracle renders. It then has an answer left. -/
def renderedSession : Session :=
  { (default : Session) with
    metabase := { (default : Metabase.Instance) with
      cards := [(.int 7, .obj [("id", .int 7), ("name", .str "A"), ("dataset_query", .obj [
        ("type", .str "native"), ("native", .obj [("query", .str "SELECT to_char(x)")])])])]
      nextId := 1001
      fetchTime := .int 0 }
    clock := .int 0
    oracle := some [.text "SELECT toString(x)", .text "SELECT 2"] }

/-- The live run creates it as card 1001, whatever the oracle would answer. -/
theorem live_run_as_predicted_renderedSession : ∃ card query t,
    Rehearsal renderedSession (.usual (.int 7)) card query t ∧ WorksForAll renderedSession ∧
      PlainAnswers renderedSession ∧ Performance (.usual (.int 7)) (liveRequest 7 false) card t ∧
        ∀ answers, ∃ a,
          ((transfer (liveRequest 7 false)).run { t with oracle := answers }).2.journal.attempts =
            t.journal.attempts ++ [a] ∧ a.source = .int 7 ∧ a.replaced = none ∧
              Members.get? a.definition "dataset_query" = some (.obj query) ∧
                a.answer = .ok (.int t.metabase.nextId) := by
  have hcard : (renderedSession.metabase.found (.int 7)).toOption.map (fun c =>
      (c.references.isEmpty, c.settings.truthy)) = some (true, false) := by decide +kernel
  obtain ⟨card, hcard, habout⟩ := exists_ok_of_toOption hcard
  obtain ⟨hnone, hsettings⟩ := Prod.mk.inj habout
  -- the run is computed once, for all that is read off it
  have hrun : (fun run : Except Fault Outcome × Session =>
      (run.1.toOption.map fun o => o.ok && o.report.warnings.isEmpty && o.report.result.isSome,
        run.2.metabase.courses.isEmpty, run.2.metabase.fetchTime.int?.any fun k => (Decimal.ofInt? k).isSome,
        run.2.settings.nameSuffix.truthy,
        ((liveRequest 7 false).deadline run.2).toOption.map Option.isNone))
      ((transfer (.usual (.int 7))).run renderedSession) = (some true, true, true, false, some true) := by
    decide +kernel
  simp only [Prod.mk.injEq] at hrun
  obtain ⟨hrun, hcourses, htime, hsuffix, hdeadline⟩ := hrun
  obtain ⟨query, hdry⟩ := exists_rehearsal (r := .usual (.int 7)) hcard hnone rfl rfl rfl hrun
  obtain ⟨deadline, hdeadline, hundated⟩ := exists_ok_of_toOption hdeadline
  rw [Option.isNone_iff_eq_none] at hundated
  have hworks : WorksForAll renderedSession := works_of_empty rfl rfl rfl
  have hplain : PlainAnswers renderedSession := by
    intro answer hanswer
    obtain ⟨⟨⟩⟩ | ⟨⟨⟩⟩ : Oracle.Answer.text answer = .text "SELECT toString(x)" ∨
        Oracle.Answer.text answer = .text "SELECT 2" := by
      simpa [renderedSession] using hanswer
    all_goals decide
  have hlive : Performance (.usual (.int 7)) (liveRequest 7 false) card
      ((transfer (.usual (.int 7))).run renderedSession).2 :=
    ⟨rfl, rfl, rfl, hundated ▸ hdeadline, Metabase.Instance.faultless_of (by rw [List.isEmpty_iff.1 hcourses]; rfl) htime,
      ⟨.inl hsuffix, .inl hsettings⟩⟩
  exact ⟨card, query, _, hdry, hworks, hplain, hlive, live_run_as_predicted hdry hworks hplain hlive⟩

/-- The names of new cards get a number for a suffix. -/
def numberedSession : Session :=
  { smallSession [structuredCard 7 (.int 5)] ⟨[]⟩ with
    settings := { (default : Settings) with sourceDatabase := 1, nameSuffix := .int 2024 } }

/-- **A card that cannot be defined is not created**, although its dry run ends well. -/
theorem numberedSession_not_created : ∃ card query t,
    Rehearsal numberedSession (.usual (.int 7)) card query t ∧ WorksForAll numberedSession ∧
      PlainAnswers numberedSession ∧ (liveRequest 7 false).deadline t = .ok none ∧ t.metabase.Faultless ∧
        ((transfer (liveRequest 7 false)).run t).2.journal.attempts = t.journal.attempts := by
  have hcard : (numberedSession.metabase.found (.int 7)).toOption.map (·.references.isEmpty) = some true := by
    decide +kernel
  obtain ⟨card, hcard, hnone⟩ := exists_ok_of_toOption hcard
  obtain ⟨query, hdry⟩ := exists_rehearsal (r := .usual (.int 7)) hcard hnone rfl rfl rfl (by decide +kernel)
  have hdeadline : ((liveRequest 7 false).deadline
      ((transfer (.usual (.int 7))).run numberedSession).2).toOption.map Option.isNone = some true := by
    decide +kernel
  obtain ⟨deadline, hdeadline, hundated⟩ := exists_ok_of_toOption hdeadline
  rw [Option.isNone_iff_eq_none] at hundated
  have hnothing : ((transfer (.usual (.int 7))).run numberedSession).2.journal.attempts.isEmpty = true ∧
      ((transfer (liveRequest 7 false)).run
        ((transfer (.usual (.int 7))).run numberedSession).2).2.journal.attempts.isEmpty = true := by
    decide +kernel
  refine ⟨card, query, _, hdry, works_of_empty rfl rfl rfl, fun _ h => (nomatch h), hundated ▸ hdeadline,
    Metabase.Instance.faultless_of (by decide +kernel) (by decide +kernel), ?_⟩
  rw [List.isEmpty_iff.1 hnothing.1, List.isEmpty_iff.1 hnothing.2]

end Session
end CardTransfer
