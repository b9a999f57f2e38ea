import CardTransfer.Proofs.Transfer.Frame
import CardTransfer.Proofs.Transfer.Levels
import CardTransfer.Proofs.Transfer.Listing
import CardTransfer.Proofs.Transfer.WaitingTwice

/-!
# Asking again for a card that was transferred

When a live request has transferred a card, or found it transferred, a second one for the same card
reports that it is in the card map, names the same counterpart, and changes nothing: it writes no card
and runs none, does not ask the oracle, and leaves every file of the store as it is
(`transferred_again`).

The cards that a card refers to are looked at before the card itself. So the argument needs that the
first request left all of them in the card map, which it did if it ended well (`grown_transferCard`), and
that the card still refers to no others, for which nothing may have been written in its own place
(`Leaves`). The second request then goes from the first fetch straight to the report
(`run_transferVia_mapped`), and the waiting area, in which the card does not stand, is written as it is
(`WaitingArea.update_again`).

The card map must be plain when the first request begins. If it has two entries for the card, a forced
request names the one that it has written, and the next one another (`forcedTwice_not_same`).
-/

namespace CardTransfer

/-! ### Instances on which nothing goes wrong -/

namespace Metabase

/-- No call is laid down to fail. -/
def Courses.Usual (courses : Courses) : Prop := ∀ c ∈ courses, ∀ step ∈ c.2, ∀ f, step ≠ .failed f

theorem Courses.Usual.next {courses : Courses} (h : courses.Usual) (call : CallName) :
    (∀ f, (courses.next call).1 ≠ .failed f) ∧ (courses.next call).2.Usual := by
  induction courses with
  | nil => exact ⟨by rintro f ⟨⟩, h⟩
  | cons c courses ih =>
    obtain ⟨name, steps⟩ := c
    unfold Courses.Usual at h
    rw [List.forall_mem_cons] at h
    unfold Courses.next
    split
    · constructor
      · cases steps with
        | nil => rintro f ⟨⟩
        | cons step steps => exact h.1 step (List.mem_cons_self ..)
      · exact List.forall_mem_cons.2 ⟨fun step hstep => h.1 step (List.mem_of_mem_tail hstep), h.2⟩
    · obtain ⟨hstep, hnext⟩ := ih h.2
      exact ⟨hstep, List.forall_mem_cons.2 ⟨h.1, hnext⟩⟩

/-- No call fails, and every clock can tell how long it takes to fetch a card. -/
structure Instance.Faultless (m : Instance) : Prop where
  courses : m.courses.Usual
  time : ∀ clock, ∃ clock', Json.plus "+=" clock m.fetchTime = .ok clock'

/-- Nothing goes wrong if no failure is laid down, and fetching takes a whole number of seconds that is
near a double. -/
theorem Instance.faultless_of {m : Instance}
    (hcourses : (m.courses.all fun c => c.2.all fun step => !step matches .failed _) = true)
    (htime : (m.fetchTime.int?.any fun k => (Decimal.ofInt? k).isSome) = true) : m.Faultless where
  courses c hc step hstep f := by
    rintro rfl
    exact Bool.false_ne_true (List.all_eq_true.1 (List.all_eq_true.1 hcourses c hc) _ hstep)
  time clock := by
    obtain ⟨k, hk, hdouble⟩ := (Option.any_eq_true _ _).1 htime
    have hnumber : m.fetchTime.number? = some (.int k) := by
      cases hv : m.fetchTime with
      | bool b =>
        rw [hv] at hk
        cases hk
        rfl
      | int n =>
        rw [hv] at hk
        cases hk
        rfl
      | _ =>
        rw [hv] at hk
        cases hk
    unfold Json.plus
    rw [hnumber]
    cases clock with
    | int n => exact ⟨_, rfl⟩
    | float x =>
      simp only
      rw [if_pos hdouble]
      exact ⟨_, rfl⟩

/-- What becomes of fetching a card when nothing goes wrong. -/
def Instance.found (m : Instance) (id : Json) : Except Fault Card :=
  match m.cards.get? id with
  | some payload => Card.ofPayload payload
  | none => .error (.metabase (.int 404) (.str "Not found.") .null)

/-- A call is made where none is laid down to fail. -/
theorem Courses.Usual.run_meet {m : Instance} (h : m.courses.Usual) (name : CallName) :
    (Instance.meet name).run m = (.ok (), { m with courses := (m.courses.next name).2 }) := by
  change ((match (m.courses.next name).1 with
    | .failed f => throw f
    | _ => pure ()) : Steps Instance Unit).run _ = _
  cases hcourse : (m.courses.next name).1 with
  | failed f => exact absurd hcourse ((h.next name).1 f)
  | _ => rfl

/-- Fetching a card from an instance on which nothing goes wrong finds it or not. -/
theorem Instance.Faultless.run_getCard {m : Instance} (h : m.Faultless) (id : Json) :
    ∃ courses, courses.Usual ∧ (getCard id).run m = (m.found id, { m with courses }) := by
  refine ⟨_, (h.courses.next (.get id.shown)).2, ?_⟩
  unfold getCard Instance.found
  rw [Steps.run_bind, h.courses.run_meet]
  simp only
  rw [Steps.run_get_bind]
  simp only
  cases m.cards.get? id with
  | some payload => rfl
  | none => rfl

end Metabase

namespace Session

open Steps (Keeps)

variable {s t u : Session} {id : Json} {terms : Terms} {path : Ids} {card : Card} {o : Outcome}

/-- A session some time later, in which nothing has been done and nothing goes wrong. -/
structure Later (s t : Session) : Prop where
  directory : t.directory = s.directory
  journal : t.journal = s.journal
  oracle : t.oracle = s.oracle
  cards : t.metabase.cards = s.metabase.cards
  faultless : t.metabase.Faultless

theorem Later.trans (h₁ : Later s t) (h₂ : Later t u) : Later s u where
  directory := h₂.directory.trans h₁.directory
  journal := h₂.journal.trans h₁.journal
  oracle := h₂.oracle.trans h₁.oracle
  cards := h₂.cards.trans h₁.cards
  faultless := h₂.faultless

/-- Fetching a card when nothing goes wrong takes time, and nothing else happens. -/
theorem run_fetch (h : s.metabase.Faultless) (id : Json) :
    ∃ t, (fetch id).run s = (s.metabase.found id, t) ∧ Later s t := by
  obtain ⟨clock, hclock⟩ := h.time s.clock
  obtain ⟨courses, hcourses, hget⟩ := h.run_getCard id
  refine ⟨{ s with clock, metabase := { s.metabase with courses } }, ?_,
    ⟨rfl, rfl, rfl, rfl, ⟨hcourses, h.time⟩⟩⟩
  have helapse : (elapse s.metabase.fetchTime).run s = (.ok (), { s with clock }) := by
    unfold elapse
    rw [Steps.run_get_bind, hclock, Steps.run_ofExcept_bind_ok]
    rfl
  unfold fetch
  rw [Steps.run_get_bind, Steps.run_bind, helapse]
  simp only
  rw [run_call, hget]

/-! ### The second request -/

/-- Cards that are all in the card map need not be transferred. -/
theorem run_transferProviders_of_has {deadline : Option Number} {transfer : Json → Action Outcome}
    {mapped : IdMap Json} {ids : Ids} (h : ∀ i ∈ ids, mapped.has i = true) (outcomes : List Outcome) :
    (transferProviders deadline transfer mapped ids outcomes).run s = (.ok (outcomes, none), s) := by
  induction ids with
  | nil => rfl
  | cons i ids ih =>
    rw [List.forall_mem_cons] at h
    unfold transferProviders
    rw [if_pos h.1]
    exact ih h.2

/-- **A card that refers to cards in the card map only is transferred right away.** -/
theorem run_transferVia_of_has {transfer : Json → Action Outcome} {cards : IdMap Json} {providers : Ids}
    (hid : id.asKey = .ok id) (hfresh : path.has id = false) (htime : s.hasPassed terms.deadline = false)
    (hfetch : (fetch id).run s = (.ok card, t)) (hkind : card.kind?.isSome = true)
    (hcards : Store.cardMap t.directory = .ok cards) (hfound : card.findReferences = .ok providers)
    (hhas : ∀ i ∈ providers, cards.has i = true) :
    (transferVia terms transfer path id).run s =
      (((transferReady terms id card).run t).1.map (Outcome.mk · []), ((transferReady terms id card).run t).2) := by
  unfold transferVia
  rw [hid, Steps.run_ofExcept_bind_ok, hfresh]
  simp only [Bool.false_eq_true, if_false]
  rw [Steps.run_get_bind, htime]
  simp only [Bool.false_eq_true, if_false]
  rw [Steps.run_outcome_bind, hfetch]
  have hnone : card.kind?.isNone = false := by
    rw [Option.isNone_eq_false_iff]
    exact hkind
  simp only [hnone, Bool.false_eq_true, if_false]
  unfold transferFetched
  rw [Steps.run_bind, run_readStore hcards]
  simp only
  rw [hfound, Steps.run_ofExcept_bind_ok, Steps.run_bind, run_transferProviders_of_has hhas]
  exact Steps.run_bind_pure _ _ _

/-- A card of the instance that is in the card map, as are all cards that it refers to. -/
structure Mapped (id : Json) (s : Session) where
  payload : Json
  card : Card
  cards : IdMap Json
  providers : Ids
  target : Json
  stored : s.metabase.cards.get? id = some payload
  read : Card.ofPayload payload = .ok card
  kind : card.kind?.isSome = true
  readCards : Store.cardMap s.directory = .ok cards
  found : card.findReferences = .ok providers
  has : ∀ i ∈ providers, cards.has i = true
  entry : cards.get? id = some target

/-- It is so as well in another session with the same cards and the same card map. -/
def Mapped.congr (d : Mapped id s) (hcards : t.metabase.cards = s.metabase.cards)
    (hobject : Store.cardObject t.directory = Store.cardObject s.directory) : Mapped id t :=
  { d with
    stored := by rw [hcards]; exact d.stored
    readCards := (Store.cardMap_congr hobject).trans d.readCards }

/-- **Such a card is reported and not transferred again.** -/
theorem run_transferVia_mapped {transfer : Json → Action Outcome} (d : Mapped id s)
    (hfaultless : s.metabase.Faultless) (hforce : terms.force = false) (hid : id.isCompound = false)
    (hfresh : path.has id = false) (htime : s.hasPassed terms.deadline = false)
    (hcounterpart : ∀ p, s.metabase.cards.get? d.target = some p → ∃ c, Card.ofPayload p = .ok c) :
    ∃ result t, (transferVia terms transfer path id).run s = (.ok (Transferred.outcome result []), t) ∧
      Later s t ∧ result.card = id ∧ result.success = .before ∧ result.newId = some d.target := by
  obtain ⟨t, hfetch, hlater⟩ := run_fetch hfaultless id
  have hkey : id.asKey = .ok id := Json.asKey_eq_ok.2 ⟨hid, rfl⟩
  have hread : Store.cardTarget? t.directory id = .ok (some d.target) := by
    unfold Store.cardTarget?
    rw [hlater.directory, d.readCards, ok_bind, hkey, ok_bind, d.entry]
    rfl
  obtain ⟨u, hfetch', hlater'⟩ := run_fetch hlater.faultless d.target
  -- the counterpart is found, or it is not there any more
  have hreport : ∃ result, (reportExisting terms.dryRun id d.card d.target).run t = (.ok result, u) ∧
      result.card = id ∧ result.success = .before ∧ result.newId = some d.target := by
    unfold reportExisting
    rw [Steps.run_outcome_bind, hfetch']
    unfold Metabase.Instance.found
    rw [hlater.cards]
    cases hget : s.metabase.cards.get? d.target with
    | none => exact ⟨_, rfl, rfl, rfl, rfl⟩
    | some p =>
      obtain ⟨c, hc⟩ := hcounterpart p hget
      simp only [hc]
      exact ⟨_, rfl, rfl, rfl, rfl⟩
  obtain ⟨result, hresult, habout⟩ := hreport
  refine ⟨result, u, ?_, hlater.trans hlater', habout⟩
  have hready : (transferReady terms id d.card).run t = (.ok (.transferred result), u) := by
    unfold transferReady
    rw [Steps.run_bind, run_readStore hread, hforce]
    simp only
    rw [Steps.run_bind, hresult]
    rfl
  have hcard : s.metabase.found id = .ok d.card := by
    unfold Metabase.Instance.found
    rw [d.stored]
    exact d.read
  have hmapped : Store.cardMap t.directory = .ok d.cards := by
    rw [hlater.directory, d.readCards]
  rw [hcard] at hfetch
  rw [run_transferVia_of_has hkey hfresh htime hfetch d.kind hmapped d.found d.has, hready]
  rfl

/-! ### Two requests in a row -/

/-- A live request for card `n` that ended well. Neither has the id been given to a new card meanwhile,
nor does the card take the place of itself. -/
structure Call.Succeeds (c : Call) (n : Int) (o : Outcome) : Prop where
  live : c.request.dryRun.truthy = false
  card : c.request.card = .int n
  answered : c.outcome = .ok o
  ok : o.ok = true
  unused : n < c.session.metabase.nextId ∨ c.after.metabase.nextId ≤ n
  apart : ∀ m target, Store.cardMap c.session.directory = .ok m → m.get? (.int n) = some target →
    target.sameId (.int n) = false

/-- What is stored for a request is read back as it was written: the card map, which names no card under
two spellings with different counterparts and can be read when the request ends, and the waiting area
with the failures that are reported. -/
structure Call.Lasts (c : Call) (o : Outcome) : Prop where
  plain : Store.PlainMap c.session.directory
  readable : ∃ m, Store.cardMap c.after.directory = .ok m
  rows : ∀ ws, WaitingArea.cards c.session.directory = .ok ws → ∀ w ∈ ws, w.toRow.Lasting
  failures : ∀ f, .failed f ∈ o.reports → (WaitingCard.ofFailure c.session.today f).toRow.Lasting

/-- A live request for card `n` without force, made in a session in which nothing goes wrong: the card is
not on the path, the deadline has not passed, no call to the instance fails, and the counterparts of cards
can be read. -/
structure Request.Smooth (r : Request) (n : Int) (s : Session) : Prop where
  live : r.dryRun.truthy = false
  card : r.card = .int n
  unforced : r.force = false
  terms : ∃ terms path, r.terms s = .ok (terms, path) ∧ path.has (.int n) = false ∧
    s.hasPassed terms.deadline = false
  faultless : s.metabase.Faultless
  counterparts : ∀ m target payload, Store.cardMap s.directory = .ok m →
    m.get? (.int n) = some target → s.metabase.cards.get? target = some payload →
      ∃ card, Card.ofPayload payload = .ok card

/-- A success is about the card that was asked for. -/
theorem card_of_readyRun {result : Transferred} (hlive : terms.dryRun.truthy = false)
    (h : ReadyRun terms id card s (.ok (.transferred result), t)) : result.card = id := by
  cases h with
  | unwritten idle failed => exact absurd (failed _ rfl) (by simp [Report.ok])
  | before unforced read idle newId about => exact about
  | dry dry idle =>
    rw [hlive] at dry
    cases dry
  | refused d tried answer attempted failed => exact absurd (failed _ rfl) (by simp [Report.ok])
  | written d tried answer attempted set settings correspondence attempts commits newId about =>
    exact about

/-- A card is left alone while the cards that it refers to are transferred, and by its own transfer
too if it does not take the place of itself. -/
theorem leaves_of_ready {n : Nat} (g : Fetched path id s) {x : Except Fault (List Outcome × Option Stop)}
    {y : Except Fault Report}
    (hproviders : g.transferProviders terms (transferCard n terms.forProviders (path.add id)) = (x, u))
    (hready : (transferReady terms id g.card).run u = (y, t))
    (hother : ∀ existing, Store.cardTarget? u.directory id = .ok existing →
      ∀ old, existing = some old → old.sameId id = false) : Leaves id s t := by
  have hprovider (i : Json) :
      Keeps (Leaves id) (transferCard n terms.forProviders (path.add id) i) :=
    leaves_transferCard rfl _ i
  have hbefore : Leaves id g.start u := by
    have h := keeps_transferProviders hprovider terms.deadline g.mapped g.providers [] g.start
    change (Session.transferProviders _ _ _ _ _).run _ = _ at hproviders
    rwa [hproviders] at h
  have hafter : Leaves id u t := by
    have hcommit (existing : Option Json) (hread : Store.cardTarget? u.directory id = .ok existing) :
        ∀ q, Keeps (Leaves id) (commit terms id g.card existing q) :=
      leaves_commit fun _ => hother existing hread
    have h := related_transferReady .of_calm hcommit
    rwa [hready] at h
  exact (Leaves.of_idle g.idle).trans (hbefore.trans hafter)

/-- **A card is in the card map with all that it refers to once its transfer has ended well**, and the
report names its entry. -/
theorem exists_mapped {levels : Nat} (hlive : terms.dryRun.truthy = false) (hint : id.isInt = true)
    (hrun : (transferCard levels terms path id).run s = (.ok o, t)) (hok : o.ok = true)
    (hplain : Store.PlainMap s.directory) (hmap : ∃ m, Store.cardMap t.directory = .ok m)
    (hunused : ∀ k, id.key = .whole k → k < s.metabase.nextId ∨ t.metabase.nextId ≤ k)
    (hapart : ∀ m target, Store.cardMap s.directory = .ok m → m.get? id = some target →
      target.sameId id = false) :
    ∃ (d : Mapped id t) (first : Transferred), o.report = .transferred first ∧ first.card = id ∧
      first.newId = some d.target := by
  have hlive' : terms.forProviders.dryRun.truthy = false := hlive
  obtain ⟨m, hm⟩ := hmap
  obtain ⟨-, -, hsuccess⟩ := telling_transferCard hlive hint hrun
  obtain ⟨first, target, hreport, hnew, hentry⟩ := hsuccess o m rfl hok hm hplain
  obtain ⟨n, g, u, hproviders, hready⟩ := exists_ready hrun hok
  have hend := readyRun terms id g.card u
  rw [hready] at hend
  -- the cards that it refers to
  obtain ⟨hgrown, hheld⟩ := grown_providers (fun _ _ _ _ => grown_transferCard hlive') g hproviders
  have hmore := (grown_ready hlive hend g.found (hheld _ rfl)).1
  have hhas : ∀ i ∈ g.providers, m.has i = true := fun i hi => (hheld _ rfl i hi).mono hmore m hm
  -- the card itself, which keeps its entry while they are transferred
  have htold : Telling (path.add id) s u :=
    telling_providers (fun _ _ _ _ hi hrun => (telling_transferCard hlive' hi hrun).1) g hproviders
  have hother (existing : Option Json) (hread : Store.cardTarget? u.directory id = .ok existing)
      (old : Json) (hold : existing = some old) : old.sameId id = false := by
    obtain ⟨mu, hmu, -⟩ := hmore.ids m hm
    obtain ⟨ms, hms, -⟩ := hgrown.ids mu hmu
    refine hapart ms old hms ?_
    rw [← htold.get?_eq hms hmu hplain, Store.get?_of_cardTarget? hread hmu, hold]
  have hleaves : Leaves id s t := leaves_of_ready g hproviders hready hother
  obtain ⟨payload, hpayload, hcard⟩ := exists_payload_of_fetch g.fetched
  rw [← hleaves.card hunused] at hpayload
  rw [hreport] at hend
  exact ⟨⟨payload, g.card, m, g.providers, target, hpayload, hcard, g.supported, hm, g.found, hhas, hentry⟩,
    first, hreport, card_of_readyRun hlive hend, hnew⟩

/-- The last report about the card that was asked for is the one of the outcome. -/
theorem lastReport?_reports (o : Outcome) :
    WaitingArea.lastReport? o.reports o.report.card = some o.report := by
  obtain ⟨report, providers⟩ := o
  unfold WaitingArea.lastReport? Outcome.reports
  rw [List.filter_append, List.filter_singleton, Outcome.report, Json.sameId_refl, cond_true,
    List.getLast?_append, List.getLast?_singleton]
  rfl

/-- **Asking again changes nothing.** After a live request that ended well, a second one without force
reports that the card has been transferred before and names the same counterpart. The journal, the
questions put to the oracle, the cards of the instance and all files of the store are as they were. -/
theorem transferred_again (c : Call) (n : Int) (o : Outcome) (r : Request) (hc : c.Succeeds n o)
    (hstore : c.Lasts o) (hr : r.Smooth n c.after) :
    ∃ first second, o.report = .transferred first ∧
      (Call.mk c.after r).outcome = .ok (second.outcome []) ∧
      (Report.transferred second).status = "already_migrated" ∧ second.newId = first.newId ∧
      (Call.mk c.after r).after.journal = c.after.journal ∧
      (Call.mk c.after r).after.oracle = c.after.oracle ∧
      (Call.mk c.after r).after.metabase.cards = c.after.metabase.cards ∧
      (Call.mk c.after r).after.directory = c.after.directory := by
  obtain ⟨terms, path, x, t, hterms, hrun, houtcome, hsteady, hafter, hupdate⟩ :=
    Call.exists_run hc.live hc.answered
  have hx : x = .ok o := by
    rw [houtcome]
    exact eq_ok_of_outcomeOf (by rw [← houtcome]; exact hc.ok)
  subst hx
  unfold Request.transferCard at hrun
  rw [hc.card] at hrun
  obtain ⟨deadline, hlive⟩ := Request.eq_of_terms hterms
  have hlive : terms.dryRun.truthy = false := by rw [hlive]; exact hc.live
  -- the waiting area is all that the last step of the first request changes
  have hobject : Store.cardObject c.after.directory = Store.cardObject t.directory :=
    cardObject_update hupdate
  have hmetabase : c.after.metabase = t.metabase := by rw [hafter]
  obtain ⟨d, first, hreport, habout, hnew⟩ := exists_mapped hlive rfl hrun hc.ok hstore.plain
    (by rw [← Store.cardMap_congr hobject]; exact hstore.readable)
    (by rintro k ⟨⟩; rw [← hmetabase]; exact hc.unused) hc.apart
  -- the second request
  obtain ⟨terms', path', hterms', hfresh, htime⟩ := hr.terms
  obtain ⟨deadline', hforce⟩ := Request.eq_of_terms hterms'
  have hforce : terms'.force = false := by rw [hforce]; exact hr.unforced
  obtain ⟨second, u, hrun', hlater, habout', hbefore, hnew'⟩ :=
    run_transferVia_mapped (d.congr (by rw [hmetabase]) hobject) hr.faultless hforce rfl hfresh htime
      fun p => hr.counterparts _ _ p ((Store.cardMap_congr hobject).trans d.readCards) d.entry
  have htransfer : r.transferCard c.after terms' path' = (.ok (second.outcome []), u) := by
    unfold Request.transferCard
    rw [hr.card]
    exact hrun'
  have hlast : WaitingArea.lastReport? o.reports second.card = some o.report := by
    have hsame : second.card = o.report.card := by rw [habout', hreport]; exact habout.symm
    rw [hsame]
    exact lastReport?_reports o
  have hagain : WaitingArea.update u.today (second.outcome []).reports u.directory =
      .ok u.directory := by
    rw [hlater.directory]
    refine WaitingArea.update_again hupdate (fun ws hws => hstore.rows ws ?_) hstore.failures
      (by rw [habout']; rfl) hlast hc.ok
    rw [← hws]
    exact (WaitingArea.cards_congr hsteady.waiting).symm
  have hall : (transfer r).run c.after = (.ok (second.outcome []), u) := by
    rw [run_transfer, hterms']
    simp only [htransfer, hr.live, Bool.false_eq_true, if_false]
    unfold outcomeOf
    rw [run_updateWaiting_of_ok hagain]
    rfl
  have hout : (Call.mk c.after r).outcome = .ok (second.outcome []) := congrArg Prod.fst hall
  have hafter' : (Call.mk c.after r).after = u := congrArg Prod.snd hall
  rw [hout, hafter']
  refine ⟨first, second, hreport, rfl, ?_, hnew'.trans hnew.symm, hlater.journal, hlater.oracle,
    hlater.cards, hlater.directory⟩
  unfold Report.status
  simp only [hbefore]

/-- What holds of the entry of a card by computation. -/
theorem forall_entry {d : Directory} {p : Json → Bool}
    (h : ((Store.cardMap d).toOption.all fun m => (m.get? id).all p) = true) :
    ∀ m target, Store.cardMap d = .ok m → m.get? id = some target → p target = true := by
  intro m target hm hget
  rw [hm] at h
  change (m.get? id).all p = true at h
  rwa [hget] at h

/-- What a session must be like for a request to run smoothly, by computation. -/
theorem smooth_of {n : Int} {r : Request} (hlive : r.dryRun.truthy = false) (hcard : r.card = .int n)
    (hforce : r.force = false)
    (hterms : ((r.terms s).toOption.any fun p =>
      !p.2.has (.int n) && !s.hasPassed p.1.deadline) = true)
    (hcourses : (s.metabase.courses.all fun c => c.2.all fun step => !step matches .failed _) = true)
    (htime : (s.metabase.fetchTime.int?.any fun k => (Decimal.ofInt? k).isSome) = true)
    (hcounterpart : ((Store.cardMap s.directory).toOption.all fun m => (m.get? (.int n)).all
      fun target => (s.metabase.cards.get? target).all fun p => (Card.ofPayload p).isOk) = true) :
    r.Smooth n s where
  live := hlive
  card := hcard
  unforced := hforce
  terms := by
    obtain ⟨⟨terms, path⟩, hread, hok⟩ := (Option.any_eq_true _ _).1 hterms
    rw [Bool.and_eq_true, Bool.not_eq_true', Bool.not_eq_true'] at hok
    exact ⟨terms, path, eq_ok_of_toOption hread, hok⟩
  faultless := Metabase.Instance.faultless_of hcourses htime
  counterparts m target payload hm hget hpayload := by
    have hall := forall_entry hcounterpart m target hm hget
    rw [hpayload] at hall
    exact exists_ok_of_isOk hall

/-- A card that refers to another one, transferred by force into an empty store. -/
def freshCall : Call := ⟨smallSession twoCards ⟨[]⟩, liveRequest 7 true⟩

/-- Its second request finds it as card 1002. -/
theorem transferred_again_freshCall : ∃ o, freshCall.Succeeds 7 o ∧ freshCall.Lasts o ∧
    (liveRequest 7 false).Smooth 7 freshCall.after ∧ ∃ first second, o.report = .transferred first ∧
      (Call.mk freshCall.after (liveRequest 7 false)).outcome = .ok (second.outcome []) ∧
      (Report.transferred second).status = "already_migrated" ∧ second.newId = first.newId ∧
      (Call.mk freshCall.after (liveRequest 7 false)).after.journal = freshCall.after.journal ∧
      (Call.mk freshCall.after (liveRequest 7 false)).after.oracle = freshCall.after.oracle ∧
      (Call.mk freshCall.after (liveRequest 7 false)).after.metabase.cards =
        freshCall.after.metabase.cards ∧
      (Call.mk freshCall.after (liveRequest 7 false)).after.directory = freshCall.after.directory := by
  have hdone : (freshCall.outcome.toOption.map fun o => o.ok && o.reports.all (·.ok)) = some true := by
    decide +kernel
  obtain ⟨o, ho, hok⟩ := exists_ok_of_toOption hdone
  rw [Bool.and_eq_true, List.all_eq_true] at hok
  have hempty : ((WaitingArea.cards freshCall.session.directory).toOption.all (·.isEmpty)) = true := by
    decide +kernel
  have hentry : ((Store.cardMap freshCall.session.directory).toOption.all fun m =>
      (m.get? (.int 7)).all fun target => !target.sameId (.int 7)) = true := by decide +kernel
  have hunused : 7 < freshCall.session.metabase.nextId ∨ freshCall.after.metabase.nextId ≤ 7 :=
    .inl (by decide +kernel)
  have hreadable : (Store.cardMap freshCall.after.directory).isOk = true := by decide +kernel
  have hrows (ws : List WaitingCard) (hws : WaitingArea.cards freshCall.session.directory = .ok ws) :
      ∀ w ∈ ws, w.toRow.Lasting := by
    rw [hws] at hempty
    rw [List.isEmpty_iff.1 hempty]
    exact List.forall_mem_nil _
  have hfailures (f : Failure) (hf : .failed f ∈ o.reports) :
      (WaitingCard.ofFailure freshCall.session.today f).toRow.Lasting := by
    cases hok.2 _ hf
  have hsucceeds : freshCall.Succeeds 7 o := ⟨rfl, rfl, ho, hok.1, hunused, fun m target hm hget => by
    rw [← Bool.not_eq_true']
    exact forall_entry hentry m target hm hget⟩
  have hlasts : freshCall.Lasts o :=
    ⟨⟨[], rfl, Store.plain_nil⟩, exists_ok_of_isOk hreadable, hrows, hfailures⟩
  have hsmooth : (liveRequest 7 false).Smooth 7 freshCall.after :=
    smooth_of rfl rfl rfl (by decide +kernel) (by decide +kernel) (by decide +kernel)
      (by decide +kernel)
  exact ⟨o, hsucceeds, hlasts, hsmooth, transferred_again _ _ _ _ hsucceeds hlasts hsmooth⟩

/-- A forced request for card 7. The stored card map has two entries for the card, one under a key that
ends with a blank. -/
def forcedTwice : Call :=
  ⟨smallSession [structuredCard 7 (.int 5)]
    ⟨[(Store.cardPath, "\x7b\"7 \": 71, \"7\": 70\x7d")]⟩, liveRequest 7 true⟩

/-- The value of the counterpart that a report names. -/
def counterpart? : Report → Option Key
  | .transferred result => result.newId.map Json.key
  | .failed _ => none

theorem exists_of_counterpart? {report : Report} {k : Key} (h : counterpart? report = some k) :
    ∃ result, report = .transferred result ∧ result.newId.map Json.key = some k := by
  cases report with
  | transferred result => exact ⟨result, rfl, h⟩
  | failed f => cases h

/-- **The card map must be plain.** The forced request writes card 70, which the last entry names, and
puts the entries in the order of their keys. Then the last one names card 71. -/
theorem forcedTwice_not_same : ∃ o o' first second, forcedTwice.Succeeds 7 o ∧
    (liveRequest 7 false).Smooth 7 forcedTwice.after ∧
    (Call.mk forcedTwice.after (liveRequest 7 false)).outcome = .ok o' ∧
    o.report = .transferred first ∧ o'.report = .transferred second ∧ second.newId ≠ first.newId := by
  have hdone : (forcedTwice.outcome.toOption.map fun o => (o.ok, counterpart? o.report)) =
      some (true, some (.whole 70)) := by decide +kernel
  have hagain : ((Call.mk forcedTwice.after (liveRequest 7 false)).outcome.toOption.map fun o =>
      counterpart? o.report) = some (some (.whole 71)) := by decide +kernel
  have hentry : ((Store.cardMap forcedTwice.session.directory).toOption.all fun m =>
      (m.get? (.int 7)).all fun target => !target.sameId (.int 7)) = true := by decide +kernel
  have hunused : 7 < forcedTwice.session.metabase.nextId ∨ forcedTwice.after.metabase.nextId ≤ 7 :=
    .inl (by decide +kernel)
  obtain ⟨o, ho, hok⟩ := exists_ok_of_toOption hdone
  obtain ⟨o', ho', hok'⟩ := exists_ok_of_toOption hagain
  rw [Prod.mk.injEq] at hok
  obtain ⟨first, hfirst, hnew⟩ := exists_of_counterpart? hok.2
  obtain ⟨second, hsecond, hnew'⟩ := exists_of_counterpart? hok'
  have hsucceeds : forcedTwice.Succeeds 7 o :=
    ⟨rfl, rfl, ho, hok.1, hunused, fun m target hm hget => by
      rw [← Bool.not_eq_true']
      exact forall_entry hentry m target hm hget⟩
  have hsmooth : (liveRequest 7 false).Smooth 7 forcedTwice.after :=
    smooth_of rfl rfl rfl (by decide +kernel) (by decide +kernel) (by decide +kernel)
      (by decide +kernel)
  refine ⟨o, o', first, second, hsucceeds, hsmooth, ho', hfirst, hsecond, fun hsame => ?_⟩
  rw [hsame, hnew] at hnew'
  cases hnew'

end Session
end CardTransfer
