import CardTransfer.Proofs.Transfer.BatchReach

/-!
# What a batch leaves behind

Each call of a live batch that ends well is about one card and reports nothing else. If it succeeds, the
card is in the card map, and otherwise it waits. So after the batch

- the card map has the cards that it had and those for which a call has succeeded (`Batch.has_cardMap_iff`),
- those wait for which a call has failed, and those that waited and were not called for
  (`Batch.lists_iff`), and the seeds of blocking have an order again (`Batch.exists_states`),
- the cards that are listed are those that were, for the new ones run on another database
  (`Batch.cards_again`).
-/

namespace CardTransfer
namespace Session

variable {s t : Session} {c : Call} {calls : List Call} {id : Json} {n : Int} {o : Outcome}

/-! ### One call -/

/-- A live call for a card with an integer id that is answered by a report about this card alone. -/
structure Call.Answered (c : Call) : Prop where
  live : c.request.dryRun.truthy = false
  integer : c.request.card.isInt = true
  cards : c.session.IntegerIds
  outcome : ∃ o, c.outcome = .ok o ∧ o.providers = [] ∧ o.report.card.key = c.request.card.key

theorem Call.succeeded_eq (ho : c.outcome = .ok o) : c.succeeded = o.ok := by
  unfold Call.succeeded
  rw [ho]
  rfl

/-- **Who waits after such a call**: the card if it has not been transferred, and otherwise those that
did before. -/
theorem Call.Answered.lists_iff (h : c.Answered) (hread : ∃ ws, WaitingArea.cards c.after.directory = .ok ws)
    (hid : id.key = .whole n) : WaitingArea.Lists c.after.directory id ↔
      if c.request.card.sameId id then c.succeeded = false else WaitingArea.Lists c.session.directory id := by
  obtain ⟨o, ho, hnone, hk⟩ := h.outcome
  rw [Call.lists_after_iff h.live ho hread hid, Call.succeeded_eq ho]
  obtain ⟨report, providers⟩ := o
  obtain rfl : providers = [] := hnone
  change report.card.key = _ at hk
  have hlast : WaitingArea.lastReport? (Outcome.mk report []).reports id =
      if report.card.sameId id then some report else none := by
    change List.getLast? (List.filter _ [report]) = _
    rw [List.filter_singleton]
    cases report.card.sameId id <;> rfl
  have hsame : report.card.sameId id = c.request.card.sameId id := by
    rw [Bool.eq_iff_iff, Json.sameId_iff, Json.sameId_iff, hk]
  rw [hlast, hsame]
  cases c.request.card.sameId id with
  | true => exact Iff.rfl
  | false => exact Iff.rfl

/-- The ids that wait after such a call have an order, and are numbers if those are that waited before. -/
theorem Call.Answered.ids_after (h : c.Answered) {ws' : List WaitingCard}
    (hws' : WaitingArea.cards c.after.directory = .ok ws') :
    WaitingArea.Sortable ws' ∧ ∃ ws, WaitingArea.cards c.session.directory = .ok ws ∧
      ((∀ w ∈ ws, w.card.number?.isSome = true) → ∀ w ∈ ws', w.card.number?.isSome = true) := by
  obtain ⟨o, ho, -⟩ := h.outcome
  have hints := Call.Orderly.isInt_of_mem ⟨h.live, h.integer, h.cards⟩ ho
  obtain ⟨d, hupdate, hcards⟩ := Call.exists_update h.live ho
  obtain ⟨hsort, ws, hws, hnumbers⟩ := WaitingArea.ids_update hupdate hws'
  exact ⟨hsort, ws, hcards.symm.trans hws,
    fun hbefore => hnumbers hbefore fun r hr => Json.isSome_number?_of_isInt (hints r hr)⟩

/-- **What such a call enters in the card map** is its card, if it succeeds. -/
theorem DirectRun.has_of_after (h : DirectRun c) (hc : c.Answered) {m m' : IdMap Json}
    (hm : Store.cardMap c.session.directory = .ok m) (hm' : Store.cardMap c.after.directory = .ok m')
    (hid : m'.has id = true) : m.has id = true ∨ c.succeeded = true ∧ c.request.card.key = id.key := by
  have hsame (hobject : Store.cardObject c.after.directory = Store.cardObject c.session.directory) :
      m.has id = true := by
    rw [Store.cardMap_congr hobject, hm] at hm'
    cases hm'
    exact hid
  cases h with
  | left idle => exact .inl (hsame idle.cardObject)
  | ready dryRun force fetched ran idle outcome =>
    rename_i terms card start u r
    have hstart := (calm_fetch c.request.card c.session).idle
    rw [fetched] at hstart
    have hready := readyRun terms c.request.card card start
    rw [ran] at hready
    cases hready with
    | unwritten idle' => exact .inl (hsame ((hstart.trans idle').trans idle).cardObject)
    | before unforced read idle' => exact .inl (hsame ((hstart.trans idle').trans idle).cardObject)
    | dry dry idle' => exact .inl (hsame ((hstart.trans idle').trans idle).cardObject)
    | refused d tried answer attempted =>
      exact .inl (hsame (idle.cardObject.trans (attempted.cardObject.trans hstart.cardObject)))
    | written d tried answer attempted set =>
      rw [Store.cardMap_congr idle.cardObject] at hm'
      rw [← Store.cardMap_congr (attempted.cardObject.trans hstart.cardObject)] at hm
      refine (Store.has_of_setCard set hm hm' hc.integer hid).imp_right fun hk => ⟨?_, hk.symm⟩
      obtain ⟨o, ho, -⟩ := hc.outcome
      rw [Call.succeeded_eq ho, outcome o ho]
      rfl

/-- The transfer of a query does not fail for a circle of references. -/
theorem kind_of_unlessUnresolved {dryRun : Bool} {card : Card} {query : Members} {warnings : List String}
    {cards : Ids} {f : Failure}
    (h : NewQuery.unlessUnresolved dryRun card query warnings cards = .ok (.error f)) :
    f.kind ≠ .circular := by
  unfold NewQuery.unlessUnresolved at h
  split at h
  · cases h
  · obtain ⟨f', hf', h⟩ := bind_eq_ok.1 h
    cases h
    obtain ⟨cards, -, h⟩ := bind_eq_ok.1 hf'
    cases h
    nofun

theorem kind_of_transferQuery {dryRun : Bool} {card : Card} {cards : IdMap Json} {f : Failure}
    (h : ((transferQuery dryRun cards card).run s).1 = .ok (.error f)) : f.kind ≠ .circular := by
  have h : (transferQuery dryRun cards card).run s = (.ok (.error f), _) := Prod.ext h rfl
  unfold transferQuery at h
  split at h
  · obtain ⟨t, u, -, h⟩ := Steps.run_bind_eq_ok.1 h
    have h : NewQuery.ofStructured dryRun card t = .ok (.error f) := congrArg Prod.fst h
    unfold NewQuery.ofStructured at h
    split at h
    · obtain ⟨names, -, h⟩ := bind_eq_ok.1 h
      cases h
      nofun
    split at h
    · obtain ⟨names, -, h⟩ := bind_eq_ok.1 h
      cases h
      nofun
    · exact kind_of_unlessUnresolved h
  · rw [Steps.run_outcome_bind] at h
    split at h
    · exact kind_of_unlessUnresolved (congrArg Prod.fst h)
    · split at h
      · cases h
        nofun
      · cases h

/-- Nor does such a call. -/
theorem DirectRun.kind_ne (h : DirectRun c) (hlive : c.request.dryRun.truthy = false)
    (ho : c.outcome = .ok o) {f : Failure} (hf : o.report = .failed f) : f.kind ≠ .circular := by
  cases h with
  | left idle failed =>
    obtain ⟨f', rfl, -, hkind⟩ := failed o ho
    cases hf
    exact hkind
  | ready dryRun force fetched ran idle outcome =>
    rename_i terms card start u r
    have hready := readyRun terms c.request.card card start
    rw [ran] at hready
    rw [outcome o ho] at hf
    cases r with
    | error fault =>
      cases hf
      nofun
    | ok report =>
      change report = _ at hf
      subst hf
      generalize hr : (Except.ok (.failed f) : Except Fault Report) = r at hready
      cases hready with
      | unwritten idle' failed why =>
        rcases why f hr.symm with htimeout | ⟨cards, -, hquery⟩
        · rw [htimeout]
          nofun
        · exact kind_of_transferQuery hquery
      | before => cases hr
      | dry dry =>
        rw [dryRun, hlive] at dry
        cases dry
      | refused d tried answer attempted failed why =>
        rw [why f hr.symm]
        nofun
      | written => cases hr

/-! ### Calls in turn -/

/-- Before calls that are answered, the waiting area can be read if it can be afterwards. -/
theorem Linked.exists_waiting (h : Linked s calls) (hcalls : ∀ c ∈ calls, c.Answered)
    (hread : ∃ ws, WaitingArea.cards (sessionAfter s calls).directory = .ok ws) :
    ∃ ws, WaitingArea.cards s.directory = .ok ws := by
  cases calls with
  | nil => exact hread
  | cons c calls =>
    obtain ⟨rfl, -⟩ := h
    have hc := hcalls c (List.mem_cons_self ..)
    obtain ⟨o, ho, -⟩ := hc.outcome
    exact Call.exists_waiting hc.live ho

/-- The ids that wait after some calls have an order, and are numbers if those are that waited before. -/
theorem Linked.ids_after (h : Linked s calls) (hcalls : ∀ c ∈ calls, c.Answered) {ws' : List WaitingCard}
    (hws' : WaitingArea.cards (sessionAfter s calls).directory = .ok ws') :
    (calls = [] ∨ WaitingArea.Sortable ws') ∧ ∃ ws, WaitingArea.cards s.directory = .ok ws ∧
      ((∀ w ∈ ws, w.card.number?.isSome = true) → ∀ w ∈ ws', w.card.number?.isSome = true) := by
  induction calls generalizing s with
  | nil => exact ⟨.inl rfl, ws', hws', id⟩
  | cons c calls ih =>
    obtain ⟨rfl, hlinked⟩ := h
    rw [List.forall_mem_cons] at hcalls
    obtain ⟨hrest, ws₁, hws₁, hnumbers₁⟩ := ih hlinked hcalls.2 hws'
    obtain ⟨hfirst, ws, hws, hnumbers⟩ := hcalls.1.ids_after hws₁
    refine ⟨.inr ?_, ws, hws, hnumbers₁ ∘ hnumbers⟩
    rcases hrest with rfl | hrest
    · obtain rfl := Except.ok.inj (hws₁.symm.trans hws')
      exact hfirst
    · exact hrest

/-- **Who waits after some calls**, no two of them for one card: those for which a call has failed, and
those that waited and were not called for. -/
theorem Linked.lists_iff (h : Linked s calls) (hcalls : ∀ c ∈ calls, c.Answered)
    (honce : (calls.map (·.request.card.key)).Nodup)
    (hread : ∃ ws, WaitingArea.cards (sessionAfter s calls).directory = .ok ws) (hid : id.key = .whole n) :
    WaitingArea.Lists (sessionAfter s calls).directory id ↔
      (∃ c ∈ calls, c.request.card.key = id.key ∧ c.succeeded = false) ∨
        (∀ c ∈ calls, c.request.card.key ≠ id.key) ∧ WaitingArea.Lists s.directory id := by
  induction calls generalizing s with
  | nil => simp [sessionAfter]
  | cons c calls ih =>
    obtain ⟨rfl, hlinked⟩ := h
    rw [List.forall_mem_cons] at hcalls
    rw [List.map_cons, List.nodup_cons] at honce
    refine (ih hlinked hcalls.2 honce.2 hread).trans ?_
    rw [hcalls.1.lists_iff (hlinked.exists_waiting hcalls.2 hread) hid]
    simp only [List.forall_mem_cons, List.exists_mem_cons_iff]
    cases hsame : c.request.card.sameId id with
    | true =>
      rw [Json.sameId_iff] at hsame
      -- no later call is for the same card
      have hnone : ∀ b ∈ calls, b.request.card.key ≠ id.key := fun b hb hk =>
        honce.1 (List.mem_map.2 ⟨b, hb, hk.trans hsame.symm⟩)
      have hfailed : ¬∃ b ∈ calls, b.request.card.key = id.key ∧ b.succeeded = false :=
        fun ⟨b, hb, hk, _⟩ => hnone b hb hk
      simpa [hsame, hfailed] using fun _ => hnone
    | false =>
      have hne : c.request.card.key ≠ id.key := by
        rw [Ne, ← Json.sameId_iff, hsame]
        exact Bool.false_ne_true
      simp [hne]

/-- **What some calls enter in the card map** are the cards of those that succeed. -/
theorem Linked.has_of_after (h : Linked s calls) (hcalls : ∀ c ∈ calls, DirectRun c ∧ c.Answered)
    {m m' : IdMap Json} (hm : Store.cardMap s.directory = .ok m)
    (hm' : Store.cardMap (sessionAfter s calls).directory = .ok m') (hid : m'.has id = true) :
    m.has id = true ∨ ∃ c ∈ calls, c.succeeded = true ∧ c.request.card.key = id.key := by
  induction calls generalizing s m with
  | nil =>
    rw [show sessionAfter s [] = s from rfl, hm] at hm'
    cases hm'
    exact .inl hid
  | cons c calls ih =>
    obtain ⟨rfl, hlinked⟩ := h
    rw [List.forall_mem_cons] at hcalls
    obtain ⟨m₁, hm₁, -⟩ := ((hlinked.related (R := Grown) fun b hb =>
      Call.grown (hcalls.2 b hb).2.live).2).ids m' hm'
    rcases ih hlinked hcalls.2 hm₁ hm' with hold | ⟨b, hb, hok⟩
    · rcases hcalls.1.1.has_of_after hcalls.1.2 hm hm₁ hold with hold | hok
      · exact .inl hold
      · exact .inr ⟨c, List.mem_cons_self .., hok⟩
    · exact .inr ⟨b, List.mem_cons_of_mem _ hb, hok⟩

namespace Batch

variable {dryRun limit : Json} {cards : List Card}

/-- The listed cards are those of the source database. -/
theorem source_of_mem (b : Batch s) {card : Card} (hc : card ∈ b.cards) :
    card.database.sameId (.int s.settings.sourceDatabase) = true := by
  obtain ⟨courses, -, hcards⟩ := run_listSourceCards s
  obtain ⟨all, -, hfrom⟩ := hcards b.cards (congrArg Prod.fst b.listed)
  rw [hfrom] at hc
  exact (List.mem_filter.1 hc).2

/-- A live batch leaves the settings alone. -/
theorem settings_eq (b : Batch s) (limit : Json) (hlive : dryRun.truthy = false) :
    (∀ c ∈ transferCalls dryRun limit s, c.session.settings = s.settings) ∧
      (sessionAfter b.start (transferCalls dryRun limit s)).settings = s.settings := by
  have hstart := (idle_of_listed b.listed).settings
  obtain ⟨hcalls, hlast⟩ := b.linked.related (R := Grown) fun c hc =>
    Call.grown (c := c) (by rw [b.request_eq hc]; exact hlive)
  exact ⟨fun c hc => (hcalls c hc).1.settings.trans hstart, hlast.settings.trans hstart⟩

/-- **The cards that a live batch creates** are on the target database and come behind all others. -/
theorem extended (b : Batch s) (hs : s.metabase.Ordinary) (hlive : dryRun.truthy = false)
    (hread : ∃ m, Store.cardMap (sessionAfter b.start (transferCalls dryRun limit s)).directory = .ok m) :
    Extended s.metabase.cards s.metabase.nextId s.settings.targetDatabase
      (sessionAfter b.start (transferCalls dryRun limit s)) := by
  have hstart : Extended s.metabase.cards s.metabase.nextId s.settings.targetDatabase s :=
    ⟨Int.le_refl _, [], (List.append_nil _).symm, List.forall_mem_nil _⟩
  refine (b.linked.related (R := Steps.Passes (Extended s.metabase.cards s.metabase.nextId
    s.settings.targetDatabase)) fun c hc => ?_).2 (Extended.of_idle (idle_of_listed b.listed) hstart)
  have hsettings := (b.settings_eq limit hlive).1 c hc
  rw [← hsettings]
  refine (b.directRun hs hlive hread hc).extended hs.fresh ?_ fun card start hfetch => ?_
  · rw [b.request_eq hc]
    rfl
  · rw [hsettings]
    exact b.source_of_mem (b.eq_of_fetch hs (b.listed_of_mem (b.mem_order hc)) (b.beyond hc) hfetch).1

/-- **After a live batch the same cards are listed**, if the target database is not the source. -/
theorem cards_again (b : Batch s) (hs : s.metabase.Ordinary) (hlive : dryRun.truthy = false)
    (hapart : s.settings.sourceDatabase ≠ s.settings.targetDatabase)
    (hread : ∃ m, Store.cardMap (sessionAfter b.start (transferCalls dryRun limit s)).directory = .ok m)
    (hlisted : (listSourceCards.run (sessionAfter b.start (transferCalls dryRun limit s))).1 = .ok cards) :
    cards = b.cards := by
  have hextended := b.extended hs hlive hread
  have hsettings := (b.settings_eq limit hlive).2
  generalize sessionAfter b.start (transferCalls dryRun limit s) = t at hextended hsettings hlisted
  obtain ⟨-, -, hbefore⟩ := run_listSourceCards s
  obtain ⟨all, hall, hfrom⟩ := hbefore b.cards (congrArg Prod.fst b.listed)
  obtain ⟨-, -, hafter⟩ := run_listSourceCards t
  obtain ⟨all', hall', rfl⟩ := hafter cards hlisted
  rw [hfrom]
  rw [← hsettings] at hextended
  exact hextended.fromSource_eq hsettings hapart hall hall'

/-- The calls of a live batch that are answered are so by reports about their cards alone. -/
theorem answered (b : Batch s) (hs : s.metabase.Ordinary) (hlive : dryRun.truthy = false)
    (hread : ∃ m, Store.cardMap (sessionAfter b.start (transferCalls dryRun limit s)).directory = .ok m)
    (hc : c ∈ transferCalls dryRun limit s) (ho : c.outcome = .ok o) : c.Answered where
  live := by rw [b.request_eq hc]; exact hlive
  integer := b.isInt_of_mem hs (b.mem_order hc)
  cards := b.integerIds hs hc
  outcome := ⟨o, ho, (b.alone hs hlive hread hc).outcome o ho⟩

/-- **The card map after a live batch** whose calls have all been answered. -/
theorem has_cardMap_iff (b : Batch s) (hs : s.metabase.Ordinary) (hlive : dryRun.truthy = false)
    (hcalls : ∀ c ∈ transferCalls dryRun limit s, ∃ o, c.outcome = .ok o) {m : IdMap Json}
    (hm : Store.cardMap (sessionAfter b.start (transferCalls dryRun limit s)).directory = .ok m) :
    m.has id = true ↔ (doneAfter b.mapped (transferCalls dryRun limit s)).has id = true := by
  constructor
  · intro hid
    rw [has_doneAfter, b.has_mapped]
    refine b.linked.has_of_after (fun c hc => ?_) b.read.readMap hm hid
    obtain ⟨o, ho⟩ := hcalls c hc
    exact ⟨b.directRun hs hlive ⟨m, hm⟩ hc, b.answered hs hlive ⟨m, hm⟩ hc ho⟩
  · exact b.has_of_done hs hlive (List.append_nil _).symm hm

/-- **The waiting area after a live batch** whose calls have all been answered. -/
theorem lists_iff (b : Batch s) (hs : s.metabase.Ordinary) (hlive : dryRun.truthy = false)
    (hcalls : ∀ c ∈ transferCalls dryRun limit s, ∃ o, c.outcome = .ok o)
    (hread : ∃ m, Store.cardMap (sessionAfter b.start (transferCalls dryRun limit s)).directory = .ok m)
    (hlast : ∃ ws, WaitingArea.cards (sessionAfter b.start (transferCalls dryRun limit s)).directory = .ok ws)
    (hid : id.key = .whole n) :
    WaitingArea.Lists (sessionAfter b.start (transferCalls dryRun limit s)).directory id ↔
      (∃ c ∈ transferCalls dryRun limit s, c.request.card.key = id.key ∧ c.succeeded = false) ∨
        (∀ c ∈ transferCalls dryRun limit s, c.request.card.key ≠ id.key) ∧ b.read.waiting.has id = true := by
  rw [b.read.has_waiting]
  refine b.linked.lists_iff (fun c hc => ?_) (b.nodup_calls dryRun limit) hlast hid
  obtain ⟨o, ho⟩ := hcalls c hc
  exact b.answered hs hlive hread hc ho

/-- **The states of the cards can be told again** after a live batch whose calls have all been answered, if
what they are read from can be read. -/
theorem exists_states (b : Batch s) (hs : s.metabase.Ordinary) (hlive : dryRun.truthy = false)
    (hcalls : ∀ c ∈ transferCalls dryRun limit s, ∃ o, c.outcome = .ok o)
    (ht : t.directory = (sessionAfter b.start (transferCalls dryRun limit s)).directory)
    (hhold : t.settings.holdNative = b.start.settings.holdNative)
    (hmap : ∃ m, Store.cardMap t.directory = .ok m) (hread : ∃ ws, WaitingArea.cards t.directory = .ok ws) :
    ∃ states, ((Session.states b.cards).run t).1 = .ok states := by
  obtain ⟨m, hm⟩ := hmap
  obtain ⟨ws', hws'⟩ := hread
  have hanswered (c : Call) (hc : c ∈ transferCalls dryRun limit s) : c.Answered := by
    obtain ⟨o, ho⟩ := hcalls c hc
    exact b.answered hs hlive ⟨m, ht ▸ hm⟩ hc ho
  obtain ⟨hsort, ws, hws, hnumbers⟩ := b.linked.ids_after hanswered (ht ▸ hws')
  obtain ⟨ws₀, hws₀, hkeys, -⟩ := b.read.exists_rows
  obtain rfl := Except.ok.inj (hws₀.symm.trans hws)
  rcases hsort with hnone | hsort
  · -- nothing has been called for
    rw [hnone] at ht
    change t.directory = b.start.directory at ht
    rw [ht] at hm hws'
    obtain rfl := Except.ok.inj (hws.symm.trans hws')
    refine run_states b.read.drawn (ht ▸ hm) (ht ▸ hws) hkeys ?_
    obtain rfl := Except.ok.inj (b.read.readMap.symm.trans hm)
    have hsorted := b.read.sortable hws
    unfold seedsOf at hsorted ⊢
    rwa [hhold]
  · refine run_states b.read.drawn hm hws' (fun w hw => ⟨_, Json.asKey_eq_ok.2 ⟨hsort.keys w hw, rfl⟩⟩)
      (b.read.sortable_seedsOf (b.isInt_of_card hs) hhold (fun id hid => ?_) hws hsort hnumbers)
    exact (b.has_cardMap_iff hs hlive hcalls (ht ▸ hm)).2 (has_doneAfter.2 (.inl (b.has_mapped.trans hid)))

end Batch

end Session
end CardTransfer

/-!
## A batch after a batch

A live batch without limit does all that can be done in one pass: a second one right after it, if the same
cards are listed, makes no call at all and answers the failures of the cards in circles again
(`batch_settles`).

Suppose that the second batch would attempt a card. It is neither in the card map nor in the waiting area,
so the first batch has not called for it (`Batch.lists_iff`), and it is not blocked, so it was not blocked
then either: what is blocked is not called for, so nothing that is blocked has been transferred
(`Again.blocked`). So the first batch might have attempted it, and when its turn came, a card that it
refers to was not done. That one has been transferred since, by a call for a card that comes later in the
order. But the order has it before.
-/

namespace CardTransfer
namespace Session

variable {s t : Session} {c : Call} {id : Json} {n : Int} {cards : List Card} {states : IdMap CardState}
  {dryRun dryRun' limit : Json}

namespace Batch

variable {b : Batch s} {b' : Batch t} {calls : List Call}

/-- A batch begins where another one has ended: with the same cards, and with those done and those waiting
that the calls of the first have left, as far as their ids are whole numbers. -/
structure Again (b : Batch s) (b' : Batch t) (calls : List Call) : Prop where
  cards : b'.cards = b.cards
  settings : b'.start.settings = b.start.settings
  mapped : ∀ id, b'.mapped.has id = true ↔ (doneAfter b.mapped calls).has id = true
  waiting : ∀ id n, id.key = .whole n → (b'.read.waiting.has id = true ↔
    (∃ c ∈ calls, c.request.card.key = id.key ∧ c.succeeded = false) ∨
      (∀ c ∈ calls, c.request.card.key ≠ id.key) ∧ b.read.waiting.has id = true)

theorem Again.graph (h : b.Again b' calls) : b'.graph = b.graph := by
  have hdrawn : Graph.ofCards b'.cards = .ok b'.graph := b'.read.drawn
  rw [h.cards, show Graph.ofCards b.cards = .ok b.graph from b.read.drawn] at hdrawn
  exact (Except.ok.inj hdrawn).symm

theorem Again.order (h : b.Again b' calls) : b'.order = b.order ∧ b'.failures = b.failures := by
  have hordered := b'.ordered
  rw [h.cards, b.ordered] at hordered
  obtain ⟨horder, hstuck⟩ := Prod.mk.inj (Except.ok.inj hordered)
  unfold failures
  rw [← hstuck, h.cards]
  exact ⟨horder.symm, rfl⟩

/-- A card for which a call has been made is done or waits. -/
theorem Again.called (h : b.Again b' calls) (hc : c ∈ calls) (hk : c.request.card.key = id.key)
    (hid : id.key = .whole n) :
    b'.mapped.has id = true ∨ (b'.read.waiting.without b'.mapped).has id = true := by
  cases hok : c.succeeded with
  | true => exact .inl ((h.mapped id).2 (has_doneAfter.2 (.inr ⟨c, hc, hok, hk⟩)))
  | false =>
    rw [Ids.has_without, (h.waiting id n hid).2 (.inl ⟨c, hc, hk, hok⟩)]
    cases b'.mapped.has id <;> simp

/-- What is done and for what no call has been made was done before. -/
theorem Again.has_mapped_of_not (h : b.Again b' calls) (hnot : ∀ c ∈ calls, c.request.card.key ≠ id.key) :
    b'.mapped.has id = b.mapped.has id := by
  rw [Bool.eq_iff_iff, h.mapped, has_doneAfter]
  exact ⟨fun hid => hid.resolve_right fun ⟨c, hc, _, hk⟩ => hnot c hc hk, .inl⟩

/-- No call is made for a blocked card. -/
theorem ne_of_blocked (hid : b.graph.Reaches b.read.seeds b.mapped id)
    (hc : c ∈ transferCalls dryRun limit s) : c.request.card.key ≠ id.key := by
  intro hk
  obtain ⟨_, _, -, -, hattempts⟩ := b.exists_turn hc
  have hfree := ((b.mayAttempt_iff _).1 hattempts.state).2.2.2
  rw [Ids.has_congr hk, Graph.blocked_iff.2 hid] at hfree
  cases hfree

/-- **What is blocked stays so**, of the cards with whole numbers as ids. -/
theorem Again.blocked (h : b.Again b' (transferCalls dryRun limit s)) (hid : id.key = .whole n)
    (hblocked : (b.graph.blocked b.read.seeds b.mapped).has id = true) :
    (b'.graph.blocked b'.read.seeds b'.mapped).has id = true := by
  rw [Graph.blocked_iff] at hblocked ⊢
  rw [h.graph]
  -- the seed that blocks it is the card itself, or one that another card refers to
  obtain ⟨a, ha, hfrom, hway⟩ := hblocked.exists_seed
  obtain ⟨k, hkey⟩ : ∃ k, a.key = .whole k := by
    rcases hway with hk | ⟨c, hc⟩
    · exact ⟨n, hk.trans hid⟩
    · exact Graph.exists_key_of_mem_consumers b.read.drawn hc
  have hreaches {d : Json} (hd : b.graph.Reaches [a] b.mapped d) : b.graph.Reaches b.read.seeds b.mapped d :=
    hd.mono (fun x hx _ => Ids.has_of_mem (List.mem_singleton.1 hx ▸ ha)) fun x hx => hx.has_done
  have hdone {d : Json} (hd : b.graph.Reaches [a] b.mapped d) : b'.mapped.has d = false := by
    rw [h.has_mapped_of_not fun c hc => ne_of_blocked (hreaches hd) hc]
    exact hd.has_done
  refine hfrom.mono (fun x hx hreached => ?_) fun d hd => hdone hd
  obtain rfl := List.mem_singleton.1 hx
  rcases b.read.has_seeds.1 (Ids.has_of_mem ha) with hfailed | ⟨hhold, c, hc, hnative, -, hk⟩
  · -- no call has been made for a card that waits
    refine b'.read.has_seeds.2 (.inl ?_)
    rw [Ids.has_without, Bool.and_eq_true] at hfailed ⊢
    exact ⟨(h.waiting x k hkey).2 (.inr ⟨fun c hc => ne_of_blocked (hreaches hreached) hc, hfailed.1⟩),
      by rw [show Ids.has (IdMap.ids b'.read.mapped) x = false from hdone hreached]; rfl⟩
  · refine b'.read.has_seeds.2 (.inr ⟨?_, c, ?_, hnative, ?_, hk⟩)
    · rw [h.settings]
      exact hhold
    · rw [h.cards]
      exact hc
    · rw [Ids.has_congr hk]
      exact hdone hreached

/-- **Whatever the second batch may attempt waits for another card.** -/
theorem Again.within_eq_false (h : b.Again b' (transferCalls dryRun .null s))
    (hcalls : ∀ c ∈ transferCalls dryRun .null s, c.answered = true) (hid : id ∈ b.order)
    (hkey : id.key = .whole n) (hmay : mayAttempt b'.states id = true) : Ids.within (b'.graph.providers id) b'.mapped = false := by
  rw [Bool.eq_false_iff]
  intro hwithin
  rw [h.graph, Ids.within_iff] at hwithin
  obtain ⟨hlisted, hmapped, hfailed, hblocked⟩ := (b'.mayAttempt_iff id).1 hmay
  have hnot : ∀ c ∈ transferCalls dryRun .null s, c.request.card.key ≠ id.key := by
    intro c hc hk
    rcases h.called hc hk hkey with hdone | hwaits
    · rw [hmapped] at hdone
      cases hdone
    · rw [hfailed] at hwaits
      cases hwaits
  -- so the first batch might have attempted it
  have hmay₀ : mayAttempt b.states id = true := by
    rw [h.has_mapped_of_not hnot] at hmapped
    refine (b.mayAttempt_iff id).2 ⟨h.graph ▸ hlisted, hmapped, ?_, ?_⟩
    · rw [Bool.eq_false_iff, Ne, Ids.has_without, Bool.and_eq_true]
      rintro ⟨hwaits, -⟩
      rw [Ids.has_without, (h.waiting id n hkey).2 (.inr ⟨hnot, hwaits⟩), h.has_mapped_of_not hnot, hmapped] at hfailed
      cases hfailed
    · rw [Bool.eq_false_iff]
      intro hblocked₀
      rw [h.blocked hkey hblocked₀] at hblocked
      cases hblocked
  obtain ⟨hordered, -, -⟩ := b.order_spec
  obtain ⟨first, rest, horder⟩ := List.append_of_mem hid
  have honce := hordered.once
  rw [horder] at honce
  have hall : transferCalls dryRun .null s =
      attemptCalls dryRun .null b.graph b.states (first ++ id :: rest) b.mapped 0 b.start := by
    rw [b.transferCalls_eq, horder]
  suffices hattempts : Attempts .null b.graph b.states b.mapped 0
      (attemptCalls dryRun .null b.graph b.states first b.mapped 0 b.start) id by
    obtain ⟨c, hc, hk⟩ := (exists_call_iff honce).2 hattempts
    exact hnot c (hall ▸ hc) hk
  refine ⟨fun c hc => hcalls c ?_, rfl, hmay₀, Ids.within_iff.2 fun p hp => ?_⟩
  · rw [hall, attemptCalls_append]
    exact List.mem_append_left _ hc
  -- what it refers to is done by the calls for earlier cards
  rcases has_doneAfter.1 ((h.mapped p).1 (hwithin p hp)) with hdone | ⟨c, hc, hok, hk⟩
  · exact has_doneAfter.2 (.inl hdone)
  have hlistedCard := b.listed_of_mem (b.mem_order hc)
  rw [hall, attemptCalls_append, List.mem_append] at hc
  rcases hc with hc | hc
  · exact has_doneAfter.2 (.inr ⟨c, hc, hok, hk⟩)
  split at hc
  · have hlater : c.request.card ∈ id :: rest :=
      cards_attemptCalls.subset (List.mem_map_of_mem hc)
    have hbefore := hordered.before first id rest horder p hp (Graph.listed_congr hk ▸ hlistedCard)
    rw [← Ids.has_congr hk, ← Ids.mem_keys] at hbefore
    rw [Ids.keys_append, List.nodup_append] at honce
    exact absurd rfl (honce.2.2 _ hbefore _ (List.mem_map_of_mem hlater))
  · cases hc

/-- The results of a live batch that tell of a circle of references are those of the cards that are left
out. -/
theorem filter_circular (b : Batch s) (hs : s.metabase.Ordinary) (hlive : dryRun.truthy = false)
    (hread : ∃ m, Store.cardMap (sessionAfter b.start (transferCalls dryRun limit s)).directory = .ok m)
    {answers : List Outcome} (hanswers : (transferCalls dryRun limit s).mapM Call.outcome = .ok answers) :
    (b.failures ++ answers).filter (fun o => o.report.failure?.any (·.kind == .circular)) = b.failures := by
  have hleft : ∀ o ∈ b.failures, o.report.failure?.any (·.kind == .circular) = true := by
    intro o ho
    obtain ⟨id, -, rfl⟩ := List.mem_map.1 ho
    obtain ⟨-, -, f, hf, hkind⟩ := stuckFailure_spec b.cards id
    rw [hf]
    exact beq_iff_eq.2 hkind
  have hcalled : ∀ o ∈ answers, ¬o.report.failure?.any (·.kind == .circular) = true := by
    intro o ho hcircular
    obtain ⟨c, hc, hoc⟩ := mem_of_mapM hanswers ho
    have hliveCall : c.request.dryRun.truthy = false := by
      rw [b.request_eq hc]
      exact hlive
    obtain ⟨f, hf, hkind⟩ := (Option.any_eq_true _ _).1 hcircular
    cases hreport : o.report with
    | transferred result =>
      rw [hreport] at hf
      cases hf
    | failed f' =>
      rw [hreport] at hf
      cases hf
      exact (b.directRun hs hlive hread hc).kind_ne hliveCall hoc hreport (beq_iff_eq.1 hkind)
  rw [List.filter_append, List.filter_eq_self.2 hleft, List.filter_eq_nil_iff.2 hcalled, List.append_nil]

/-- **The second batch**, if the waiting area and the card map can be read and the cards can be listed. -/
theorem exists_again (b : Batch s) (hs : s.metabase.Ordinary)
    (hapart : s.settings.sourceDatabase ≠ s.settings.targetDatabase)
    (hlive : dryRun.truthy = false)
    (hcalls : ∀ c ∈ transferCalls dryRun .null s, ∃ o, c.outcome = .ok o)
    (ht : t = sessionAfter b.start (transferCalls dryRun .null s))
    (hmap : ∃ m, Store.cardMap t.directory = .ok m) (hread : ∃ ws, WaitingArea.cards t.directory = .ok ws)
    (hlisted : (listSourceCards.run t).1 = .ok cards) :
    ∃ b' : Batch t, b.Again b' (transferCalls dryRun .null s) ∧ b'.start = (listSourceCards.run t).2 := by
  subst ht
  obtain rfl := b.cards_again hs hlive hapart hmap hlisted
  have hsettings := (b.settings_eq .null hlive).2
  have hlists {id : Json} {n : Int} (hid : id.key = .whole n) := b.lists_iff hs hlive hcalls hmap hread hid
  have hagain {u : Session} (hu : u.directory = _) (hhold : u.settings.holdNative = _) :=
    b.exists_states hs hlive hcalls hu hhold
  have hmapped {m : IdMap Json} (hm : Store.cardMap _ = .ok m) (id : Json) : m.has id = true ↔
      (doneAfter b.mapped (transferCalls dryRun .null s)).has id = true :=
    b.has_cardMap_iff hs hlive hcalls hm
  generalize htimes : sessionAfter b.start (transferCalls dryRun .null s) = t at *
  have hlisted : listSourceCards.run t = (.ok b.cards, (listSourceCards.run t).2) := Prod.ext hlisted rfl
  obtain ⟨courses, hstart⟩ := start_of_listed hlisted
  have hdirectory : (listSourceCards.run t).2.directory = t.directory := by rw [hstart]
  have hfirst := idle_of_listed b.listed
  have hstarted : (listSourceCards.run t).2.settings = b.start.settings := by
    rw [hstart, hfirst.settings]
    exact hsettings
  obtain ⟨states, hstates⟩ := hagain hdirectory (congrArg _ hstarted) (hdirectory ▸ hmap) (hdirectory ▸ hread)
  obtain ⟨b', hcards, hbegin, -⟩ := Batch.exists_of_states hlisted (b.isInt_of_card hs) hstates
  have hsame : b'.start.directory = t.directory := hbegin ▸ hdirectory
  refine ⟨b', ⟨hcards, hbegin ▸ hstarted, fun id => ?_, fun id n hid => ?_⟩, hbegin⟩
  · have hreadMap := b'.read.readMap
    rw [hsame] at hreadMap
    rw [b'.has_mapped]
    exact hmapped hreadMap id
  · rw [b'.read.has_waiting, hsame, hlists hid]

end Batch

/-- **One pass is enough.** Let a live batch without limit end well, in an ordinary instance and with a target
database that is not the source, so that the card map and the waiting area can be read and the cards can be
listed afterwards. Then another batch, with any limit, lists the cards and does nothing else. Its results are
the failures of the first one that tell of a circle of references. -/
theorem batch_settles (hs : s.metabase.Ordinary)
    (hapart : s.settings.sourceDatabase ≠ s.settings.targetDatabase)
    (hlive : dryRun.truthy = false) {outcomes : List Outcome}
    (hrun : (transferAll dryRun .null).run s = (.ok outcomes, t))
    (hmap : ∃ m, Store.cardMap t.directory = .ok m) (hread : ∃ ws, WaitingArea.cards t.directory = .ok ws)
    (hlisted : (listSourceCards.run t).1 = .ok cards) (hlimit : IsLimit limit) :
    transferCalls dryRun' limit t = [] ∧ (transferAll dryRun' limit).run t =
      (.ok (outcomes.filter fun o => o.report.failure?.any (·.kind == .circular)),
        (listSourceCards.run t).2) := by
  rcases batch_or_fault s with ⟨⟨b⟩⟩ | hfault
  · rw [b.run dryRun (.inl rfl)] at hrun
    obtain ⟨houtcomes, ht⟩ := Prod.mk.inj hrun
    obtain ⟨answers, hanswers, rfl⟩ := map_eq_ok.1 houtcomes
    have hcalls : ∀ c ∈ transferCalls dryRun .null s, ∃ o, c.outcome = .ok o := fun c hc => by
      obtain ⟨o, -, ho⟩ := exists_of_mapM hanswers hc
      exact ⟨o, ho⟩
    obtain ⟨b', hagain, hstart⟩ :=
      b.exists_again hs hapart hlive hcalls ht.symm hmap hread hlisted
    have hnone : transferCalls dryRun' limit t = [] := by
      rw [b'.transferCalls_eq, hagain.order.1]
      refine attemptCalls_eq_nil fun id hid hmay => ?_
      obtain ⟨n, hn⟩ := Json.exists_key_of_isInt (b.isInt_of_mem hs hid)
      refine hagain.within_eq_false (fun c hc => ?_) hid hn hmay
      obtain ⟨o, ho⟩ := hcalls c hc
      unfold Call.answered
      rw [ho]
      rfl
    refine ⟨hnone, ?_⟩
    rw [b'.run dryRun' hlimit, hnone, hstart, hagain.order.2,
      b.filter_circular hs hlive (ht ▸ hmap) hanswers]
    show (Except.ok (b.failures ++ []), _) = _
    rw [List.append_nil]
    rfl
  · obtain ⟨-, f, hnot⟩ := hfault dryRun .null
    rw [hnot] at hrun
    cases hrun

/-- Cards 7 and 8, which refer to each other, and cards 9 and 10, of which the second refers to the
first. -/
def circleAndChain : Session :=
  batchSession (circleCards ++ [structuredCard 10 (.str "card__9"), structuredCard 9 (.int 5)]) ⟨[]⟩

/-- The first batch transfers cards 9 and 10, and the second one reports the circle again. -/
theorem batch_settles_circleAndChain : ∃ outcomes t cards,
    circleAndChain.metabase.Ordinary ∧
      (transferAll (.bool false) .null).run circleAndChain = (.ok outcomes, t) ∧
        (listSourceCards.run t).1 = .ok cards ∧
          outcomes.map (·.report.card.key) = [.whole 7, .whole 8, .whole 9, .whole 10] ∧
            transferCalls (.bool false) .null t = [] ∧ (transferAll (.bool false) .null).run t =
              (.ok (outcomes.filter fun o => o.report.failure?.any (·.kind == .circular)),
                (listSourceCards.run t).2) := by
  have hs : circleAndChain.metabase.Ordinary := by decide +kernel
  have hcards : ((transferAll (.bool false) .null).run circleAndChain).1.toOption.map
      (·.map (·.report.card.key)) = some [.whole 7, .whole 8, .whole 9, .whole 10] := by decide +kernel
  have hmap : (Store.cardMap ((transferAll (.bool false) .null).run circleAndChain).2.directory).isOk =
      true := by decide +kernel
  have hread : (WaitingArea.cards ((transferAll (.bool false) .null).run circleAndChain).2.directory).isOk =
      true := by decide +kernel
  have hlisted : (listSourceCards.run ((transferAll (.bool false) .null).run circleAndChain).2).1.isOk =
      true := by decide +kernel
  generalize hrun : (transferAll (.bool false) .null).run circleAndChain = w at hcards hmap hread hlisted
  obtain ⟨r, t⟩ := w
  obtain ⟨outcomes, hok, hkeys⟩ := exists_ok_of_toOption hcards
  change r = .ok outcomes at hok
  subst hok
  obtain ⟨cards, hlisted⟩ := exists_ok_of_isOk hlisted
  have hapart : circleAndChain.settings.sourceDatabase ≠ circleAndChain.settings.targetDatabase := by decide
  exact ⟨outcomes, t, cards, hs, rfl, hlisted, hkeys,
    batch_settles hs hapart rfl hrun (exists_ok_of_isOk hmap) (exists_ok_of_isOk hread) hlisted
      (.inl rfl)⟩

end Session
end CardTransfer
