import CardTransfer.Proofs.Card.Reference
import CardTransfer.Proofs.Transfer.Stage

/-!
# What the reports of a transfer tell

The reports of a transfer are about integers if the ids of all cards are (`ensures_transferCard`). Each
card that is entered in the card map has a report that names it and its counterpart, unless a fault ends
the transfer (`reported_transferCard`): a report is then made of the fault alone, and what had been
reported is lost.
-/

namespace CardTransfer

open Steps (Keeps Passes Ensures ensures_pure ensures_throw ensures_ofExcept ensures_get keeps_pure)

/-! ### Cards with integer ids -/

/-- Members that are replaced under other keys leave a value as it is. -/
theorem Members.get?_foldl_insert {ms changes : Members} {key : String}
    (h : ∀ c ∈ changes, c.1 ≠ key) :
    (changes.foldl (fun ms c => ms.insert c.1 c.2) ms).get? key = ms.get? key := by
  induction changes generalizing ms with
  | nil => rfl
  | cons c changes ih =>
    rw [List.foldl_cons, ih fun c' hc' => h c' (List.mem_cons_of_mem _ hc'),
      get?_insert_of_ne _ _ (h c (List.mem_cons_self ..)).symm]

/-- A card has the id of its payload. -/
theorem Card.require_of_ofPayload {payload : Json} {card : Card} (h : ofPayload payload = .ok card) :
    payload.require "id" = .ok card.id := by
  obtain ⟨query, -, h⟩ := bind_eq_ok.1 h
  obtain ⟨id, hid, h⟩ := bind_eq_ok.1 h
  obtain ⟨members, -, h⟩ := bind_eq_ok.1 h
  obtain ⟨name, -, h⟩ := bind_eq_ok.1 h
  obtain ⟨description, -, h⟩ := bind_eq_ok.1 h
  obtain ⟨display, -, h⟩ := bind_eq_ok.1 h
  obtain ⟨settings, -, h⟩ := bind_eq_ok.1 h
  obtain ⟨collection, -, h⟩ := bind_eq_ok.1 h
  cases h
  exact hid

/-- The definition of a card names no id. -/
theorem Card.ne_id_of_definition {card : Card} {query suffix collection : Json} {definition : Members}
    (h : card.definition query suffix collection = .ok definition) : ∀ m ∈ definition, m.1 ≠ "id" := by
  obtain ⟨name, -, h⟩ := bind_eq_ok.1 h
  obtain ⟨settings, -, h⟩ := bind_eq_ok.1 h
  cases h
  simp

namespace Metabase.Instance

/-- The ids of all cards are integers. -/
def IntegerIds (m : Instance) : Prop :=
  ∀ p ∈ m.cards, ∀ id, p.2.require "id" = .ok id → id.isInt = true

instance {m : Instance} : Decidable m.IntegerIds :=
  decidable_of_iff ((m.cards.all fun p => (p.2.require "id").toOption.all (·.isInt)) = true) <| by
    unfold IntegerIds
    rw [List.all_eq_true]
    refine forall₂_congr fun p _ => ?_
    cases p.2.require "id" <;> simp [Except.toOption]

theorem IntegerIds.insert {m m' : Instance} {id payload : Json} (h : m.IntegerIds)
    (hcards : m'.cards = m.cards.insert id payload)
    (hpayload : ∀ id, payload.require "id" = .ok id → id.isInt = true) : m'.IntegerIds := by
  intro p hp
  rw [hcards] at hp
  rcases IdMap.mem_of_mem_insert hp with ⟨-, hp⟩ | hp
  · rw [hp]
    exact hpayload
  · exact h p hp

theorem ensures_meet (name : CallName) : Ensures IntegerIds (fun _ => True) (meet name) := by
  refine Keeps.ensures ((Session.sameCards_meet name).imp fun m m' hsame h => ?_)
  unfold IntegerIds
  rw [hsame.1]
  exact h

/-- A card that is fetched has an integer as its id. -/
theorem ensures_getCard (id : Json) :
    Ensures IntegerIds (fun card => card.id.isInt = true) (getCard id) := by
  refine (ensures_meet _).bind fun _ _ => ensures_get.bind fun m hm => ?_
  split
  · rename_i payload hget
    obtain ⟨p, hp, -, rfl⟩ := IdMap.exists_mem_of_get? hget
    exact ensures_ofExcept fun card hcard => hm p hp _ (Card.require_of_ofPayload hcard)
  · exact ensures_throw _

theorem ensures_createCard (definition : Members) :
    Ensures IntegerIds (fun _ => True) (createCard definition) := by
  refine (ensures_meet _).bind fun _ _ => ensures_get.bind fun m hm => ?_
  refine fun _ _ => ⟨hm.insert rfl fun id hid => ?_, fun _ _ => trivial⟩
  unfold payloadOf Json.require at hid
  simp only [Members.get?_insert_self] at hid
  cases hid
  rfl

/-- A card keeps its id when other members of it are replaced. -/
theorem require_merged {payload : Json} {changes : Members} (h : ∀ c ∈ changes, c.1 ≠ "id") :
    (merged payload changes).require "id" = payload.require "id" := by
  cases payload with
  | obj ms =>
    unfold merged Json.require
    simp only [Members.get?_foldl_insert h]
  | _ => rfl

theorem ensures_updateCard (id : Json) {changes : Members} (h : ∀ c ∈ changes, c.1 ≠ "id") :
    Ensures IntegerIds (fun _ => True) (updateCard id changes) := by
  refine (ensures_meet _).bind fun _ _ => ensures_get.bind fun m hm => ?_
  split
  · rename_i payload hget
    obtain ⟨p, hp, -, rfl⟩ := IdMap.exists_mem_of_get? hget
    refine fun _ _ => ⟨hm.insert rfl fun id hid => ?_, fun _ _ => trivial⟩
    rw [require_merged h] at hid
    exact hm p hp id hid
  · exact ensures_pure trivial

end Metabase.Instance

namespace Session

variable {α : Type} {terms : Terms} {id : Json} {card : Card} {path : Ids} {s t u : Session}

/-- The ids of all cards are integers. -/
def IntegerIds (s : Session) : Prop := s.metabase.IntegerIds

instance : Decidable s.IntegerIds := inferInstanceAs (Decidable s.metabase.IntegerIds)

theorem ensures_call {Q : α → Prop} {steps : Steps Metabase.Instance α}
    (h : Ensures Metabase.Instance.IntegerIds Q steps) : Ensures IntegerIds Q (call steps) :=
  fun s hs => h s.metabase hs

theorem passes_of_calm (s t : Session) (h : Calm s t) : Passes IntegerIds s t := by
  intro hs
  unfold IntegerIds Metabase.Instance.IntegerIds
  rw [h.cards]
  exact hs

theorem ensures_of_calm {steps : Action α} (h : Keeps Calm steps) :
    Ensures IntegerIds (fun _ => True) steps :=
  (h.imp passes_of_calm).ensures

theorem ensures_fetch (id : Json) :
    Ensures IntegerIds (fun card => card.id.isInt = true) (fetch id) :=
  ensures_get.bind fun _ _ => (ensures_of_calm ((still_elapse _).imp Still.calm)).bind fun _ _ =>
    ensures_call (Metabase.Instance.ensures_getCard id)

theorem ensures_putCard (card : Card) (replaced : Option Json) {definition : Members}
    (h : ∀ m ∈ definition, m.1 ≠ "id") :
    Ensures IntegerIds (fun _ => True) (putCard card replaced definition) := by
  cases replaced with
  | some target =>
    have hreplace : Ensures IntegerIds (fun _ => True) (replace card target definition) :=
      (ensures_call (Metabase.Instance.ensures_updateCard target h)).bind fun _ _ =>
        ensures_of_calm (calm_note _)
    exact hreplace.bind fun _ _ => ensures_pure trivial
  | none =>
    exact (ensures_call (Metabase.Instance.ensures_createCard definition)).bind fun _ _ =>
      (ensures_of_calm (calm_note _)).bind fun _ _ => ensures_pure trivial

theorem keeps_repairCard (target query : Json) :
    Keeps (Passes IntegerIds) (repairCard target query) := by
  have hkeys : ∀ m ∈ ([("dataset_query", query)] : Members), m.1 ≠ "id" := by simp
  have hupdate := ensures_call (Metabase.Instance.ensures_updateCard target hkeys)
  have hrepair : Ensures IntegerIds (fun _ => True) (repairCard target query) :=
    hupdate.bind fun _ _ => ensures_of_calm (calm_note _)
  exact hrepair.keeps

/-! ### What reports are about -/

/-- The failures of a query are about its card. -/
theorem card_of_unlessUnresolved {dryRun : Bool} {query : Members} {warnings : List String} {cards : Ids}
    {f : Failure} (h : NewQuery.unlessUnresolved dryRun card query warnings cards = .ok (.error f)) :
    f.card = card.id := by
  unfold NewQuery.unlessUnresolved at h
  split at h
  · cases h
  · obtain ⟨f', hf', h⟩ := bind_eq_ok.1 h
    cases h
    obtain ⟨cards, -, h⟩ := bind_eq_ok.1 hf'
    cases h
    rfl

theorem card_of_ofStructured {dryRun : Bool} {t : StructuredTransfer} {f : Failure}
    (h : NewQuery.ofStructured dryRun card t = .ok (.error f)) : f.card = card.id := by
  unfold NewQuery.ofStructured at h
  split at h
  · obtain ⟨names, -, h⟩ := bind_eq_ok.1 h
    cases h
    rfl
  split at h
  · obtain ⟨names, -, h⟩ := bind_eq_ok.1 h
    cases h
    rfl
  · exact card_of_unlessUnresolved h

variable {P : Json → Prop}

theorem ensures_transferQuery (dryRun : Bool) (cards : IdMap Json) (hcard : P card.id) :
    Ensures IntegerIds (fun r => ∀ f, r = .error f → P f.card)
      (transferQuery dryRun cards card) := by
  unfold transferQuery
  split
  · refine (ensures_of_calm ((still_transferStructured _ _).imp Still.calm)).bind fun t _ => ensures_ofExcept ?_
    rintro _ h f rfl
    rw [card_of_ofStructured h]
    exact hcard
  · refine (ensures_of_calm ((still_transferNative _ _).imp Still.calm)).outcome.bind fun r _ => ?_
    cases r with
    | ok t =>
      refine ensures_ofExcept ?_
      rintro _ h f rfl
      rw [card_of_unlessUnresolved h]
      exact hcard
    | error f =>
      simp only
      split
      · refine ensures_pure ?_
        rintro _ ⟨⟩
        exact hcard
      · exact ensures_throw _

theorem ensures_reportExisting (dryRun : Json) (hid : P id) (card : Card) (target : Json) :
    Ensures IntegerIds (fun t => P t.card) (reportExisting dryRun id card target) := by
  refine (ensures_fetch target).outcome.bind fun r _ => ?_
  have hreport (result : Option Members) : Ensures IntegerIds (fun t => P t.card)
      (do return { card := id, name := card.name, success := .before, source := card.query, result
                   newId := some target, url := some ((← get).cardUrl target), dryRun
                   verified := true, warnings := [] } : Action Transferred) :=
    ensures_get.bind fun _ _ => ensures_pure hid
  cases r with
  | ok counterpart => exact hreport _
  | error f =>
    simp only
    split
    · exact hreport _
    · exact ensures_throw _

theorem ensures_settle (hid : P id) (card : Card) (target : Json) (q : NewQuery) :
    Ensures IntegerIds (fun t => P t.card) (settle id card target q) := by
  have hverify := (keeps_verify passes_of_calm (keeps_repairCard target) card q.query q.warnings).ensures
  have henter : Keeps (Passes IntegerIds) (enterCard id target) :=
    (keeps_writeStore fun _ _ _ h => h).bind fun _ => Steps.keeps_modify fun _ h => h
  exact hverify.bind fun _ _ => henter.ensures.bind fun _ _ => ensures_get.bind fun _ _ =>
    ensures_pure hid

theorem ensures_commit (hid : P id) (card : Card) (existing : Option Json) (q : NewQuery) :
    Ensures IntegerIds (fun r => P r.card) (commit terms id card existing q) := by
  refine ensures_get.bind fun s _ => ?_
  split
  · exact ensures_pure hid
  refine ensures_get.bind fun s _ => ?_
  refine (ensures_ofExcept (Q := fun definition => ∀ m ∈ definition, m.1 ≠ "id")
    fun _ => Card.ne_id_of_definition).bind fun definition hdefinition => ?_
  have hnote (answer : Except Fault Json) : Keeps (Passes IntegerIds)
      (noteAttempt id card (if terms.force then existing else none) definition answer) :=
    Steps.keeps_modify fun _ h => h
  have hwrite : Ensures IntegerIds (fun _ => True) (writeCard terms id card existing definition) :=
    (ensures_putCard card _ hdefinition).outcome.bind fun answer _ =>
      (hnote answer).ensures.bind fun _ _ => ensures_ofExcept fun _ _ => trivial
  refine hwrite.outcome.bind fun r _ => ?_
  cases r with
  | error f =>
    simp only
    split
    · exact ensures_pure hid
    · exact ensures_throw _
  | ok target => exact (ensures_settle hid card target q).bind fun _ ht => ensures_pure ht

/-- Stages 3 to 6 report about the card that was asked for, or about the id of the card that was fetched. -/
theorem ensures_transferReady (hid : P id) (hcard : P card.id) :
    Ensures IntegerIds (fun r => P r.card) (transferReady terms id card) := by
  refine (ensures_of_calm (calm_readStore _)).bind fun existing _ => ?_
  split
  · exact (ensures_reportExisting _ hid _ _).bind fun _ ht => ensures_pure ht
  refine ensures_get.bind fun s _ => ?_
  split
  · exact ensures_pure hid
  refine (ensures_of_calm (calm_readStore _)).bind fun cards _ => ?_
  refine (ensures_transferQuery _ cards hcard).bind fun r hr => ?_
  cases r with
  | error f => exact ensures_pure (hr f rfl)
  | ok q =>
    simp only
    split
    · exact ensures_pure hid
    · exact ensures_commit hid _ _ _

/-! ### Outcomes about integers -/

/-- The reports of an outcome are about integers, and if the card was transferred, then so were all
others on the way. -/
structure Sound (o : Outcome) : Prop where
  integer : ∀ r ∈ o.reports, r.card.isInt = true
  ok : o.ok = true → ∀ r ∈ o.reports, r.ok = true

/-- The reports of an outcome are its own and those of its providers. -/
theorem mem_reports_mk {r r' : Report} {os : List Outcome} :
    r' ∈ (Outcome.mk r os).reports ↔ (∃ o ∈ os, r' ∈ o.reports) ∨ r' = r := by
  rw [Outcome.reports, Outcome.listReports_eq, List.mem_append, List.mem_flatMap, List.mem_singleton]

theorem Sound.failure {f : Failure} {os : List Outcome} (hf : f.card.isInt = true)
    (hos : ∀ o ∈ os, Sound o) : Sound (f.outcome os) := by
  refine ⟨fun r hr => ?_, fun hok => nomatch hok⟩
  rcases mem_reports_mk.1 hr with ⟨o, ho, hr⟩ | rfl
  · exact (hos o ho).integer r hr
  · exact hf

theorem Sound.ready {r : Report} {os : List Outcome} (hr : r.card.isInt = true)
    (hos : ∀ o ∈ os, Sound o) (hok : ∀ o ∈ os, o.ok = true) : Sound (.mk r os) := by
  constructor
  · intro r' hr'
    rcases mem_reports_mk.1 hr' with ⟨o, ho, hr'⟩ | rfl
    · exact (hos o ho).integer r' hr'
    · exact hr
  · intro h r' hr'
    rcases mem_reports_mk.1 hr' with ⟨o, ho, hr'⟩ | rfl
    · exact (hos o ho).ok (hok o ho) r' hr'
    · exact h

/-- The outcomes for the cards that a card refers to are sound, and all of them are successes unless the
transfer stops. -/
theorem ensures_transferProviders {deadline : Option Number} {transfer : Json → Action Outcome}
    {mapped : IdMap Json} {ids : Ids}
    (htransfer : ∀ id ∈ ids, Ensures IntegerIds Sound (transfer id)) {outcomes : List Outcome}
    (hsound : ∀ o ∈ outcomes, Sound o) (hok : ∀ o ∈ outcomes, o.ok = true) :
    Ensures IntegerIds (fun p => (∀ o ∈ p.1, Sound o) ∧ (p.2 = none → ∀ o ∈ p.1, o.ok = true))
      (transferProviders deadline transfer mapped ids outcomes) := by
  induction ids generalizing outcomes with
  | nil => exact ensures_pure ⟨hsound, fun _ => hok⟩
  | cons id ids ih =>
    have htail := fun i hi => htransfer i (List.mem_cons_of_mem _ hi)
    unfold transferProviders
    split
    · exact ih htail hsound hok
    refine ensures_get.bind fun s _ => ?_
    split
    · exact ensures_pure ⟨hsound, fun h => absurd h (Option.some_ne_none _)⟩
    refine (htransfer id (List.mem_cons_self ..)).bind fun o ho => ?_
    have hsound' : ∀ o' ∈ outcomes ++ [o], Sound o' :=
      List.forall_mem_append.2 ⟨hsound, List.forall_mem_singleton.2 ho⟩
    split
    · rename_i h
      exact ih htail hsound' (List.forall_mem_append.2 ⟨hok, List.forall_mem_singleton.2 h⟩)
    · exact ensures_pure ⟨hsound', fun h => absurd h (Option.some_ne_none _)⟩

theorem card_stopFailure (id : Json) (card : Card) (stop : Stop) :
    (stopFailure id card stop).card = id := by
  cases stop with
  | deadline => rfl
  | provider provider o =>
    unfold stopFailure
    simp only
    split
    · rfl
    · rfl

/-- **The outcome of a transfer is sound**, over any number of levels, if the card and all cards of the
instance have integer ids. -/
theorem ensures_transferCard (levels : Nat) (hid : id.isInt = true) :
    Ensures IntegerIds Sound (transferCard levels terms path id) := by
  induction levels generalizing terms path id with
  | zero => exact ensures_throw _
  | succ levels ih =>
    unfold transferCard transferVia transferFetched
    refine (ensures_ofExcept (Q := fun key => key.isInt = true) fun key hkey => ?_).bind fun id hid => ?_
    · rw [Json.eq_of_asKey hkey]
      exact hid
    have hleft (kind : FailureKind) (message : String) :
        Sound ((Failure.unfetched id kind message).outcome []) := .failure hid fun _ h => nomatch h
    split
    · exact (ensures_ofExcept (Q := fun _ => True) fun _ _ => trivial).bind fun _ _ =>
        ensures_pure (hleft _ _)
    refine ensures_get.bind fun s _ => ?_
    split
    · exact ensures_pure (hleft _ _)
    refine (ensures_fetch id).outcome.bind fun r hr => ?_
    cases r with
    | error f =>
      simp only
      split
      · exact ensures_pure (hleft _ _)
      · exact ensures_throw _
    | ok card =>
      simp only
      split
      · exact ensures_pure (.failure hid fun _ h => nomatch h)
      refine (ensures_of_calm (calm_readStore _)).bind fun mapped _ => ?_
      refine (ensures_ofExcept (Q := fun providers => ∀ i ∈ providers, i.isInt = true)
        fun _ hfound _ => Card.isInt_of_mem_findReferences hfound).bind fun providers hproviders => ?_
      refine (ensures_transferProviders (fun i hi => ih (hproviders i hi)) (List.forall_mem_nil _)
        (List.forall_mem_nil _)).bind fun p hp => ?_
      obtain ⟨outcomes, stop⟩ := p
      cases stop with
      | some stop =>
        refine ensures_pure (.failure ?_ hp.1)
        rw [card_stopFailure]
        exact hid
      | none =>
        exact (ensures_transferReady (P := fun a => a.isInt = true) hid (hr card rfl)).bind fun _ hreport =>
          ensures_pure (.ready hreport hp.1 (hp.2 rfl))

/-! ### Commits and their reports -/

/-- Reports cover commits if each of them is told of by a success. -/
def Covers (reports : List Report) (commits : List (Json × Json)) : Prop := ∀ c ∈ commits,
  ∃ result, .transferred result ∈ reports ∧ result.card = c.1 ∧ result.newId = some c.2

theorem Covers.mono {reports reports' : List Report} {commits : List (Json × Json)}
    (h : Covers reports commits) (hsub : reports ⊆ reports') : Covers reports' commits := by
  intro c hc
  obtain ⟨result, hresult, htold⟩ := h c hc
  exact ⟨result, hsub hresult, htold⟩

/-- The commits on the way from one session to another are for integers, and for no card on the path, and if
the steps between them end with reports, then these cover the commits. -/
def Reported (path : Ids) (s t : Session) (reports : Except Fault (List Report)) : Prop :=
  ∃ commits, t.journal.commits = s.journal.commits ++ commits ∧
    (∀ c ∈ commits, c.1.isInt = true ∧ path.has c.1 = false) ∧ ∀ rs, reports = .ok rs → Covers rs commits

theorem Reported.of_quiet {reports : Except Fault (List Report)} (h : Quiet s t) :
    Reported path s t reports :=
  ⟨[], by rw [h.commits, List.append_nil], List.forall_mem_nil _, fun _ _ => List.forall_mem_nil _⟩

/-- Reports of more cover what is reported of both parts. -/
theorem Reported.trans {r₁ r₂ r : Except Fault (List Report)} (h₁ : Reported path s t r₁)
    (h₂ : Reported path t u r₂)
    (hsub : ∀ rs, r = .ok rs → ∃ rs₁ rs₂, r₁ = .ok rs₁ ∧ r₂ = .ok rs₂ ∧ rs₁ ⊆ rs ∧ rs₂ ⊆ rs) :
    Reported path s u r := by
  obtain ⟨cs₁, hcs₁, hpath₁, hcover₁⟩ := h₁
  obtain ⟨cs₂, hcs₂, hpath₂, hcover₂⟩ := h₂
  refine ⟨cs₁ ++ cs₂, by rw [hcs₂, hcs₁, List.append_assoc],
    List.forall_mem_append.2 ⟨hpath₁, hpath₂⟩, fun rs hrs => List.forall_mem_append.2 ?_⟩
  obtain ⟨rs₁, rs₂, hr₁, hr₂, hsub₁, hsub₂⟩ := hsub rs hrs
  exact ⟨(hcover₁ rs₁ hr₁).mono hsub₁, (hcover₂ rs₂ hr₂).mono hsub₂⟩

/-- A path without one of its cards tells less. -/
theorem Reported.of_add {r : Except Fault (List Report)} (h : Reported (path.add id) s t r) :
    Reported path s t r := by
  obtain ⟨cs, hcs, hpath, hcover⟩ := h
  exact ⟨cs, hcs, fun c hc => (hpath c hc).imp_right fun h => (Ids.has_add_eq_false_iff.1 h).1, hcover⟩

/-- Stages 3 to 6 make one commit, which is the last thing that they do, or none. -/
theorem commits_ready {r : Except Fault Report} (h : ReadyRun terms id card s (r, t)) :
    t.journal.commits = s.journal.commits ∨ ∃ result target, r = .ok (.transferred result) ∧
      t.journal.commits = s.journal.commits ++ [(id, target)] ∧ result.card = id ∧
      result.newId = some target := by
  cases h with
  | unwritten idle failed => exact .inl idle.commits
  | before unforced read idle newId => exact .inl idle.commits
  | dry dry idle => exact .inl idle.commits
  | refused d tried answer attempted failed => exact .inl attempted.commits
  | written d tried answer attempted set settings correspondence attempts commits newId about =>
    rw [attempted.commits] at commits
    exact .inr ⟨_, _, rfl, commits, about, newId⟩

theorem reported_ready {r : Except Fault Report} (hid : id.isInt = true) (hfresh : path.has id = false)
    (h : ReadyRun terms id card s (r, t)) : Reported path s t (r.map fun report => [report]) := by
  rcases commits_ready h with hcommits | ⟨result, target, rfl, hcommits, habout, hnew⟩
  · exact ⟨[], by rw [hcommits, List.append_nil], List.forall_mem_nil _, fun _ _ => List.forall_mem_nil _⟩
  · refine ⟨_, hcommits, List.forall_mem_singleton.2 ⟨hid, hfresh⟩, ?_⟩
    rintro _ ⟨⟩
    exact List.forall_mem_singleton.2 ⟨result, List.mem_singleton_self _, habout, hnew⟩

/-- The outcomes for the cards that a card refers to cover the commits for them, and the outcomes at
hand stay. -/
theorem reported_transferProviders {deadline : Option Number} {transfer : Json → Action Outcome}
    {mapped : IdMap Json} {ids : Ids}
    (htransfer : ∀ id ∈ ids, ∀ s o t, (transfer id).run s = (o, t) →
      Reported path s t (o.map Outcome.reports))
    {outcomes : List Outcome} {p : Except Fault (List Outcome × Option Stop)}
    (hrun : (transferProviders deadline transfer mapped ids outcomes).run s = (p, t)) :
    Reported path s t (p.map fun p => Outcome.listReports p.1) ∧ ∀ q, p = .ok q → outcomes ⊆ q.1 := by
  have hrefl : Reported path s s (.ok (Outcome.listReports outcomes)) := .of_quiet (Std.Refl.refl s)
  induction ids generalizing s outcomes with
  | nil =>
    cases hrun
    exact ⟨hrefl, by rintro _ ⟨⟩; exact List.Subset.refl _⟩
  | cons id ids ih =>
    rw [List.forall_mem_cons] at htransfer
    unfold transferProviders at hrun
    split at hrun
    · exact ih htransfer.2 hrun hrefl
    rw [Steps.run_get_bind] at hrun
    split at hrun
    · cases hrun
      exact ⟨hrefl, by rintro _ ⟨⟩; exact List.Subset.refl _⟩
    rw [Steps.run_bind] at hrun
    split at hrun
    · rename_i o u heq
      have ho := htransfer.1 s _ _ heq
      have hlist {os : List Outcome} (h : outcomes ++ [o] ⊆ os) :
          o.reports ⊆ Outcome.listReports os ∧ outcomes ⊆ os := by
        rw [List.append_subset] at h
        refine ⟨fun r hr => ?_, h.1⟩
        rw [Outcome.listReports_eq, List.mem_flatMap]
        exact ⟨o, h.2 (List.mem_singleton_self _), hr⟩
      split at hrun
      · obtain ⟨hrest, hmore⟩ := ih htransfer.2 hrun (.of_quiet (Std.Refl.refl _))
        refine ⟨ho.trans hrest fun rs hrs => ?_, fun q hq => (hlist (hmore q hq)).2⟩
        obtain ⟨q, hq, rfl⟩ := map_eq_ok.1 hrs
        exact ⟨_, _, rfl, hrs, (hlist (hmore q hq)).1, List.Subset.refl _⟩
      · cases hrun
        have hself := hlist (List.Subset.refl (outcomes ++ [o]))
        have hstay : Reported path t t (.ok []) := .of_quiet (Std.Refl.refl t)
        refine ⟨ho.trans hstay ?_, ?_⟩
        · rintro _ ⟨⟩
          exact ⟨_, _, rfl, rfl, hself.1, List.nil_subset _⟩
        · rintro _ ⟨⟩
          exact hself.2
    · rename_i f u heq
      cases hrun
      obtain ⟨cs, hcs, hpath, -⟩ := htransfer.1 s _ _ heq
      exact ⟨⟨cs, hcs, hpath, by rintro _ ⟨⟩⟩, by rintro _ ⟨⟩⟩

/-- **The reports of a transfer cover its commits**, over any number of levels. A transfer that ends in a
fault, and so has no reports, has made no commit for the card itself. -/
theorem reported_transferCard {n : Nat} {r : Except Fault Outcome} (hid : id.isInt = true)
    (h : (transferCard n terms path id).run s = (r, t)) :
    Reported path s t (r.map Outcome.reports) ∧
      ∀ f, r = .error f → Reported (path.add id) s t (r.map Outcome.reports) := by
  induction n generalizing terms path id s t r with
  | zero =>
    cases h
    exact ⟨.of_quiet (Std.Refl.refl s), fun _ _ => .of_quiet (Std.Refl.refl s)⟩
  | succ n ih =>
    have hrun := cardRun terms (transferCard n terms.forProviders (path.add id)) path id s
    change (transferVia terms _ path id).run s = _ at h
    rw [h] at hrun
    have hproviders (g : Fetched path id s) {p : Except Fault (List Outcome × Option Stop)}
        {u : Session}
        (hg : g.transferProviders terms (transferCard n terms.forProviders (path.add id)) = (p, u)) :
        Reported (path.add id) s u (p.map fun p => Outcome.listReports p.1) := by
      have hreported := (reported_transferProviders (fun i hi _ _ _ h =>
        (ih (Card.isInt_of_mem_findReferences g.found hi) h).1) hg).1
      have hstart : Reported (path.add id) s g.start (.ok []) := .of_quiet g.idle.toQuiet
      refine hstart.trans hreported fun rs hrs => ?_
      exact ⟨_, _, rfl, hrs, List.nil_subset _, List.Subset.refl _⟩
    cases hrun with
    | left idle failed => exact ⟨.of_quiet idle.toQuiet, fun _ _ => .of_quiet idle.toQuiet⟩
    | stopped g run stop failed reported =>
      have hstopped : Reported (path.add id) s t (r.map Outcome.reports) := by
        obtain ⟨cs, hcs, hpath, hcover⟩ := hproviders g run
        refine ⟨cs, hcs, hpath, fun rs hrs => ?_⟩
        obtain ⟨o, ho, rfl⟩ := map_eq_ok.1 hrs
        obtain ⟨stop, rfl, -⟩ := reported o ho
        refine (hcover _ rfl).mono ?_
        cases o
        exact List.subset_append_left _ _
      exact ⟨hstopped.of_add, fun _ _ => hstopped⟩
    | ready g run ready =>
      rename_i outcomes u r
      have hbefore := hproviders g run
      constructor
      · refine hbefore.of_add.trans (reported_ready hid g.fresh ready) fun rs hrs => ?_
        obtain ⟨o, ho, rfl⟩ := map_eq_ok.1 hrs
        obtain ⟨report, rfl, rfl⟩ := map_eq_ok.1 ho
        exact ⟨_, _, rfl, rfl, List.subset_append_left _ _, List.subset_append_right _ _⟩
      · rintro f hf
        rcases commits_ready ready with hcommits | ⟨result, target, rfl, -⟩
        · obtain ⟨cs, hcs, hpath, -⟩ := hbefore
          refine ⟨cs, hcommits.trans hcs, hpath, fun rs hrs => ?_⟩
          rw [hf] at hrs
          cases hrs
        · cases hf

end Session
end CardTransfer
