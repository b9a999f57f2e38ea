import CardTransfer.Proofs.Transfer.Frame
import CardTransfer.Proofs.Transfer.Verification

/-!
# How a card is written

Stages 5 and 6 of a transfer end in one of three ways (`CommitRun`): no attempt is made to write the card,
the target refuses it, or it is written, checked and entered in the card map. An attempt is made on the
clock that the deadline has just been compared with (`Tried`), and is noted with its event at that time
(`Wrote`). Every run of these stages for a card that is due is in the list (`Due.commitRun`).

Nothing stands against the checks and the entry of a card that has been written: they do not look at the
deadline, a verification comes to a verdict, and the card map, which has been read before, can be written.
-/

namespace CardTransfer

/-- The event of a card that has been put on the target, in the place of another one there or as a new
one. -/
def Event.put (card : Card) (replaced : Option Json) (target : Json) (definition : Members) : Event :=
  match replaced with
  | some _ => .replaced card target definition
  | none => .created card target definition

/-- The event of an attempt that succeeded. -/
def Attempt.event (a : Attempt) (target : Json) : Event := .put a.card a.replaced target a.definition

/-- The entry of an attempt in the list of events; a refused attempt has none. -/
def Attempt.entries (a : Attempt) : List Entry :=
  match a.answer with
  | .ok target => [⟨a.event target, a.time, a.store⟩]
  | .error _ => []

theorem Attempt.entries_of_ok {a : Attempt} {target : Json} (h : a.answer = .ok target) :
    a.entries = [⟨a.event target, a.time, a.store⟩] := by
  unfold entries
  rw [h]

theorem Attempt.entries_of_error {a : Attempt} {f : Fault} (h : a.answer = .error f) : a.entries = [] := by
  unfold entries
  rw [h]

/-- A card is there, with an object for payload. -/
def Metabase.Instance.Present (target : Json) (m : Metabase.Instance) : Prop :=
  ∃ payload, m.cards.get? target = some (.obj payload)

namespace Session

open Steps (Keeps Passes)

variable {terms : Terms} {id target : Json} {card : Card} {existing : Option Json} {q : NewQuery}
  {definition : Members} {s t u : Session} {a : Attempt}

/-! ### Attempts -/

/-- An attempt has been noted, on a clock and in a store that are still the same, with its event; besides, at
most the instance has changed. -/
structure Wrote (s : Session) (a : Attempt) (t : Session) : Prop where
  time : a.time = s.clock
  store : a.store = s.directory
  after : t = { s with
    metabase := t.metabase
    journal := { s.journal with
      entries := s.journal.entries ++ a.entries
      attempts := s.journal.attempts ++ [a] } }

/-- A card is on the instance. -/
def Present (target : Json) (s : Session) : Prop := s.metabase.Present target

/-- Changing a card gives no id away. -/
theorem nextId_updateCard (k : Int) (id : Json) (changes : Members) :
    Keeps (Passes fun m => m.nextId = k) (Metabase.Instance.updateCard id changes) := by
  have hmeet : Keeps (Passes fun m : Metabase.Instance => m.nextId = k) (Metabase.Instance.meet .update) :=
    (sameCards_meet .update).imp fun _ _ h hk => h.2.trans hk
  refine hmeet.bind fun _ => Steps.keeps_get_bind fun m => ?_
  split
  · exact fun h => h
  · exact fun h => h

/-- Verifying a card gives no id away. -/
theorem nextId_verify (k : Int) (card : Card) (target : Json) (query : Members) (warnings : List String) :
    Keeps (Passes fun s => s.metabase.nextId = k) (verify card target query warnings) := by
  have hcalm (s t : Session) (h : Calm s t) : Passes (fun s => s.metabase.nextId = k) s t :=
    fun hs => h.nextId.trans hs
  have hcall (query : Json) : Keeps (Passes fun s => s.metabase.nextId = k)
      (call (Metabase.Instance.updateCard target [("dataset_query", query)])) :=
    fun s => nextId_updateCard k target _ s.metabase
  exact keeps_verify hcalm (fun query => (hcall query).bind fun _ => (calm_note _).imp hcalm) card query
    warnings

/-- A payload that is changed by a definition has its query. -/
theorem exists_merged {query suffix collection : Json}
    (h : card.definition query suffix collection = .ok definition) (payload : Members) :
    ∃ payload', Metabase.Instance.merged (.obj payload) definition = .obj payload' ∧
      Members.get? payload' "dataset_query" = some query := by
  obtain ⟨name, -, h⟩ := bind_eq_ok.1 h
  obtain ⟨settings, -, h⟩ := bind_eq_ok.1 h
  cases h
  refine ⟨_, rfl, ?_⟩
  simp only [List.foldl_cons, List.foldl_nil]
  rw [Members.get?_insert_of_ne _ _ (by decide), Members.get?_insert_of_ne _ _ (by decide),
    Members.get?_insert_self]

/-- Between two instances, a card got the next id, or took the place of another one, which gives no id away. -/
def Placed (replaced : Option Json) (target : Json) (m m' : Metabase.Instance) : Prop :=
  replaced = none ∧ target = .int m.nextId ∧ m'.nextId = m.nextId + 1 ∨
    replaced = some target ∧ m'.nextId = m.nextId

/-- **Putting a card on the target** notes an event if it succeeds. The card on the target then has the query
of the definition, unless it was to be replaced and was not there. -/
theorem putCard_cases {replaced : Option Json} {answer : Except Fault Json} {query suffix collection : Json}
    (hdefined : card.definition query suffix collection = .ok definition)
    (h : (putCard card replaced definition).run s = (answer, t)) :
    (∃ f m, answer = .error f ∧ t = { s with metabase := m }) ∨ ∃ target m, answer = .ok target ∧
      Placed replaced target s.metabase m ∧
      t = { s with
        metabase := m
        journal := { s.journal with entries :=
          s.journal.entries ++ [⟨.put card replaced target definition, s.clock, s.directory⟩] } } ∧
      (replaced = none ∨ Present target s → ∃ payload, m.cards.get? target = some (.obj payload) ∧
        Members.get? payload "dataset_query" = some query) := by
  cases replaced with
  | some target =>
    change (replace card target definition >>= fun _ => pure target).run s = _ at h
    unfold replace at h
    rw [Steps.run_bind, Steps.run_bind, run_call] at h
    have hnext := nextId_updateCard s.metabase.nextId target definition s.metabase rfl
    generalize hupdate : (Metabase.Instance.updateCard target definition).run s.metabase = p at h hnext
    obtain ⟨r, m⟩ := p
    rcases updateCard_cases hupdate with ⟨⟨f, rfl⟩, -⟩ | ⟨rfl, hcards⟩
    · cases h
      exact .inl ⟨f, m, rfl, rfl⟩
    · cases h
      refine .inr ⟨target, m, rfl, .inr ⟨rfl, hnext⟩, rfl, fun hpresent => ?_⟩
      obtain ⟨payload, hpayload⟩ := hpresent.resolve_left nofun
      obtain ⟨payload', hmerged, hquery⟩ := exists_merged hdefined payload
      exact ⟨payload', hmerged ▸ hcards _ hpayload, hquery⟩
  | none =>
    change (create card definition).run s = _ at h
    unfold create at h
    rw [Steps.run_bind, run_call] at h
    generalize hcreate : (Metabase.Instance.createCard definition).run s.metabase = p at h
    obtain ⟨r, m⟩ := p
    cases r with
    | error f =>
      cases h
      exact .inl ⟨f, m, rfl, rfl⟩
    | ok target =>
      cases h
      refine .inr ⟨target, m, rfl, .inl ⟨rfl, id_of_createCard hcreate,
        Metabase.Instance.nextId_of_createCard hcreate⟩, rfl, fun _ => ?_⟩
      unfold Metabase.Instance.createCard at hcreate
      obtain ⟨_, m₁, -, hcreate⟩ := Steps.run_bind_eq_ok.1 hcreate
      rw [Steps.run_get_bind] at hcreate
      cases hcreate
      refine ⟨Members.insert definition "id" (.int m₁.nextId), ?_, ?_⟩
      · show (IdMap.insert m₁.cards _ _).get? _ = _
        rw [IdMap.get?_insert, if_pos (Json.sameId_refl _)]
        rfl
      · rw [Members.get?_insert_of_ne _ _ (by decide)]
        exact get?_definition hdefined

/-- Writing a card makes one attempt, answers what came of it, and leaves the query of the definition on the
target if it succeeds, unless it was to replace a card that was not there. -/
theorem exists_wrote {query suffix collection : Json} (terms : Terms) (id : Json) (existing : Option Json)
    (hdefined : card.definition query suffix collection = .ok definition) (s : Session) :
    ∃ a t, (writeCard terms id card existing definition).run s = (a.answer, t) ∧ Wrote s a t ∧
      a.source = id ∧ a.card = card ∧ a.replaced = (if terms.force then existing else none) ∧
        a.definition = definition ∧ ∀ target, a.answer = .ok target →
          Placed a.replaced target s.metabase t.metabase ∧
          (a.replaced = none ∨ Present target s → ∃ payload,
            t.metabase.cards.get? target = some (.obj payload) ∧
              Members.get? payload "dataset_query" = some query) := by
  unfold writeCard
  simp only
  generalize (if terms.force then existing else none) = replaced
  rw [Steps.run_outcome_bind]
  generalize hput : (putCard card replaced definition).run s = p
  obtain ⟨answer, u⟩ := p
  refine ⟨⟨id, card, replaced, definition, answer, u.clock, u.directory⟩, _, rfl, ?_⟩
  rcases putCard_cases hdefined hput with ⟨f, m, rfl, rfl⟩ | ⟨target, m, rfl, hreplaced, rfl, hstored⟩
  · refine ⟨⟨rfl, rfl, ?_⟩, rfl, rfl, rfl, rfl, fun _ h => nomatch h⟩
    rw [Attempt.entries_of_error rfl, List.append_nil]
  · refine ⟨⟨rfl, rfl, rfl⟩, rfl, rfl, rfl, rfl, ?_⟩
    rintro _ ⟨⟩
    exact ⟨hreplaced, hstored⟩

/-! ### Stages 5 and 6 -/

/-- An attempt to write a card with its new query, before the deadline. -/
structure Tried (terms : Terms) (id : Json) (card : Card) (existing : Option Json) (q : NewQuery)
    (s : Session) (a : Attempt) : Prop where
  source : a.source = id
  replaced : a.replaced = if terms.force then existing else none
  defined : card.definition (.obj q.query) s.settings.nameSuffix terms.collection = .ok a.definition
  card : a.card = card
  timely : terms.deadline.any a.time.ge = false

/-- A report is about a card that an attempt has put on the target, with a query that has been exchanged for
others in turn since; `s` is the session before, and `t` the one of the report. -/
structure Described (result : Transferred) (a : Attempt) (target : Json) (query : Members)
    (queries : List Members) (s t : Session) : Prop where
  source : a.source = result.card
  answer : a.answer = .ok target
  newId : result.newId = some target
  defined : Members.get? a.definition "dataset_query" = some (.obj query)
  corrected : (query :: queries).IsChain Corrected
  limit : queries.length ≤ s.settings.repairAttempts.toNat
  structured : a.card.isNative = false → queries = []
  /-- The report has the last of these queries, and so has the card on the target. -/
  final : (query :: queries).getLast? = result.result
  stored : a.replaced = none ∨ Present target s →
    ∃ query', result.result = some query' ∧ OnTarget target query' t
  /-- The verdict is that of the last run, which is the last thing that happened. -/
  verified : LastRun target t result.verified

/-- From session `s` to session `t`, a card is written, checked and entered in the card map. -/
structure Written (terms : Terms) (id : Json) (card : Card) (existing : Option Json) (q : NewQuery)
    (result : Transferred) (a : Attempt) (target : Json) (queries : List Members) (s t : Session) : Prop
    extends Described result a target q.query queries s t where
  tried : Tried terms id card existing q s a
  placed : Placed a.replaced target s.metabase t.metabase
  settings : t.settings = s.settings
  correspondence : t.correspondence = s.correspondence
  attempts : t.journal.attempts = s.journal.attempts ++ [a]
  entries : ∃ new, t.journal.entries = s.journal.entries ++
      ⟨a.event target, a.time, a.store⟩ :: ⟨.ran target, a.time, a.store⟩ :: new ∧
    new.map (·.event) = repairs target queries
  commits : t.journal.commits = s.journal.commits ++ [(id, target)]
  entered : ∃ d, Store.cardObject d = Store.cardObject s.directory ∧
    Store.setCard d id target = .ok t.directory

/-- How stages 5 and 6 end, and in which session. -/
inductive CommitRun (terms : Terms) (id : Json) (card : Card) (existing : Option Json) (q : NewQuery)
    (s : Session) : Except Fault Report × Session → Prop
  /-- No attempt is made to write the card. -/
  | unwritten {r : Except Fault Report} (failed : ∀ report, r = .ok report → report.ok = false) :
    CommitRun terms id card existing q s (r, s)
  /-- The target refuses the card. -/
  | refused {a : Attempt} {f : Fault} {r : Except Fault Report} {t : Session}
    (tried : Tried terms id card existing q s a) (answer : a.answer = .error f) (wrote : Wrote s a t)
    (failed : ∀ report, r = .ok report → report.ok = false) : CommitRun terms id card existing q s (r, t)
  /-- The card is written, checked and entered in the card map. -/
  | written {a : Attempt} {target : Json} {queries : List Members} {result : Transferred} {t : Session}
    (written : Written terms id card existing q result a target queries s t) :
    CommitRun terms id card existing q s (.ok (.transferred result), t)

/-- The new query of a native card has a text. -/
theorem hasText_of_transferQuery {cards : IdMap Json} (hnative : card.isNative = true)
    (h : (transferQuery false cards card).run s = (.ok (.ok q), t)) : HasText q.query := by
  obtain ⟨draft, words, rendered, -, -, -, hquery⟩ := exists_rendered (kind?_ne_structured hnative) h
  rw [(unlessUnresolved_eq_ok hquery).2]
  refine ⟨_, Sql.tidy rendered, Members.get?_insert_self .., ?_⟩
  unfold NativeDraft.newPart
  rw [Members.get?_insert_of_ne _ _ (by decide), Members.get?_insert_self]

/-- Transferring its query changes little in the session of a card that is due. -/
theorem Due.still (h : Due terms id card s existing q t) : Still s t := by
  obtain ⟨cards, -, hquery⟩ := h.transferred
  have hstill := still_transferQuery false cards card s
  rwa [hquery] at hstill

/-- **Stage 6:** a card that has been put on the target is checked and entered in the card map. -/
theorem Due.exists_settled (h : Due terms id card s existing q t) (tried : Tried terms id card existing q t a)
    (wrote : Wrote t a u) (answer : a.answer = .ok target) (placed : Placed a.replaced target t.metabase u.metabase)
    (stored : a.replaced = none ∨ Present target t → OnTarget target q.query u) :
    ∃ result queries t', (settle id card target q).run u = (.ok result, t') ∧
      Written terms id card existing q result a target queries t t' := by
  obtain ⟨cards, hcards, hquery⟩ := h.transferred
  have hread : Store.cardMap t.directory = .ok cards := by
    rw [Store.cardMap_congr (cardObject_of_renderings h.still.renderings), hcards]
  have hafter := wrote.after
  have hcorrespondence : u.correspondence = t.correspondence := by rw [hafter]
  have hdirectory : u.directory = t.directory := by rw [hafter]
  obtain ⟨v, w, queries, hverify, hlength, hstructured, hchecked⟩ :=
    exists_checked (s := u) target q.warnings (fun hnative => hasText_of_transferQuery hnative hquery)
      fun hnative => by
        rw [hcorrespondence, h.still.correspondence]
        exact describe_of_transferQuery hnative hquery
  have hquiet := quiet_verify card target q.query q.warnings u
  have hnext := nextId_verify u.metabase.nextId card target q.query q.warnings u rfl
  rw [hverify] at hquiet hnext
  obtain ⟨d, hd⟩ := Store.exists_setCard (d := w.directory) (m := cards)
    (by rw [Store.cardMap_congr hquiet.cardObject, hdirectory, hread]) id target
  refine ⟨_, queries, _, run_settle_of_verify hverify hd, ?_⟩
  refine {
    source := tried.source
    answer := answer
    newId := rfl
    defined := get?_definition tried.defined
    corrected := hchecked.corrected
    limit := by rw [hafter] at hlength; exact hlength
    structured := fun hnative => hstructured (by rw [← tried.card]; exact hnative)
    final := hchecked.final
    stored := fun hthere => ⟨v.query, rfl, (hchecked.stored (stored hthere)).congr rfl⟩
    verified := hchecked.last.congr rfl rfl
    tried := tried
    placed := by rw [Placed, hnext]; exact placed
    settings := by rw [hquiet.settings, hafter]
    correspondence := by rw [hquiet.correspondence, hafter]
    attempts := by rw [hquiet.attempts, hafter]
    entries := ?_
    commits := by rw [hquiet.commits, hafter]
    entered := ⟨w.directory, by rw [hquiet.cardObject, hdirectory], hd⟩ }
  obtain ⟨new, hnew, hrepairs⟩ := hchecked.events
  refine ⟨new, ?_, hrepairs⟩
  show w.journal.entries = _
  rw [hnew, hafter, Attempt.entries_of_ok answer, wrote.time, wrote.store, List.append_assoc]
  rfl

/-- **Stages 5 and 6 end in one of these ways** for a card that is due. -/
theorem Due.commitRun (h : Due terms id card s existing q t) :
    CommitRun terms id card existing q t ((commit terms id card existing q).run t) := by
  unfold commit
  rw [Steps.run_get_bind]
  simp only
  split
  · exact .unwritten (by rintro _ ⟨⟩; rfl)
  rename_i hpassed
  rw [Bool.not_eq_true] at hpassed
  rw [Steps.run_get_bind]
  cases hdefined : card.definition (.obj q.query) t.settings.nameSuffix terms.collection with
  | error f => exact .unwritten nofun
  | ok definition =>
    rw [Steps.run_ofExcept_bind_ok, Steps.run_outcome_bind]
    obtain ⟨a, u, hwrite, hwrote, hsource, hcard, hreplaced, hdefinition, hput⟩ :=
      exists_wrote terms id existing hdefined t
    have htried : Tried terms id card existing q t a :=
      ⟨hsource, hreplaced, hdefinition ▸ hdefined, hcard, by rw [hwrote.time]; exact hpassed⟩
    rw [hwrite]
    cases hanswer : a.answer with
    | error f =>
      simp only
      split
      · exact .refused htried hanswer hwrote (by rintro _ ⟨⟩; rfl)
      · exact .refused htried hanswer hwrote nofun
    | ok target =>
      obtain ⟨hplaced, hstored⟩ := hput target hanswer
      obtain ⟨result, queries, t', hsettle, hwritten⟩ :=
        h.exists_settled htried hwrote hanswer hplaced hstored
      simp only
      rw [Steps.run_bind, hsettle]
      exact .written hwritten

/-- Where a card that is due ends up with a report of success, it has been written. -/
theorem Due.exists_written {report : Report} (h : Due terms id card s existing q t)
    (hcommit : (commit terms id card existing q).run t = (.ok report, u)) (hok : report.ok = true) :
    ∃ result a target queries, report = .transferred result ∧
      Written terms id card existing q result a target queries t u := by
  have hrun := h.commitRun
  rw [hcommit] at hrun
  generalize hr : (Except.ok report : Except Fault Report) = r at hrun
  cases hrun with
  | unwritten failed =>
    rw [failed _ hr.symm] at hok
    cases hok
  | refused tried answer wrote failed =>
    rw [failed _ hr.symm] at hok
    cases hok
  | written written => exact ⟨_, _, _, _, Except.ok.inj hr, written⟩

/-! ### Transfers that succeed -/

/-- A card that is in the card map already is said to have been transferred before. -/
theorem success_of_reportExisting {dryRun : Json} {result : Transferred}
    (h : (reportExisting dryRun id card target).run s = (.ok result, t)) : result.success = .before := by
  unfold reportExisting at h
  rw [Steps.run_outcome_bind] at h
  split at h
  · cases h
    rfl
  · split at h
    · cases h
      rfl
    · cases h

/-- A live transfer of a card whose providers are done succeeds in one of two ways: the card is in the card
map already, or it is due and written. -/
theorem transferReady_cases {report : Report} (hlive : terms.dryRun.truthy = false)
    (h : (transferReady terms id card).run s = (.ok report, t)) (hok : report.ok = true) :
    (terms.force = false ∧ (∃ target, Store.cardTarget? s.directory id = .ok (some target)) ∧ Silent s t ∧
      ∃ result, report = .transferred result ∧ result.success = .before) ∨
    ∃ existing q u, Due terms id card s existing q u ∧ Silent s u ∧
      (commit terms id card existing q).run u = (.ok report, t) := by
  unfold transferReady at h
  obtain ⟨existing, s₁, hread, h⟩ := Steps.run_bind_eq_ok.1 h
  obtain rfl : s = s₁ := congrArg Prod.snd hread
  have hexisting : Store.cardTarget? s.directory id = .ok existing := congrArg Prod.fst hread
  split at h
  · rename_i target hforce
    obtain ⟨result, u, hresult, h⟩ := Steps.run_bind_eq_ok.1 h
    cases h
    have hsilent := silent_reportExisting terms.dryRun id card target s
    rw [hresult] at hsilent
    exact .inl ⟨hforce, ⟨target, hexisting⟩, hsilent, result, rfl, success_of_reportExisting hresult⟩
  rename_i hfree
  rw [Steps.run_get_bind] at h
  split at h
  · cases h
    cases hok
  obtain ⟨cards, s₂, hcards, h⟩ := Steps.run_bind_eq_ok.1 h
  obtain rfl : s = s₂ := congrArg Prod.snd hcards
  obtain ⟨r, u, hquery, h⟩ := Steps.run_bind_eq_ok.1 h
  have hsilent := (still_transferQuery terms.dryRun.truthy cards card s).silent _ _
  rw [hquery] at hsilent
  rw [hlive] at hquery h
  cases r with
  | error failure =>
    cases h
    cases hok
  | ok q =>
    refine .inr ⟨_, q, u, ⟨hlive, fun hforce => ?_, hexisting, cards, congrArg Prod.fst hcards, hquery⟩,
      hsilent, h⟩
    exact Option.eq_none_iff_forall_ne_some.2 fun target h => hfree target h hforce

/-- Fetching a card and transferring those that it refers to keeps what silent steps and those transfers
keep. -/
theorem Fetched.related {R : Session → Session → Prop} [Std.Refl R] [IsTrans Session R] {path : Ids}
    (g : Fetched path id s) {transfer : Json → Action Outcome}
    {p : Except Fault (List Outcome × Option Stop)} (hsilent : ∀ s t, Silent s t → R s t)
    (htransfer : ∀ id, Steps.Keeps R (transfer id)) (h : g.transferProviders terms transfer = (p, t)) :
    R s t := by
  have hfetch := silent_fetch id s
  rw [g.fetched] at hfetch
  have hproviders := keeps_transferProviders htransfer terms.deadline g.mapped g.providers [] g.start
  unfold Fetched.transferProviders at h
  rw [h] at hproviders
  exact IsTrans.trans _ _ _ (hsilent _ _ hfetch) hproviders

end Session
end CardTransfer
