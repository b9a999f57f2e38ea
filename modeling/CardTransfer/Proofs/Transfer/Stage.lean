import CardTransfer.Proofs.Session.Frame
import CardTransfer.Transfer.Card

/-!
# How the transfer of a card ends

Each stage of a transfer may end it. `ReadyRun` lists how stages 3 to 6 end and `ViaRun` how the whole
transfer of a card does, with what has been changed by then. Every run of these stages is in the list
(`readyRun`, `viaRun`), so that what holds in each of its cases holds of all transfers.

Once the card is on the target, nothing stands against its entry in the card map: the verification
always comes to a verdict, because what it needs in words has been put in words for the query before
(`describe_of_transferQuery`), and the map, which has been read before, can be written
(`Store.exists_setCard`).
-/

namespace CardTransfer
namespace Session

variable {terms : Terms} {id : Json} {card : Card} {s : Session}

/-! ### Verification always comes to a verdict -/

theorem total_runError (id : Json) : Steps.Total (runError id) := by
  refine (Steps.total_outcome _).bind fun r => ?_
  split
  · exact Steps.total_pure _
  · exact Steps.total_pure _

/-- Repairing a card ends with a verdict, whatever goes wrong. -/
theorem total_repair (card : Card) (id : Json) (context : String) (n attempt : Nat)
    (query : Members) (error : Json) (warnings : List String) :
    Steps.Total (repair card id context n attempt query error warnings) := by
  induction n generalizing attempt query error warnings with
  | zero => exact Steps.total_pure _
  | succ n ih =>
    unfold repair
    refine (Steps.total_outcome _).bind fun r => ?_
    split
    · exact Steps.total_pure _
    · exact Steps.total_pure _
    · refine (Steps.total_outcome _).bind fun r => ?_
      split
      · exact Steps.total_pure _
      · refine (total_runError id).bind fun error => ?_
        split
        · exact ih _ _ _ _
        · exact Steps.total_pure _

/-- A card is verified if the correspondence can be put in words, or needs not be. -/
theorem run_verify_isOk (target : Json) (query : Members) (warnings : List String)
    (h : card.isNative = true → ∃ words, s.correspondence.describe = .ok words) :
    ∃ v, ((verify card target query warnings).run s).1 = .ok v := by
  have hquiet := (calm_runError target s).idle.toQuiet
  unfold verify
  rw [Steps.run_bind]
  split
  · rename_i error t heq
    rw [heq] at hquiet
    split
    · exact ⟨_, rfl⟩
    split
    · exact ⟨_, rfl⟩
    · rename_i hnative
      rw [Bool.not_eq_true, Bool.not_eq_false'] at hnative
      obtain ⟨words, hwords⟩ := h hnative
      rw [Steps.run_get_bind, hquiet.correspondence, hwords, Steps.run_ofExcept_bind_ok]
      exact total_repair _ _ _ _ _ _ _ _ t
  · rename_i f t heq
    obtain ⟨error, herror⟩ := total_runError target s
    rw [heq] at herror
    cases herror

/-! ### Queries -/

/-- A query that cards without counterpart do not stand against refers to none of them. -/
theorem unlessUnresolved_eq_ok {card : Card} {query : Members} {warnings : List String} {cards : Ids}
    {q : NewQuery}
    (h : NewQuery.unlessUnresolved false card query warnings cards = .ok (.ok q)) :
    cards = [] ∧ q.query = query := by
  unfold NewQuery.unlessUnresolved at h
  split at h
  · rename_i hempty
    rw [Bool.false_or, List.isEmpty_iff] at hempty
    cases h
    exact ⟨hempty, rfl⟩
  · obtain ⟨failure, -, h⟩ := bind_eq_ok.1 h
    cases h

/-- A native card is not structured. -/
theorem kind?_ne_structured (h : card.isNative = true) : card.kind? ≠ some .structured := by
  unfold Card.isNative at h
  rw [beq_iff_eq] at h
  rw [h]
  decide

/-- Where the query of a card that is not structured has been transferred, its draft has been rendered. -/
theorem exists_rendered {dryRun : Bool} {cards : IdMap Json} {q : NewQuery} {t : Session}
    (hkind : card.kind? ≠ some .structured)
    (h : (transferQuery dryRun cards card).run s = (.ok (.ok q), t)) : ∃ draft words rendered,
      NativeDraft.ofQuery s.correspondence cards card.query = .ok draft ∧
        s.correspondence.describe = .ok words ∧ (renderText draft.text words).run s = (.ok rendered, t) ∧
          NewQuery.ofNative dryRun card (draft.finish s.settings.targetDatabase card.query rendered) =
            .ok (.ok q) := by
  unfold transferQuery at h
  rw [if_neg (by simpa using hkind), Steps.run_outcome_bind] at h
  generalize hrun : (transferNative cards card.query).run s = w at h
  obtain ⟨r, u⟩ := w
  cases r with
  | error f =>
    simp only at h
    split at h
    · cases h
    · cases h
  | ok transfer =>
    unfold transferNative at hrun
    rw [Steps.run_get_bind] at hrun
    obtain ⟨draft, s₁, hdraft, hrun⟩ := Steps.run_bind_eq_ok.1 hrun
    obtain rfl : s = s₁ := congrArg Prod.snd hdraft
    obtain ⟨words, s₂, hwords, hrun⟩ := Steps.run_bind_eq_ok.1 hrun
    obtain rfl : s = s₂ := congrArg Prod.snd hwords
    obtain ⟨rendered, s₃, hrendered, hrun⟩ := Steps.run_bind_eq_ok.1 hrun
    cases hrun
    obtain rfl : u = t := congrArg Prod.snd h
    exact ⟨draft, words, rendered, congrArg Prod.fst hdraft, congrArg Prod.fst hwords, hrendered,
      congrArg Prod.fst h⟩

/-- Where the query of a native card has been transferred, the correspondence can be put in words. -/
theorem describe_of_transferQuery {dryRun : Bool} {cards : IdMap Json} {q : NewQuery} {t : Session}
    (hnative : card.isNative = true)
    (h : (transferQuery dryRun cards card).run s = (.ok (.ok q), t)) :
    ∃ words, s.correspondence.describe = .ok words := by
  obtain ⟨-, words, -, -, hwords, -⟩ := exists_rendered (kind?_ne_structured hnative) h
  exact ⟨words, hwords⟩

/-! ### Writing a card -/

/-- What a session is after an attempt to write a card: the attempt has been noted, and the instance
may have changed. -/
structure Attempted (s : Session) (a : Attempt) (t : Session) : Prop where
  settings : t.settings = s.settings
  correspondence : t.correspondence = s.correspondence
  cardObject : Store.cardObject t.directory = Store.cardObject s.directory
  attempts : t.journal.attempts = s.journal.attempts ++ [a]
  commits : t.journal.commits = s.journal.commits
  store : Store.cardObject a.store = Store.cardObject s.directory

theorem Attempted.quiet {a : Attempt} {t u : Session} (h : Attempted s a t) (hq : Quiet t u) :
    Attempted s a u where
  settings := hq.settings.trans h.settings
  correspondence := hq.correspondence.trans h.correspondence
  cardObject := hq.cardObject.trans h.cardObject
  attempts := hq.attempts.trans h.attempts
  commits := hq.commits.trans h.commits
  store := h.store

theorem Attempted.after {a : Attempt} {t u : Session} (hq : Quiet s t) (h : Attempted t a u) :
    Attempted s a u where
  settings := h.settings.trans hq.settings
  correspondence := h.correspondence.trans hq.correspondence
  cardObject := h.cardObject.trans hq.cardObject
  attempts := by rw [h.attempts, hq.attempts]
  commits := h.commits.trans hq.commits
  store := h.store.trans hq.cardObject

theorem quiet_putCard (card : Card) (replaced : Option Json) (definition : Members) :
    Steps.Keeps Quiet (putCard card replaced definition) := by
  cases replaced with
  | some target => exact (quiet_replace card target definition).bind fun _ => Steps.keeps_pure _
  | none => exact quiet_create card definition

/-- A new card gets the next id. -/
theorem id_of_createCard {definition : Members} {target : Json} {m m' : Metabase.Instance}
    (h : (Metabase.Instance.createCard definition).run m = (.ok target, m')) :
    target = .int m.nextId := by
  obtain ⟨_, m₁, hmeet, h⟩ := Steps.run_bind_eq_ok.1 h
  have hsame := (sameCards_meet .create m).2
  rw [hmeet] at hsame
  rw [Steps.run_get_bind] at h
  obtain ⟨-, m', -, h⟩ := Steps.run_bind_eq_ok.1 h
  cases h
  exact congrArg Json.int hsame

/-- A card that has been put on the target is the one that was to be replaced, or a new one. -/
theorem target_of_putCard {replaced : Option Json} {definition : Members} {target : Json} {t : Session}
    (h : (putCard card replaced definition).run s = (.ok target, t)) :
    replaced = some target ∨ replaced = none ∧ ∃ k, target = .int k := by
  cases replaced with
  | some old =>
    obtain ⟨-, u, -, h⟩ := Steps.run_bind_eq_ok.1 h
    cases h
    exact .inl rfl
  | none =>
    obtain ⟨new, u, hcall, h⟩ := Steps.run_bind_eq_ok.1 h
    obtain ⟨-, v, -, h⟩ := Steps.run_bind_eq_ok.1 h
    cases h
    have hcreate : ((Metabase.Instance.createCard definition).run s.metabase).1 = .ok target :=
      congrArg Prod.fst hcall
    exact .inr ⟨rfl, s.metabase.nextId, id_of_createCard (Prod.ext hcreate rfl)⟩

/-- A definition has the query that it was made of. -/
theorem get?_definition {query suffix collection : Json} {definition : Members}
    (h : card.definition query suffix collection = .ok definition) :
    Members.get? definition "dataset_query" = some query := by
  obtain ⟨name, -, h⟩ := bind_eq_ok.1 h
  obtain ⟨settings, -, h⟩ := bind_eq_ok.1 h
  cases h
  rfl

/-! ### Stages 3 to 6 -/

/-- What has been read and made by the time a card is written: the card map and the entry of the card
in it, the new query with the session after its transfer, and the definition. -/
structure Draft (terms : Terms) (id : Json) (card : Card) (s : Session) where
  cards : IdMap Json
  existing : Option Json
  query : NewQuery
  start : Session
  definition : Members
  live : terms.dryRun.truthy = false
  readCards : Store.cardMap s.directory = .ok cards
  readExisting : Store.cardTarget? s.directory id = .ok existing
  free : terms.force = false → existing = none
  transferred : (transferQuery false cards card).run s = (.ok (.ok query), start)
  defined : card.definition (.obj query.query) start.settings.nameSuffix terms.collection =
    .ok definition

/-- An attempt to write the card of a draft. -/
structure Draft.Tried (d : Draft terms id card s) (a : Attempt) : Prop where
  source : a.source = id
  card : a.card = card
  replaced : a.replaced = if terms.force then d.existing else none
  definition : a.definition = d.definition
  target : ∀ {target}, a.answer = .ok target →
    a.replaced = some target ∨ a.replaced = none ∧ ∃ k, target = .int k

/-- How stages 3 to 6 end, and in which session. -/
inductive ReadyRun (terms : Terms) (id : Json) (card : Card) (s : Session) :
    Except Fault Report × Session → Prop
  /-- The card is not transferred, and no attempt is made to write it: there is no time left, or its
  query cannot be transferred. -/
  | unwritten {r : Except Fault Report} {t : Session} (idle : Idle s t)
    (failed : ∀ report, r = .ok report → report.ok = false)
    (why : ∀ f, r = .ok (.failed f) → f.kind = .timeout ∨ ∃ cards,
      Store.cardMap s.directory = .ok cards ∧
        ((transferQuery terms.dryRun.truthy cards card).run s).1 = .ok (.error f)) :
    ReadyRun terms id card s (r, t)
  /-- The card is in the card map already. -/
  | before {result : Transferred} {t : Session} {target : Json} (unforced : terms.force = false)
    (read : Store.cardTarget? s.directory id = .ok (some target)) (idle : Idle s t)
    (newId : result.newId = some target) (about : result.card = id) :
    ReadyRun terms id card s (.ok (.transferred result), t)
  /-- A dry run ends well. -/
  | dry {report : Report} {t : Session} (dry : terms.dryRun.truthy = true) (idle : Idle s t) :
    ReadyRun terms id card s (.ok report, t)
  /-- The target refuses the card. -/
  | refused (d : Draft terms id card s) {a : Attempt} {f : Fault} {r : Except Fault Report} {t : Session}
    (tried : d.Tried a) (answer : a.answer = .error f) (attempted : Attempted s a t)
    (failed : ∀ report, r = .ok report → report.ok = false)
    (why : ∀ f, r = .ok (.failed f) → f.kind = .target) : ReadyRun terms id card s (r, t)
  /-- The card is written to the target and entered in the card map. -/
  | written (d : Draft terms id card s) {a : Attempt} {u t : Session} {target : Json}
    {result : Transferred} (tried : d.Tried a) (answer : a.answer = .ok target)
    (attempted : Attempted s a u) (set : Store.setCard u.directory id target = .ok t.directory)
    (settings : t.settings = u.settings) (correspondence : t.correspondence = u.correspondence)
    (attempts : t.journal.attempts = u.journal.attempts)
    (commits : t.journal.commits = u.journal.commits ++ [(id, target)])
    (newId : result.newId = some target) (about : result.card = id) :
    ReadyRun terms id card s (.ok (.transferred result), t)

/-- Reporting about a card that is in the card map is idle, and the report names it and the entry. -/
theorem run_reportExisting {dryRun target : Json} {r : Except Fault Transferred} {t : Session}
    (h : (reportExisting dryRun id card target).run s = (r, t)) :
    Idle s t ∧ ∀ result, r = .ok result → result.newId = some target ∧ result.card = id := by
  have hidle := (calm_fetch target s).idle
  unfold reportExisting at h
  rw [Steps.run_outcome_bind] at h
  cases hr : ((fetch target).run s).1 with
  | ok counterpart =>
    rw [hr] at h
    cases h
    exact ⟨hidle, by rintro _ ⟨⟩; exact ⟨rfl, rfl⟩⟩
  | error f =>
    rw [hr] at h
    simp only at h
    split at h
    · cases h
      exact ⟨hidle, by rintro _ ⟨⟩; exact ⟨rfl, rfl⟩⟩
    · cases h
      exact ⟨hidle, fun _ h => nomatch h⟩

/-- Writing a card makes one attempt and answers what came of it. -/
theorem exists_attempt (d : Draft terms id card s) {v : Session} (hv : Quiet s v) :
    ∃ a t, (writeCard terms id card d.existing d.definition).run v = (a.answer, t) ∧ d.Tried a ∧
      Attempted s a t := by
  let replaced := if terms.force then d.existing else none
  let put := (putCard card replaced d.definition).run v
  have hquiet : Quiet s put.2 := hv.trans (quiet_putCard card replaced d.definition v)
  let a : Attempt := ⟨id, card, replaced, d.definition, put.1, put.2.clock, put.2.directory⟩
  refine ⟨a, { put.2 with journal := { put.2.journal with
    attempts := put.2.journal.attempts ++ [a] } }, rfl,
    ⟨rfl, rfl, rfl, rfl, fun h => target_of_putCard (Prod.ext h rfl)⟩, ?_⟩
  exact {
    settings := hquiet.settings
    correspondence := hquiet.correspondence
    cardObject := hquiet.cardObject
    attempts := by rw [← hquiet.attempts]
    commits := hquiet.commits
    store := hquiet.cardObject }

/-- Entering a card notes the entry. -/
theorem run_enterCard {target : Json} {d : Directory}
    (h : Store.setCard s.directory id target = .ok d) :
    (enterCard id target).run s = (.ok (), { s with
      directory := d
      journal := { s.journal with commits := s.journal.commits ++ [(id, target)] } }) := by
  have hwrite : (writeStore (Store.setCard · id target)).run s = (.ok (), { s with directory := d }) := by
    unfold writeStore
    rw [Steps.run_get_bind]
    simp only [h]
    rfl
  unfold enterCard
  rw [Steps.run_bind, hwrite]
  rfl

/-- A card with a verdict is entered in the card map and reported. -/
theorem run_settle_of_verify {target : Json} {q : NewQuery} {v : Verification} {t : Session} {d : Directory}
    (hverify : (verify card target q.query q.warnings).run s = (.ok v, t))
    (hd : Store.setCard t.directory id target = .ok d) :
    (settle id card target q).run s = (.ok ⟨id, card.name, .now, card.query, some v.query, some target,
      some (t.cardUrl target), .bool false, v.verified, v.warnings⟩, { t with
        directory := d
        journal := { t.journal with commits := t.journal.commits ++ [(id, target)] } }) := by
  unfold settle
  rw [Steps.run_bind, hverify]
  simp only
  rw [Steps.run_bind, run_enterCard hd]
  rfl

/-- A card that has been written is verified and entered in the card map. -/
theorem run_settle (id target : Json) (q : NewQuery) {m : IdMap Json}
    (hdescribe : card.isNative = true → ∃ words, s.correspondence.describe = .ok words)
    (hm : Store.cardMap s.directory = .ok m) :
    ∃ result u d, (settle id card target q).run s = (.ok result, { u with
        directory := d
        journal := { u.journal with commits := u.journal.commits ++ [(id, target)] } }) ∧
      Quiet s u ∧ Store.setCard u.directory id target = .ok d ∧ result.newId = some target ∧
        result.card = id := by
  obtain ⟨v, hv⟩ := run_verify_isOk target q.query q.warnings hdescribe
  have hquiet := quiet_verify card target q.query q.warnings s
  generalize hu : ((verify card target q.query q.warnings).run s).2 = u at hquiet
  obtain ⟨d, hd⟩ := Store.exists_setCard (d := u.directory) (m := m)
    (by rw [← hm]; exact Store.cardMap_congr hquiet.cardObject) id target
  exact ⟨_, u, d, run_settle_of_verify (Prod.ext (y := (.ok v, u)) hv hu) hd, hquiet, hd, rfl, rfl⟩

/-- Stages 5 and 6 end in one of these ways. -/
theorem commitRun {cards : IdMap Json} {existing : Option Json} {q : NewQuery} {start : Session}
    (hlive : terms.dryRun.truthy = false) (hcards : Store.cardMap s.directory = .ok cards)
    (hexisting : Store.cardTarget? s.directory id = .ok existing)
    (hfree : terms.force = false → existing = none)
    (hquery : (transferQuery false cards card).run s = (.ok (.ok q), start)) :
    ReadyRun terms id card s ((commit terms id card existing q).run start) := by
  have hidle : Idle s start := by
    have h := (calm_transferQuery false cards card s).idle
    rw [hquery] at h
    exact h
  unfold commit
  rw [Steps.run_get_bind]
  simp only
  split
  · exact .unwritten hidle (by rintro _ ⟨⟩; rfl) (by rintro _ ⟨⟩; exact .inl rfl)
  rw [Steps.run_get_bind]
  refine Steps.run_bind_of (fun definition t hdefined => ?_) fun f t hdefined => ?_
  · obtain ⟨hdefinition, rfl⟩ := Prod.mk.inj hdefined
    rw [Steps.run_outcome_bind]
    let d : Draft terms id card s :=
      ⟨cards, existing, q, start, definition, hlive, hcards, hexisting, hfree, hquery, hdefinition⟩
    obtain ⟨a, u, hwrite, htried, hattempted⟩ := exists_attempt d hidle.toQuiet
    rw [hwrite]
    simp only
    cases hanswer : a.answer with
    | error f =>
      simp only
      split
      · exact .refused d htried hanswer hattempted (by rintro _ ⟨⟩; rfl) (by rintro _ ⟨⟩; rfl)
      · exact .refused d htried hanswer hattempted (fun _ h => nomatch h) fun _ h => nomatch h
    | ok target =>
      have hdescribe (hnative : card.isNative = true) :
          ∃ words, u.correspondence.describe = .ok words := by
        rw [hattempted.correspondence]
        exact describe_of_transferQuery hnative hquery
      have hmap : Store.cardMap u.directory = .ok cards := by
        rw [← hcards]
        exact Store.cardMap_congr hattempted.cardObject
      obtain ⟨result, w, dir, hsettle, hquiet, hset, hnew, habout⟩ :=
        run_settle id target q hdescribe hmap
      simp only
      rw [Steps.run_bind, hsettle]
      exact .written d htried hanswer (hattempted.quiet hquiet) hset rfl rfl rfl rfl hnew habout
  · obtain ⟨-, rfl⟩ := Prod.mk.inj hdefined
    exact .unwritten hidle (fun _ h => nomatch h) fun _ h => nomatch h

/-- **Every run of stages 3 to 6 ends in one of these ways.** -/
theorem readyRun (terms : Terms) (id : Json) (card : Card) (s : Session) :
    ReadyRun terms id card s ((transferReady terms id card).run s) := by
  have hrefl : Idle s s := Std.Refl.refl s
  unfold transferReady
  refine Steps.run_bind_of (fun existing u hread => ?_) fun f u hread => ?_
  · obtain ⟨hexisting, rfl⟩ := Prod.mk.inj hread
    change Store.cardTarget? s.directory id = .ok existing at hexisting
    split
    · rename_i target hforce
      refine Steps.run_bind_of (fun result t h => ?_) fun f t h => ?_
      · obtain ⟨hidle, hnew⟩ := run_reportExisting h
        exact .before hforce hexisting hidle (hnew _ rfl).1 (hnew _ rfl).2
      · obtain ⟨hidle, -⟩ := run_reportExisting h
        exact .unwritten hidle (fun _ h => nomatch h) fun _ h => nomatch h
    · rename_i hfree
      rw [Steps.run_get_bind]
      split
      · exact .unwritten hrefl (by rintro _ ⟨⟩; rfl) (by rintro _ ⟨⟩; exact .inl rfl)
      refine Steps.run_bind_of (fun cards u hread => ?_) fun f u hread => ?_
      · obtain ⟨hcards, rfl⟩ := Prod.mk.inj hread
        change Store.cardMap s.directory = .ok cards at hcards
        refine Steps.run_bind_of (fun r u hquery => ?_) fun f u hquery => ?_
        · have hidle := (calm_transferQuery terms.dryRun.truthy cards card s).idle
          rw [hquery] at hidle
          split
          · refine .unwritten hidle (by rintro _ ⟨⟩; rfl) ?_
            rintro _ ⟨⟩
            exact .inr ⟨cards, hcards, congrArg Prod.fst hquery⟩
          · split
            · rename_i hdry
              exact .dry hdry hidle
            · rename_i hlive
              rw [Bool.not_eq_true] at hlive
              rw [hlive] at hquery
              refine commitRun hlive hcards hexisting (fun hforce => ?_) hquery
              exact Option.eq_none_iff_forall_ne_some.2 fun target h => hfree target h hforce
        · have hidle := (calm_transferQuery terms.dryRun.truthy cards card s).idle
          rw [hquery] at hidle
          exact .unwritten hidle (fun _ h => nomatch h) fun _ h => nomatch h
      · obtain ⟨-, rfl⟩ := Prod.mk.inj hread
        exact .unwritten hrefl (fun _ h => nomatch h) fun _ h => nomatch h
  · obtain ⟨-, rfl⟩ := Prod.mk.inj hread
    exact .unwritten hrefl (fun _ h => nomatch h) fun _ h => nomatch h

/-! ### The cards that a card refers to -/

/-- What the transfer of each of some cards preserves, the transfer of all of them in turn preserves.
If none stops it, each card is in the card map at hand or done, provided that what is done stays
done. -/
theorem run_transferProviders {P : Session → Prop} {D : Json → Session → Prop}
    {deadline : Option Number} {transfer : Json → Action Outcome} {mapped : IdMap Json} {ids : Ids}
    (hstep : ∀ id ∈ ids, ∀ s o t, P s → (transfer id).run s = (o, t) →
      P t ∧ (∀ o', o = .ok o' → o'.ok = true → D id t) ∧ ∀ other, D other s → D other t)
    {outcomes : List Outcome} {p : Except Fault (List Outcome × Option Stop)} {t : Session} (hs : P s)
    (hrun : (transferProviders deadline transfer mapped ids outcomes).run s = (p, t)) :
    P t ∧ (∀ other, D other s → D other t) ∧
      ∀ outcomes', p = .ok (outcomes', none) → ∀ id ∈ ids, mapped.has id = true ∨ D id t := by
  induction ids generalizing s outcomes with
  | nil =>
    cases hrun
    exact ⟨hs, fun _ h => h, fun _ _ _ h => nomatch h⟩
  | cons id ids ih =>
    have htail := fun i hi => hstep i (List.mem_cons_of_mem _ hi)
    unfold transferProviders at hrun
    split at hrun
    · rename_i hmapped
      obtain ⟨ht, hkeep, hall⟩ := ih htail hs hrun
      refine ⟨ht, hkeep, fun o ho i hi => ?_⟩
      rcases List.mem_cons.1 hi with rfl | hi
      · exact .inl hmapped
      · exact hall o ho i hi
    rw [Steps.run_get_bind] at hrun
    split at hrun
    · cases hrun
      exact ⟨hs, fun _ h => h, fun _ h => nomatch h⟩
    rw [Steps.run_bind] at hrun
    split at hrun
    · rename_i o u heq
      obtain ⟨hu, hdone, hkeep⟩ := hstep id (List.mem_cons_self ..) s _ _ hs heq
      split at hrun
      · rename_i hok
        obtain ⟨ht, hkeep', hall⟩ := ih htail hu hrun
        refine ⟨ht, fun i hi => hkeep' i (hkeep i hi), fun o' ho' i hi => ?_⟩
        rcases List.mem_cons.1 hi with rfl | hi
        · exact .inr (hkeep' i (hdone o rfl hok))
        · exact hall o' ho' i hi
      · cases hrun
        exact ⟨hu, hkeep, fun _ h => nomatch h⟩
    · rename_i f u heq
      obtain ⟨hu, -, hkeep⟩ := hstep id (List.mem_cons_self ..) s _ _ hs heq
      cases hrun
      exact ⟨hu, hkeep, fun _ h => nomatch h⟩

/-! ### The whole transfer of a card -/

/-- What has been read of a card before those that it refers to are transferred, and the session
then. -/
structure Fetched (path : Ids) (id : Json) (s : Session) where
  card : Card
  start : Session
  mapped : IdMap Json
  providers : Ids
  fresh : path.has id = false
  fetched : (fetch id).run s = (.ok card, start)
  supported : card.kind?.isSome = true
  readMapped : Store.cardMap start.directory = .ok mapped
  found : card.findReferences = .ok providers

theorem Fetched.idle {path : Ids} (g : Fetched path id s) : Idle s g.start := by
  have h := (calm_fetch id s).idle
  rw [g.fetched] at h
  exact h

/-- Transferring the cards that a fetched card refers to. -/
def Fetched.transferProviders {path : Ids} (g : Fetched path id s) (terms : Terms)
    (transfer : Json → Action Outcome) : Except Fault (List Outcome × Option Stop) × Session :=
  (Session.transferProviders terms.deadline transfer g.mapped g.providers []).run g.start

/-- How the transfer of a card ends, and in which session. -/
inductive CardRun (terms : Terms) (transfer : Json → Action Outcome) (path : Ids) (id : Json)
    (s : Session) : Except Fault Outcome × Session → Prop
  /-- The card is not transferred, nor is any that it refers to. -/
  | left {r : Except Fault Outcome} {t : Session} (idle : Idle s t)
    (failed : ∀ o, r = .ok o → o.ok = false)
    (alone : ∀ o, r = .ok o → ∃ f : Failure, o = f.outcome [] ∧ f.kind ≠ .dependency ∧ f.card = id ∧
      (f.kind = .circular → path.has id = true)) :
    CardRun terms transfer path id s (r, t)
  /-- Not all cards that it refers to are transferred. -/
  | stopped (g : Fetched path id s) {p : Except Fault (List Outcome × Option Stop)}
    {r : Except Fault Outcome} {t : Session} (run : g.transferProviders terms transfer = (p, t))
    (stop : ∀ outcomes, p ≠ .ok (outcomes, none)) (failed : ∀ o, r = .ok o → o.ok = false)
    (reported : ∀ o, r = .ok o → ∃ stop, p = .ok (o.providers, some stop) ∧
      o.report = .failed (stopFailure id g.card stop)) :
    CardRun terms transfer path id s (r, t)
  /-- All cards that it refers to are in the card map or have been transferred. -/
  | ready (g : Fetched path id s) {outcomes : List Outcome} {u t : Session} {r : Except Fault Report}
    (run : g.transferProviders terms transfer = (.ok (outcomes, none), u))
    (ready : ReadyRun terms id g.card u (r, t)) (ran : (transferReady terms id g.card).run u = (r, t)) :
    CardRun terms transfer path id s (r.map (Outcome.mk · outcomes), t)

/-- The transfer of a card that has been fetched ends when a provider stops it, or when it is ready. -/
theorem cardRun_of_fetched (terms : Terms) (transfer : Json → Action Outcome) {path : Ids}
    {start : Session} (hfresh : path.has id = false) (hfetch : (fetch id).run s = (.ok card, start))
    (hkind : card.kind?.isSome = true) :
    CardRun terms transfer path id s ((transferFetched terms transfer id card).run start) := by
  have hidle := (calm_fetch id s).idle
  rw [hfetch] at hidle
  unfold transferFetched
  refine Steps.run_bind_of (fun mapped t h => ?_) fun f t h => ?_
  · obtain ⟨hmapped, rfl⟩ := Prod.mk.inj h
    refine Steps.run_bind_of (fun providers t h => ?_) fun f t h => ?_
    · obtain ⟨hfound, rfl⟩ := Prod.mk.inj h
      let g : Fetched path id s := ⟨card, start, mapped, providers, hfresh, hfetch, hkind, hmapped, hfound⟩
      refine Steps.run_bind_of (fun p t h => ?_) fun f t h => ?_
      · obtain ⟨outcomes, stop⟩ := p
        cases stop with
        | some stop =>
          exact .stopped g h (fun _ h => nomatch h) (by rintro _ ⟨⟩; rfl)
            (by rintro _ ⟨⟩; exact ⟨stop, rfl, rfl⟩)
        | none =>
          have hready := readyRun terms id card t
          refine Steps.run_bind_of (fun report u hr => ?_) fun f u hr => ?_
          · rw [hr] at hready
            exact .ready (r := .ok report) g h hready hr
          · rw [hr] at hready
            exact .ready (r := .error f) g h hready hr
      · exact .stopped g h (fun _ h => nomatch h) (fun _ h => nomatch h) fun _ h => nomatch h
    · obtain ⟨-, rfl⟩ := Prod.mk.inj h
      exact .left hidle (fun _ h => nomatch h) fun _ h => nomatch h
  · obtain ⟨-, rfl⟩ := Prod.mk.inj h
    exact .left hidle (fun _ h => nomatch h) fun _ h => nomatch h

/-- **Every run of the transfer of a card ends in one of these ways.** -/
theorem cardRun (terms : Terms) (transfer : Json → Action Outcome) (path : Ids) (id : Json)
    (s : Session) :
    CardRun terms transfer path id s ((transferVia terms transfer path id).run s) := by
  have hrefl : Idle s s := Std.Refl.refl s
  unfold transferVia
  refine Steps.run_bind_of (fun key t h => ?_) fun f t h => ?_
  · obtain ⟨hkey, rfl⟩ := Prod.mk.inj h
    obtain rfl := Json.eq_of_asKey hkey
    split
    · rename_i hpath
      refine Steps.run_bind_of (fun sorted t h => ?_) fun f t h => ?_
      · obtain ⟨-, rfl⟩ := Prod.mk.inj h
        exact .left hrefl (by rintro _ ⟨⟩; rfl)
          (by rintro _ ⟨⟩; exact ⟨_, rfl, nofun, rfl, fun _ => hpath⟩)
      · obtain ⟨-, rfl⟩ := Prod.mk.inj h
        exact .left hrefl (fun _ h => nomatch h) fun _ h => nomatch h
    rename_i hfresh
    rw [Bool.not_eq_true] at hfresh
    rw [Steps.run_get_bind]
    split
    · exact .left hrefl (by rintro _ ⟨⟩; rfl) (by rintro _ ⟨⟩; exact ⟨_, rfl, nofun, rfl, nofun⟩)
    rw [Steps.run_outcome_bind]
    have hidle := (calm_fetch key s).idle
    cases hfetch : (fetch key).run s with
    | mk r start =>
      rw [hfetch] at hidle
      cases r with
      | error f =>
        simp only
        split
        · exact .left hidle (by rintro _ ⟨⟩; rfl) (by rintro _ ⟨⟩; exact ⟨_, rfl, nofun, rfl, nofun⟩)
        · exact .left hidle (fun _ h => nomatch h) fun _ h => nomatch h
      | ok card =>
        simp only
        split
        · exact .left hidle (by rintro _ ⟨⟩; rfl) (by rintro _ ⟨⟩; exact ⟨_, rfl, nofun, rfl, nofun⟩)
        rename_i hkind
        rw [Bool.not_eq_true, Option.isNone_eq_false_iff] at hkind
        exact cardRun_of_fetched terms transfer hfresh hfetch hkind
  · obtain ⟨-, rfl⟩ := Prod.mk.inj h
    exact .left hrefl (fun _ h => nomatch h) fun _ h => nomatch h

end Session
end CardTransfer
