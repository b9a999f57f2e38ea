import CardTransfer.Proofs.Transfer.Chronicle
import CardTransfer.Proofs.Transfer.Levels
import CardTransfer.Proofs.Transfer.ProvidersFirst

/-!
# What an oracle has no say in

A request is made twice, in sessions that differ in the answers of the oracle alone, and succeeds both times.
The answers change the texts of native queries, the renderings that are kept, the clock, and how often a card
is repaired. They do not change which cards are written, in which order, under which ids and with which
definitions, the texts of native queries apart (`oracle_leaves_structure`).

Both runs are taken apart in the same way, as transfers that end well, and stay `Alike` from one stage to the
next. What is read in a stage is the same in both: the card map, because it is part of what is alike, and the
cards that are fetched, because they are sources, which no transfer without force changes. The steps
in between, of which there may be more in the one run than in the other, are calm.
-/

namespace CardTransfer

open Steps (Keeps)

/-! ### Definitions -/

/-- A definition with an empty text in the place of the text of its native query. -/
def withoutText (definition : Members) : Members :=
  match Members.get? definition "dataset_query" with
  | some (.obj query) => Members.insert definition "dataset_query" (.obj (Verification.withText query ""))
  | _ => definition

/-- Attempts to write the same card to the same place, with the same answer and with definitions that are the
same if the card is structured, and otherwise the same but for the text of the query. -/
structure Attempt.Alike (a b : Attempt) : Prop where
  source : b.source = a.source
  card : b.card = a.card
  replaced : b.replaced = a.replaced
  answer : b.answer = a.answer
  structured : a.card.kind? = some .structured → b.definition = a.definition
  frame : withoutText b.definition = withoutText a.definition

instance : Std.Refl Attempt.Alike := ⟨fun _ => ⟨rfl, rfl, rfl, rfl, fun _ => rfl, rfl⟩⟩

/-- What a native query is without its text does not depend on how it was rendered. -/
theorem NativeDraft.withText_finish (d : NativeDraft) (target : Int) (query : Members)
    (rendered rendered' : String) : Verification.withText (d.finish target query rendered').query "" =
      Verification.withText (d.finish target query rendered).query "" := by
  have hplace (rendered : String) : Verification.withText (d.finish target query rendered).query "" =
      Members.insert (Members.insert query "database" (.int target)) "native" (.obj (Members.insert
        (Members.insert (((nativePart query).members?).getD []) "query" (.str "")) "template-tags"
          (.obj d.tags))) := by
    unfold Verification.withText finish
    simp only [Members.get?_insert_self]
    rw [Members.insert_insert_self]
    unfold newPart
    rw [Members.insert_insert_of_mem Members.mem_insert_self (by decide), Members.insert_insert_self]
  rw [hplace, hplace]

/-- A definition without the text of its query depends on the query without its text. -/
theorem withoutText_congr {card : Card} {query query' definition definition' : Members}
    {suffix collection : Json} (h : card.definition (.obj query) suffix collection = .ok definition)
    (h' : card.definition (.obj query') suffix collection = .ok definition')
    (hquery : Verification.withText query' "" = Verification.withText query "") :
    withoutText definition' = withoutText definition := by
  obtain ⟨name, hname, h⟩ := bind_eq_ok.1 h
  obtain ⟨settings, hsettings, h⟩ := bind_eq_ok.1 h
  obtain ⟨name', hname', h'⟩ := bind_eq_ok.1 h'
  obtain ⟨settings', hsettings', h'⟩ := bind_eq_ok.1 h'
  rw [hname] at hname'
  rw [hsettings] at hsettings'
  cases hname'
  cases hsettings'
  cases h
  cases h'
  show Members.insert _ _ (.obj (Verification.withText query' "")) =
    Members.insert _ _ (.obj (Verification.withText query ""))
  rw [hquery]
  rfl

namespace Session

variable {terms : Terms} {id : Json} {card : Card} {path : Ids} {s s' t t' u : Session}

/-! ### Sessions that are alike -/

/-- Two sessions have the same settings, correspondence and card map, give away the same ids, and have made
attempts and entries that are alike. -/
structure Alike (s t : Session) : Prop where
  settings : t.settings = s.settings
  correspondence : t.correspondence = s.correspondence
  cardObject : Store.cardObject t.directory = Store.cardObject s.directory
  nextId : t.metabase.nextId = s.metabase.nextId
  attempts : List.Forall₂ Attempt.Alike s.journal.attempts t.journal.attempts
  commits : t.journal.commits = s.journal.commits

/-- Calm steps, in the one or the other, leave sessions alike. -/
theorem Alike.calm (h : Alike s t) (hs : Calm s s') (ht : Calm t t') : Alike s' t' where
  settings := by rw [ht.settings, h.settings, hs.settings]
  correspondence := by rw [ht.correspondence, h.correspondence, hs.correspondence]
  cardObject := by
    rw [cardObject_of_renderings ht.renderings, h.cardObject, cardObject_of_renderings hs.renderings]
  nextId := by rw [ht.nextId, h.nextId, hs.nextId]
  attempts := by rw [ht.attempts, hs.attempts]; exact h.attempts
  commits := by rw [ht.commits, h.commits, hs.commits]

theorem Alike.cardMap (h : Alike s t) : Store.cardMap t.directory = Store.cardMap s.directory :=
  Store.cardMap_congr h.cardObject

theorem Alike.cardTarget? (h : Alike s t) (id : Json) :
    Store.cardTarget? t.directory id = Store.cardTarget? s.directory id := by
  unfold Store.cardTarget?
  rw [h.cardMap]

/-! ### Writing a card in both -/

/-- The new query of a card that is due in both sessions is the same, or the same but for its text. -/
theorem Due.query_alike {existing existing' : Option Json} {q q' : NewQuery}
    (h : Alike s t) (hs : Due terms id card s existing q s') (ht : Due terms id card t existing' q' t') :
    (card.kind? = some .structured → q'.query = q.query) ∧
      Verification.withText q'.query "" = Verification.withText q.query "" := by
  obtain ⟨cards, hcards, hquery⟩ := hs.transferred
  obtain ⟨cards', hcards', hquery'⟩ := ht.transferred
  rw [h.cardMap, hcards] at hcards'
  cases hcards'
  by_cases hkind : card.kind? = some .structured
  · obtain ⟨-, -, -, hq⟩ := run_transferQuery_structured hkind hquery
    obtain ⟨-, -, -, hq'⟩ := run_transferQuery_structured hkind hquery'
    have hsame : q'.query = q.query := by
      rw [hq, hq']
      unfold structured
      rw [h.correspondence, h.settings]
    exact ⟨fun _ => hsame, by rw [hsame]⟩
  · obtain ⟨draft, words, rendered, hdraft, -, -, hq⟩ := exists_rendered hkind hquery
    obtain ⟨draft', words', rendered', hdraft', -, -, hq'⟩ := exists_rendered hkind hquery'
    rw [h.correspondence, hdraft] at hdraft'
    cases hdraft'
    refine ⟨fun h => absurd h hkind, ?_⟩
    rw [(unlessUnresolved_eq_ok hq).2, (unlessUnresolved_eq_ok hq').2, h.settings]
    exact draft.withText_finish _ _ _ _

/-- **Writing a card that is due in both sessions leaves them alike.** -/
theorem Due.alike_commit {existing existing' : Option Json} {q q' : NewQuery} {v w s₁ t₁ : Session}
    {report report' : Report} (h : Alike s t) (hs : Due terms id card s existing q v)
    (ht : Due terms id card t existing' q' w) (hvw : Alike v w)
    (hscommit : (commit terms id card existing q).run v = (.ok report, s₁)) (hsok : report.ok = true)
    (htcommit : (commit terms id card existing' q').run w = (.ok report', t₁)) (htok : report'.ok = true) :
    Alike s₁ t₁ := by
  obtain ⟨result, a, target, queries, -, hwritten⟩ := hs.exists_written hscommit hsok
  obtain ⟨result', a', target', queries', -, hwritten'⟩ := ht.exists_written htcommit htok
  obtain ⟨hstructured, hframe⟩ := Due.query_alike h hs ht
  obtain rfl : existing = existing' := by
    have hread := ht.readExisting
    rw [h.cardTarget?, hs.readExisting] at hread
    exact Except.ok.inj hread
  have hreplaced : a'.replaced = a.replaced := by
    rw [hwritten'.tried.replaced, hwritten.tried.replaced]
  -- a new card gets the next id, which is the same in both
  have hplaced : target' = target ∧ t₁.metabase.nextId = s₁.metabase.nextId := by
    have hplaced' := hwritten'.placed
    rw [hreplaced] at hplaced'
    rcases hwritten.placed with ⟨hnone, rfl, hnext⟩ | ⟨hsome, hnext⟩
    · rcases hplaced' with ⟨-, rfl, hnext'⟩ | ⟨hsome, -⟩
      · exact ⟨by rw [hvw.nextId], by rw [hnext, hnext', hvw.nextId]⟩
      · rw [hnone] at hsome
        cases hsome
    · rcases hplaced' with ⟨hnone, -⟩ | ⟨hsome', hnext'⟩
      · rw [hsome] at hnone
        cases hnone
      · rw [hsome] at hsome'
        exact ⟨(Option.some.inj hsome').symm, by rw [hnext, hnext', hvw.nextId]⟩
  obtain ⟨rfl, hnextId⟩ := hplaced
  have hdefined := hwritten.tried.defined
  have hdefined' := hwritten'.tried.defined
  rw [hvw.settings] at hdefined'
  have hattempt : Attempt.Alike a a' := {
    source := by rw [hwritten'.tried.source, hwritten.tried.source]
    card := by rw [hwritten'.tried.card, hwritten.tried.card]
    replaced := hreplaced
    answer := by rw [hwritten'.answer, hwritten.answer]
    structured := fun hkind => by
      rw [hwritten.tried.card] at hkind
      rw [hstructured hkind, hdefined] at hdefined'
      exact (Except.ok.inj hdefined').symm
    frame := withoutText_congr hdefined hdefined' hframe }
  exact {
    settings := by rw [hwritten'.settings, hwritten.settings, hvw.settings]
    correspondence := by rw [hwritten'.correspondence, hwritten.correspondence, hvw.correspondence]
    cardObject := by
      obtain ⟨d, hd, hset⟩ := hwritten.entered
      obtain ⟨d', hd', hset'⟩ := hwritten'.entered
      exact Store.cardObject_setCard_congr (by rw [hd', hd, hvw.cardObject]) hset hset'
    nextId := hnextId
    attempts := by
      rw [hwritten.attempts, hwritten'.attempts]
      exact List.rel_append hvw.attempts (.cons hattempt .nil)
    commits := by rw [hwritten.commits, hwritten'.commits, hvw.commits] }

/-- A live transfer of a card whose providers are done leaves sessions alike. -/
theorem alike_transferReady {report report' : Report} (hlive : terms.dryRun.truthy = false) (h : Alike s t)
    (hs : (transferReady terms id card).run s = (.ok report, s')) (hsok : report.ok = true)
    (ht : (transferReady terms id card).run t = (.ok report', t')) (htok : report'.ok = true) :
    Alike s' t' := by
  rcases transferReady_cases hlive hs hsok with
    ⟨hforce, ⟨target, htarget⟩, hsilent, -⟩ | ⟨existing, q, v, due, hsilent, hcommit⟩
  · rcases transferReady_cases hlive ht htok with ⟨-, -, hsilent', -⟩ | ⟨existing', q', w, due', -, -⟩
    · exact h.calm hsilent.toCalm hsilent'.toCalm
    · have hread := due'.readExisting
      rw [h.cardTarget?, htarget, due'.free hforce] at hread
      cases hread
  · rcases transferReady_cases hlive ht htok with
      ⟨hforce, ⟨target, htarget⟩, -, -⟩ | ⟨existing', q', w, due', hsilent', hcommit'⟩
    · have hread := due.readExisting
      rw [← h.cardTarget?, htarget, due.free hforce] at hread
      cases hread
    · exact due.alike_commit h due' (h.calm hsilent.toCalm hsilent'.toCalm) hcommit hsok hcommit' htok

/-! ### Sources -/

/-- Some ids, the sources, in an instance: the cards under them refer only to sources, and none of them is
given away as long as the next id is not beyond `n`. -/
structure Sources (S : Json → Prop) (m : Metabase.Instance) (n : Int) : Prop where
  closed : ∀ {id payload card ids i}, S id → m.cards.get? id = some payload →
    Card.ofPayload payload = .ok card → card.findReferences = .ok ids → i ∈ ids → S i
  apart : ∀ {id k}, S id → id.key = .whole k → k < m.nextId ∨ n ≤ k

variable {S : Json → Prop} {m : Metabase.Instance} {n : Int}

/-- Two sessions that are alike, and that have come from the same instance without changing a source. -/
structure Twins (m : Metabase.Instance) (s t : Session) : Prop extends Alike s t where
  left : ∀ i, m.Leaves i s.metabase
  right : ∀ i, m.Leaves i t.metabase

/-- A source that is fetched is the card that was there at the beginning. -/
theorem Sources.exists_payload (hS : Sources S m n) (hid : S id) (hleaves : m.Leaves id s.metabase)
    (hn : s.metabase.nextId ≤ n) (h : (fetch id).run s = (.ok card, s')) :
    ∃ payload, m.cards.get? id = some payload ∧ Card.ofPayload payload = .ok card := by
  obtain ⟨payload, hpayload, hcard⟩ := exists_payload_of_fetch h
  refine ⟨payload, ?_, hcard⟩
  rw [← hleaves.card fun k hk => (hS.apart hid hk).imp_right fun hle => by omega]
  exact hpayload

/-- What transferring cards without force, in two sessions, does not change. -/
structure Parallel (S : Json → Prop) (m : Metabase.Instance) (n : Int) (transfer : Json → Action Outcome) :
    Prop where
  leaves : ∀ i id, Keeps (Leaves i) (transfer id)
  alike : ∀ {id s t s' t' o o'}, S id → Twins m s t → (transfer id).run s = (.ok o, s') → o.ok = true →
    (transfer id).run t = (.ok o', t') → o'.ok = true → s'.metabase.nextId ≤ n → Alike s' t'

theorem Twins.of_leaves (h : Twins m s t) (halike : Alike s' t') (hs : ∀ i, Leaves i s s')
    (ht : ∀ i, Leaves i t t') : Twins m s' t' :=
  ⟨halike, fun i => (h.left i).trans (hs i), fun i => (h.right i).trans (ht i)⟩

/-- Where no card stops the transfer of some cards in turn, each that is not in the card map is transferred. -/
theorem transferProviders_cons {deadline : Option Number} {transfer : Json → Action Outcome}
    {mapped : IdMap Json} {ids : Ids} {outcomes result : List Outcome}
    (h : (transferProviders deadline transfer mapped (id :: ids) outcomes).run s =
      (.ok (result, none), s')) :
    mapped.has id = true ∧
      (transferProviders deadline transfer mapped ids outcomes).run s = (.ok (result, none), s') ∨
    mapped.has id = false ∧ ∃ o u, (transfer id).run s = (.ok o, u) ∧ o.ok = true ∧
      (transferProviders deadline transfer mapped ids (outcomes ++ [o])).run u =
        (.ok (result, none), s') := by
  unfold transferProviders at h
  split at h
  · rename_i hmapped
    exact .inl ⟨hmapped, h⟩
  rename_i hmapped
  rw [Bool.not_eq_true] at hmapped
  rw [Steps.run_get_bind] at h
  split at h
  · cases h
  obtain ⟨o, u, htransfer, h⟩ := Steps.run_bind_eq_ok.1 h
  split at h
  · rename_i hok
    exact .inr ⟨hmapped, o, u, htransfer, hok, h⟩
  · cases h

/-- Transferring sources in turn leaves two sessions alike. -/
theorem Parallel.transferProviders {transfer : Json → Action Outcome} (hp : Parallel S m n transfer)
    {deadline : Option Number} {mapped : IdMap Json} {ids : Ids} (hids : ∀ i ∈ ids, S i)
    {outcomes outcomes' result result' : List Outcome} (h : Twins m s t)
    (hs : (Session.transferProviders deadline transfer mapped ids outcomes).run s = (.ok (result, none), s'))
    (ht : (Session.transferProviders deadline transfer mapped ids outcomes').run t =
      (.ok (result', none), t'))
    (hn : s'.metabase.nextId ≤ n) : Twins m s' t' := by
  induction ids generalizing s t outcomes outcomes' with
  | nil =>
    cases hs
    cases ht
    exact h
  | cons id ids ih =>
    have hrest := List.forall_mem_of_forall_mem_cons hids
    rcases transferProviders_cons hs with ⟨hmapped, hs⟩ | ⟨hmapped, o, u, hso, hok, hs⟩
    · rcases transferProviders_cons ht with ⟨-, ht⟩ | ⟨hmapped', -⟩
      · exact ih hrest h hs ht
      · rw [hmapped] at hmapped'
        cases hmapped'
    · rcases transferProviders_cons ht with ⟨hmapped', -⟩ | ⟨-, o', w, hto, hok', ht⟩
      · rw [hmapped] at hmapped'
        cases hmapped'
      · have hsu (i : Json) : Leaves i s u := by
          have hleaves := hp.leaves i id s
          rw [hso] at hleaves
          exact hleaves
        have htw (i : Json) : Leaves i t w := by
          have hleaves := hp.leaves i id t
          rw [hto] at hleaves
          exact hleaves
        have hus : u.metabase.nextId ≤ s'.metabase.nextId := by
          have hleaves := keeps_transferProviders (hp.leaves .null) deadline mapped ids (outcomes ++ [o]) u
          rw [hs] at hleaves
          exact hleaves.later
        have halike : Alike u w :=
          hp.alike (hids id (List.mem_cons_self ..)) h hso hok hto hok' (Int.le_trans hus hn)
        exact ih hrest (h.of_leaves halike hsu htw) hs ht

/-! ### Whole transfers -/

/-- Transferring a card gives away at most ids from the next one on. -/
theorem later_transferReady {report : Report} (hlive : terms.dryRun.truthy = false)
    (h : (transferReady terms id card).run s = (.ok report, s')) (hok : report.ok = true) :
    s.metabase.nextId ≤ s'.metabase.nextId := by
  rcases transferReady_cases hlive h hok with ⟨-, -, hsilent, -⟩ | ⟨existing, q, u, due, hsilent, hcommit⟩
  · exact Int.le_of_eq hsilent.nextId.symm
  · obtain ⟨result, a, target, queries, -, hwritten⟩ := due.exists_written hcommit hok
    have hnext := hsilent.nextId
    rcases hwritten.placed with ⟨-, -, hplaced⟩ | ⟨-, hplaced⟩ <;> omega

/-- **The live transfer of a source leaves two sessions alike**, forced or not, if those of the cards that it
refers to do. -/
theorem Parallel.transferVia {transfer : Json → Action Outcome} (hp : Parallel S m n transfer)
    (hS : Sources S m n) (hlive : terms.dryRun.truthy = false) (hid : S id) (h : Twins m s t)
    {o o' : Outcome} (hs : (Session.transferVia terms transfer path id).run s = (.ok o, s'))
    (hok : o.ok = true) (ht : (Session.transferVia terms transfer path id).run t = (.ok o', t'))
    (hok' : o'.ok = true) (hn : s'.metabase.nextId ≤ n) : Alike s' t' := by
  obtain ⟨⟨card, start, mapped, ids, fresh, fetched, supported, readMapped, found⟩, u, hproviders, hready⟩ :=
    exists_ready_via hs hok
  obtain ⟨⟨card', start', mapped', ids', fresh', fetched', supported', readMapped', found'⟩, u', hproviders',
    hready'⟩ := exists_ready_via ht hok'
  unfold Fetched.transferProviders at hproviders hproviders'
  simp only at hproviders hproviders' hready hready'
  have hfetch := calm_fetch id s
  have hfetch' := calm_fetch id t
  rw [fetched] at hfetch
  rw [fetched'] at hfetch'
  -- ids are given away in this order: before, for the cards referred to, for the card
  have hstart : start.metabase.nextId ≤ u.metabase.nextId := by
    have hleaves := keeps_transferProviders (hp.leaves .null) terms.deadline mapped ids [] start
    rw [hproviders] at hleaves
    exact hleaves.later
  have hu : u.metabase.nextId ≤ n := Int.le_trans (later_transferReady hlive hready hok) hn
  have hsn : s.metabase.nextId ≤ n := by
    rw [← hfetch.nextId]
    exact Int.le_trans hstart hu
  -- what is read is the same in both
  obtain ⟨payload, hpayload, hcard⟩ := hS.exists_payload hid (h.left id) hsn fetched
  obtain ⟨payload', hpayload', hcard'⟩ := hS.exists_payload hid (h.right id) (h.nextId ▸ hsn) fetched'
  rw [hpayload] at hpayload'
  cases hpayload'
  rw [hcard] at hcard'
  cases hcard'
  rw [found] at found'
  cases found'
  have halike : Alike start start' := h.toAlike.calm hfetch hfetch'
  rw [halike.cardMap, readMapped] at readMapped'
  cases readMapped'
  have hstarts : Twins m start start' :=
    h.of_leaves halike (fun _ => .of_calm _ _ hfetch) fun _ => .of_calm _ _ hfetch'
  have htwins : Twins m u u' :=
    hp.transferProviders (fun i hi => hS.closed hid hpayload hcard found hi) hstarts hproviders hproviders' hu
  exact alike_transferReady hlive htwins.toAlike hready hok hready' hok'

/-- **The live transfer of a source without force leaves two sessions alike**, over any number of levels. -/
theorem parallel_transferCard (hS : Sources S m n) (hlive : terms.dryRun.truthy = false)
    (hforce : terms.force = false) (levels : Nat) (path : Ids) :
    Parallel S m n (transferCard levels terms path) := by
  refine ⟨fun i id => leaves_transferCard hforce path id, ?_⟩
  induction levels generalizing terms path with
  | zero =>
    intro id s t s' t' o o' hid h hs
    cases hs
  | succ levels ih =>
    intro id s t s' t' o o' hid h hs hok ht hok' hn
    have hp : Parallel S m n (transferCard levels terms.forProviders (path.add id)) :=
      ⟨fun i id => leaves_transferCard rfl _ id,
        fun {_ _ _ _ _ _ _} => @ih terms.forProviders hlive rfl (path.add id) _ _ _ _ _ _ _⟩
    exact hp.transferVia hS hlive hid h hs hok ht hok' hn

/-! ### Requests -/

/-- A transfer adds to the attempts. -/
theorem exists_attempts_transferCard {levels : Nat} {e : Except Fault Outcome}
    (h : (transferCard levels terms path id).run s = (e, t)) :
    ∃ as, t.journal.attempts = s.journal.attempts ++ as := by
  have hkeeps : Steps.Keeps (Recorded terms.deadline) (transferCard levels terms path id) :=
    recorded_transferCard rfl levels path id
  have hrecorded := hkeeps s
  rw [h] at hrecorded
  obtain ⟨as, -, -, has, -⟩ := hrecorded.told
  exact ⟨as, has⟩

/-- A session and the same session with another list of answers are twins. -/
theorem Twins.of_oracle (first second : Option (List Oracle.Answer)) :
    Twins s.metabase { s with oracle := first } { s with oracle := second } where
  settings := rfl
  correspondence := rfl
  cardObject := rfl
  nextId := rfl
  attempts := List.forall₂_same.2 fun a _ => Std.Refl.refl a
  commits := rfl
  left _ := Std.Refl.refl _
  right _ := Std.Refl.refl _

/-- **An oracle has no say in what is written.** A live request for a source, made in one session with two
lists of answers of the oracle, succeeds both times. If the sources refer only to sources, and no id that is
given away is a source, then the same cards are written in the same order, with the same ids and the same
definitions, the texts of native queries apart, and the stored card map is the same in the end. -/
theorem oracle_leaves_structure {r : Request} {first second : Option (List Oracle.Answer)} {o o' : Outcome}
    (hlive : r.dryRun.truthy = false) (hcard : S r.card) (hS : Sources S s.metabase t.metabase.nextId)
    (h : (transfer r).run { s with oracle := first } = (.ok o, t)) (hok : o.ok = true)
    (h' : (transfer r).run { s with oracle := second } = (.ok o', t')) (hok' : o'.ok = true) :
    ∃ as as', t.journal.attempts = s.journal.attempts ++ as ∧ t'.journal.attempts = s.journal.attempts ++ as' ∧
      List.Forall₂ Attempt.Alike as as' ∧ t'.journal.commits = t.journal.commits ∧
        Store.cardObject t'.directory = Store.cardObject t.directory := by
  rcases transfer_store_cases h with ⟨-, f, hf⟩ | ⟨terms, path, e, u, d, hterms, hrun, rfl, hd, ho⟩
  · cases hf
  rcases transfer_store_cases h' with ⟨-, f, hf⟩ | ⟨terms', path', e', u', d', hterms', hrun', rfl, hd', ho'⟩
  · cases hf
  obtain ⟨x, rfl, hx⟩ : ∃ x, e = .ok x ∧ x.ok = true :=
    ⟨_, eq_ok_of_outcomeOf (ho o rfl ▸ hok), ho o rfl ▸ hok⟩
  obtain ⟨x', rfl, hx'⟩ : ∃ x, e' = .ok x ∧ x.ok = true :=
    ⟨_, eq_ok_of_outcomeOf (ho' o' rfl ▸ hok'), ho' o' rfl ▸ hok'⟩
  -- the terms are set without the oracle
  obtain ⟨rfl, rfl⟩ : terms' = terms ∧ path' = path :=
    Prod.mk.injEq .. ▸ Except.ok.inj (hterms'.symm.trans hterms)
  obtain ⟨deadline, rfl⟩ := Request.eq_of_terms hterms
  have hlive' : (Terms.mk r.dryRun r.force r.collection deadline).forProviders.dryRun.truthy = false := hlive
  have hforce : (Terms.mk r.dryRun r.force r.collection deadline).forProviders.force = false := rfl
  have hp := parallel_transferCard hS hlive' hforce (s.metabase.cards.length + 999) (path'.add r.card)
  have halike : Alike u u' :=
    hp.transferVia hS hlive hcard (.of_oracle first second) hrun hx hrun' hx' (Int.le_refl _)
  obtain ⟨as, has⟩ := exists_attempts_transferCard hrun
  obtain ⟨as', has'⟩ := exists_attempts_transferCard hrun'
  refine ⟨as, as', has, has', ?_, halike.commits, by rw [hd', halike.cardObject, hd]⟩
  have hattempts := halike.attempts
  rw [has, has'] at hattempts
  simpa only [List.drop_left] using List.forall₂_drop s.journal.attempts.length hattempts

/-- Card 7 refers to the native card 8, which does not run at first. -/
def unwellPair : Session :=
  let native : Json × Json := (.int 8, .obj [("id", .int 8), ("name", .str "A"), ("dataset_query", .obj [
    ("type", .str "native"), ("native", .obj [("query", .str "SELECT 1")])])])
  let s := smallSession [structuredCard 7 (.str "card__8"), native] ⟨[]⟩
  { s with
    settings := { s.settings with repairAttempts := 3 }
    metabase := { s.metabase with
      courses := [(.run "1001", [.answered (.obj [("error", .str "no")])])] } }

theorem sources_unwellPair (n : Int) : Sources (fun i => i = .int 7 ∨ i = .int 8) unwellPair.metabase n where
  closed := by
    have hids (expected : Ids) {id payload : Json} {card : Card} {ids : Ids}
        (hpayload : unwellPair.metabase.cards.get? id = some payload)
        (hcard : Card.ofPayload payload = .ok card) (h : card.findReferences = .ok ids)
        (hexpected : ((unwellPair.metabase.cards.get? id).bind fun p =>
          (Card.ofPayload p >>= Card.findReferences).toOption) = some expected) : ids = expected := by
      rw [hpayload, Option.bind_some, bind_eq_ok.2 ⟨card, hcard, h⟩] at hexpected
      exact Option.some.inj hexpected
    rintro id payload card ids i (rfl | rfl) hpayload hcard h hi
    · rw [hids [.int 8] hpayload hcard h (by rfl)] at hi
      exact .inr (List.mem_singleton.1 hi)
    · rw [hids [] hpayload hcard h (by rfl)] at hi
      cases hi
  apart := by
    rintro id k (rfl | rfl) hk <;> cases hk <;> exact .inl (by decide)

/-- With an oracle that knows a correction card 8 is repaired, without an oracle it is not. -/
theorem oracle_leaves_structure_unwellPair : ∃ o t o' t',
    (transfer (liveRequest 7 false)).run { unwellPair with oracle := none } = (.ok o, t) ∧ o.ok = true ∧
      (transfer (liveRequest 7 false)).run { unwellPair with oracle := some [.text "SELECT 2"] } =
        (.ok o', t') ∧ o'.ok = true ∧ t'.journal.entries.length = t.journal.entries.length + 2 ∧
    ∃ as as', t.journal.attempts = unwellPair.journal.attempts ++ as ∧
      t'.journal.attempts = unwellPair.journal.attempts ++ as' ∧ List.Forall₂ Attempt.Alike as as' ∧
        t'.journal.commits = t.journal.commits ∧
          Store.cardObject t'.directory = Store.cardObject t.directory := by
  obtain ⟨o, ho, hok⟩ := exists_ok_of_toOption (f := Outcome.ok) (b := true)
    (x := ((transfer (liveRequest 7 false)).run { unwellPair with oracle := none }).1) (by decide +kernel)
  obtain ⟨o', ho', hok'⟩ := exists_ok_of_toOption (f := Outcome.ok) (b := true)
    (x := ((transfer (liveRequest 7 false)).run
      { unwellPair with oracle := some [.text "SELECT 2"] }).1) (by decide +kernel)
  exact ⟨o, _, o', _, Prod.ext ho rfl, hok, Prod.ext ho' rfl, hok', by decide +kernel,
    oracle_leaves_structure rfl (.inl rfl) (sources_unwellPair _) (Prod.ext ho rfl) hok
      (Prod.ext ho' rfl) hok'⟩

end Session
end CardTransfer
