import CardTransfer.Proofs.Transfer.ProvidersFirst
import Mathlib.Data.List.Chain

/-!
# Cards are created once

Live requests one after another create at most one card for each card of the source, and lose none of
them: what was created is in the card map when the request ends, and stays there (`created_once`). A
request that ends well names the card that the map has for the one that was asked for; one that fails
leaves its entry alone.

The entry of a card is looked up after the transfer of its providers, right before the card is written,
and the card is on the path meanwhile. So neither a provider nor another request can have created it
by then without the map saying so, and its entry changes only if it is written itself.

The card map must be plain at the beginning. A map that has two entries for a card may say something
else of it once another card has been entered (`ambiguousCall_not_truthful`).
-/

namespace CardTransfer
namespace Session

variable {terms : Terms} {path : Ids} {id : Json} {card : Card} {s t u : Session}

/-! ### The story of a transfer -/

/-- What a live transfer makes of a plain card map: it stays plain, and the attempts of the transfer
tell how it changes. None of them is for a card on the path. -/
structure Telling (path : Ids) (s t : Session) : Prop where
  grown : Grown s t
  plain : ∀ m', Store.cardMap t.directory = .ok m' → Store.PlainMap s.directory →
    Store.PlainMap t.directory
  story : ∀ m m', Store.cardMap s.directory = .ok m → Store.cardMap t.directory = .ok m' →
    Store.PlainMap s.directory → ∃ new, t.journal.attempts = s.journal.attempts ++ new ∧
      Story m new m' ∧ ∀ a ∈ new, path.has a.source = false

theorem Telling.of_quiet (h : Quiet s t) : Telling path s t where
  grown := .of_quiet h
  plain _ _ hplain := hplain.congr h.cardObject
  story m m' hm hm' _ := by
    rw [Store.cardMap_congr h.cardObject, hm] at hm'
    cases hm'
    exact ⟨[], h.attempts.trans (List.append_nil _).symm, .done m, fun _ h => nomatch h⟩

theorem Telling.trans (h₁ : Telling path s t) (h₂ : Telling path t u) : Telling path s u where
  grown := h₁.grown.trans h₂.grown
  plain m₂ hm₂ hplain := by
    obtain ⟨m₁, hm₁, -⟩ := h₂.grown.ids m₂ hm₂
    exact h₂.plain m₂ hm₂ (h₁.plain m₁ hm₁ hplain)
  story m m₂ hm hm₂ hplain := by
    obtain ⟨m₁, hm₁, -⟩ := h₂.grown.ids m₂ hm₂
    obtain ⟨new₁, hnew₁, hstory₁, hpath₁⟩ := h₁.story m m₁ hm hm₁ hplain
    obtain ⟨new₂, hnew₂, hstory₂, hpath₂⟩ := h₂.story m₁ m₂ hm₁ hm₂ (h₁.plain m₁ hm₁ hplain)
    refine ⟨new₁ ++ new₂, by rw [hnew₂, hnew₁, List.append_assoc], hstory₁.append hstory₂,
      fun a ha => ?_⟩
    rcases List.mem_append.1 ha with ha | ha
    · exact hpath₁ a ha
    · exact hpath₂ a ha

/-- A path without one of its cards tells less. -/
theorem Telling.of_add (h : Telling (path.add id) s t) : Telling path s t where
  grown := h.grown
  plain := h.plain
  story m m' hm hm' hplain := by
    obtain ⟨new, hnew, hstory, hpath⟩ := h.story m m' hm hm' hplain
    refine ⟨new, hnew, hstory, fun a ha => ?_⟩
    have hadd := hpath a ha
    rw [Ids.has_add, Bool.or_eq_false_iff] at hadd
    exact hadd.1

/-- A card on the path keeps its entry. -/
theorem Telling.get?_eq (h : Telling (path.add id) s t) {m m' : IdMap Json}
    (hm : Store.cardMap s.directory = .ok m) (hm' : Store.cardMap t.directory = .ok m')
    (hplain : Store.PlainMap s.directory) : m'.get? id = m.get? id := by
  obtain ⟨new, -, hstory, hpath⟩ := h.story m m' hm hm' hplain
  refine hstory.get?_eq fun a ha _ _ hk => ?_
  have hoff := hpath a ha
  rw [Ids.has_add, (Json.sameId_iff _ _).2 hk, Bool.or_true] at hoff
  cases hoff

/-- The card to be replaced is the one in the card map. -/
theorem Draft.Tried.replaced_eq {d : Draft terms id card s} {a : Attempt} (h : d.Tried a) :
    a.replaced = d.existing := by
  rw [h.replaced]
  split
  · rfl
  · rename_i hforce
    rw [Bool.not_eq_true] at hforce
    exact (d.free hforce).symm

/-- The card that takes the place of another one is an integer, and the one that was to be replaced. -/
theorem Draft.target_eq (d : Draft terms id card s) {a : Attempt} (htried : d.Tried a)
    {target : Json} (hanswer : a.answer = .ok target) :
    (∃ k, target = .int k) ∧ (a.replaced = none → d.cards.get? id = none) ∧
      ∀ v, d.cards.get? id = some v → v = target := by
  have hexisting := Store.get?_of_cardTarget? d.readExisting d.readCards
  rw [← htried.replaced_eq] at hexisting
  rcases htried.target hanswer with hold | ⟨hnew, hint⟩
  · rw [hold] at hexisting
    obtain ⟨ms, -, ho, -, -⟩ := Store.cardMap_eq_ok d.readCards
    obtain ⟨n, k, -, -, rfl⟩ := Store.holds_of_get? d.readCards ho hexisting
    refine ⟨⟨k, rfl⟩, fun hnone => ?_, fun v hv => ?_⟩
    · rw [hold] at hnone
      cases hnone
    · rw [hexisting] at hv
      exact (Option.some.inj hv).symm
  · rw [hnew] at hexisting
    refine ⟨hint, fun _ => hexisting, fun v hv => ?_⟩
    rw [hexisting] at hv
    cases hv

/-- How stages 3 to 6 change a plain card map. -/
theorem telling_ready {r : Except Fault Report} (hlive : terms.dryRun.truthy = false)
    (hint : id.isInt = true) (hfresh : path.has id = false) (hgrown : Grown s t)
    (h : ReadyRun terms id card s (r, t)) :
    Telling path s t ∧
      ((∀ report, r = .ok report → report.ok = false) →
        Store.cardObject t.directory = Store.cardObject s.directory) ∧
      ∀ report m', r = .ok report → report.ok = true → Store.cardMap t.directory = .ok m' →
        Store.PlainMap s.directory → ∃ result target, report = .transferred result ∧
          result.newId = some target ∧ m'.get? id = some target := by
  cases h with
  | unwritten idle failed =>
    refine ⟨.of_quiet idle.toQuiet, fun _ => idle.cardObject, fun report m' hr hok => ?_⟩
    rw [failed report hr] at hok
    cases hok
  | before unforced read idle newId =>
    refine ⟨.of_quiet idle.toQuiet, fun _ => idle.cardObject, fun report m' hr hok hm' _ => ?_⟩
    cases hr
    rw [Store.cardMap_congr idle.cardObject] at hm'
    exact ⟨_, _, rfl, newId, Store.get?_of_cardTarget? read hm'⟩
  | dry dry idle =>
    rw [hlive] at dry
    cases dry
  | refused d tried answer attempted failed =>
    refine ⟨⟨hgrown, fun _ _ h => h.congr attempted.cardObject, ?_⟩, fun _ => attempted.cardObject, ?_⟩
    · intro m m' hm hm' hplain
      rw [Store.cardMap_congr attempted.cardObject, hm] at hm'
      cases hm'
      refine ⟨_, attempted.attempts, .refused ?_ answer (.done m), fun a ha => ?_⟩
      · exact (Store.cardMap_congr attempted.store).trans hm
      · rw [List.mem_singleton.1 ha, tried.source]
        exact hfresh
    · intro report m' hr hok
      rw [failed report hr] at hok
      cases hok
  | written d tried answer attempted set settings correspondence attempts commits newId =>
    rename_i a w target result
    obtain ⟨⟨k, rfl⟩, hnew, hold⟩ := d.target_eq tried answer
    have hcards := (Store.cardMap_congr attempted.cardObject).trans d.readCards
    -- the entry of the card is all that changes
    have hset {m' : IdMap Json} (hm' : Store.cardMap t.directory = .ok m')
        (hplain : Store.PlainMap s.directory) : Store.PlainMap t.directory ∧
          ∀ i, m'.get? i = if i.key = id.key then some (.int k) else d.cards.get? i := by
      obtain ⟨n, rfl⟩ := Store.exists_int_of_setCard set hcards hm' hint
      exact Store.get?_setCard (hplain.congr attempted.cardObject) set hcards hm' hold
    refine ⟨⟨hgrown, fun m' hm' hplain => (hset hm' hplain).1, ?_⟩, fun hfail => ?_, ?_⟩
    · intro m m' hm hm' hplain
      rw [d.readCards] at hm
      cases hm
      refine ⟨_, attempts.trans attempted.attempts, .written ?_ answer ?_ ?_ ?_ (.done m'), ?_⟩
      · exact (Store.cardMap_congr attempted.store).trans d.readCards
      · rw [tried.source]
        exact hnew
      · rw [tried.source]
        exact hold
      · rw [tried.source]
        exact (hset hm' hplain).2
      · intro b hb
        rw [List.mem_singleton.1 hb, tried.source]
        exact hfresh
    · cases hfail _ rfl
    · intro report m' hr _ hm' hplain
      cases hr
      exact ⟨_, _, rfl, newId, by rw [(hset hm' hplain).2, if_pos rfl]⟩

/-- Transferring the providers of a card tells the story of the map if the transfer of each of them does.
The card is on the path for them. -/
theorem telling_providers {transfer : Json → Action Outcome}
    (htransfer : ∀ i v o w, i.isInt = true → (transfer i).run v = (o, w) → Telling (path.add id) v w)
    (g : Fetched path id s) {p : Except Fault (List Outcome × Option Stop)}
    (hg : g.transferProviders terms transfer = (p, u)) : Telling (path.add id) s u :=
  (run_transferProviders (P := Telling (path.add id) s) (D := fun _ _ => True)
    (fun i hi v o w hv hrun =>
      ⟨hv.trans (htransfer i v o w (Card.isInt_of_mem_findReferences g.found hi) hrun),
        fun _ _ _ => trivial, fun _ _ => trivial⟩)
    (.of_quiet g.idle.toQuiet) hg).1

/-- **How a live transfer of a card changes a plain card map.** The attempts in it tell the story of
the map. If it fails, the entry of the card is as it was; if it ends well, the map has the card that
its report names. The induction is on the levels. -/
theorem telling_transferCard {n : Nat} {r : Except Fault Outcome} (hlive : terms.dryRun.truthy = false)
    (hint : id.isInt = true) (h : (transferCard n terms path id).run s = (r, t)) :
    Telling path s t ∧
      ((∀ o, r = .ok o → o.ok = false) → ∀ m m', Store.cardMap s.directory = .ok m →
        Store.cardMap t.directory = .ok m' → Store.PlainMap s.directory → m'.get? id = m.get? id) ∧
      ∀ o m', r = .ok o → o.ok = true → Store.cardMap t.directory = .ok m' →
        Store.PlainMap s.directory → ∃ result target, o.report = .transferred result ∧
          result.newId = some target ∧ m'.get? id = some target := by
  induction n generalizing terms path id s t r with
  | zero =>
    cases h
    refine ⟨.of_quiet (Std.Refl.refl s), fun _ m m' hm hm' _ => ?_, fun _ _ h => nomatch h⟩
    rw [hm] at hm'
    cases hm'
    rfl
  | succ n ih =>
    have hlive' : terms.forProviders.dryRun.truthy = false := hlive
    have hrun := cardRun terms (transferCard n terms.forProviders (path.add id)) path id s
    change (transferVia terms _ path id).run s = _ at h
    rw [h] at hrun
    -- the providers, for which the card is on the path
    have hproviders (g : Fetched path id s) {p : Except Fault (List Outcome × Option Stop)}
        {u : Session}
        (hg : g.transferProviders terms (transferCard n terms.forProviders (path.add id)) = (p, u)) :
        Telling (path.add id) s u :=
      telling_providers (fun _ _ _ _ hi hrun => (ih hlive' hi hrun).1) g hg
    cases hrun with
    | left idle failed =>
      refine ⟨.of_quiet idle.toQuiet, fun _ m m' hm hm' _ => ?_, fun o _ ho hok => ?_⟩
      · rw [Store.cardMap_congr idle.cardObject, hm] at hm'
        cases hm'
        rfl
      · rw [failed o ho] at hok
        cases hok
    | stopped g run stop failed =>
      refine ⟨(hproviders g run).of_add, fun _ m m' => (hproviders g run).get?_eq, fun o _ ho hok => ?_⟩
      rw [failed o ho] at hok
      cases hok
    | ready g run ready =>
      have htold := hproviders g run
      have hheld := (grown_providers (fun _ _ _ _ => grown_transferCard hlive') g run).2 _ rfl
      have hgrown := (grown_ready hlive ready g.found hheld).1
      obtain ⟨hready, hfail, hsuccess⟩ := telling_ready hlive hint g.fresh hgrown ready
      refine ⟨htold.of_add.trans hready, fun hfailed m m' hm hm' hplain => ?_,
        fun o m' ho hok hm' hplain => ?_⟩
      · refine htold.get?_eq hm ?_ hplain
        rw [← hm']
        refine (Store.cardMap_congr (hfail fun report hr => ?_)).symm
        exact hfailed _ (map_eq_ok.2 ⟨report, hr, rfl⟩)
      · obtain ⟨report, hr, rfl⟩ := map_eq_ok.1 ho
        obtain ⟨m₁, hm₁, -⟩ := hgrown.ids m' hm'
        exact hsuccess report m' hr hok hm' (htold.plain m₁ hm₁ hplain)

/-! ### One request -/

/-- A request that is made in a session. -/
structure Call where
  session : Session
  request : Request

namespace Call

/-- What comes of a request. -/
def outcome (c : Call) : Except Fault Outcome := ((transfer c.request).run c.session).1

/-- The session after a request. -/
def after (c : Call) : Session := ((transfer c.request).run c.session).2

/-- The attempts to write cards that are made for a request. -/
def attempts (c : Call) : List Attempt :=
  c.after.journal.attempts.drop c.session.journal.attempts.length

/-- The store when a request begins, at each attempt to write a card, and when it ends. -/
def stores (c : Call) : List Directory :=
  c.session.directory :: (c.attempts.map (·.store) ++ [c.after.directory])

/-- A live request for a card whose id is an integer, such that the card map can be read when it begins
and when it ends. -/
structure Fair (c : Call) : Prop where
  live : c.request.dryRun.truthy = false
  integer : ∃ n, c.request.card = .int n
  before : ∃ m, Store.cardMap c.session.directory = .ok m
  after : ∃ m, Store.cardMap c.after.directory = .ok m

/-- A report that names a card as the counterpart of the one that was asked for tells what the card map
has after the request; a report of a failure leaves the entry of the card as it was. -/
def Truthful (c : Call) : Prop := ∀ o m m', c.outcome = .ok o →
  Store.cardMap c.session.directory = .ok m → Store.cardMap c.after.directory = .ok m' →
  if o.ok then ∃ result target, o.report = .transferred result ∧ result.newId = some target ∧
    m'.get? c.request.card = some target
  else m'.get? c.request.card = m.get? c.request.card

/-- The attempts of a request tell the story of a plain card map. -/
theorem story (c : Call) (hc : c.Fair) (hplain : Store.PlainMap c.session.directory)
    {m m' : IdMap Json} (hm : Store.cardMap c.session.directory = .ok m)
    (hm' : Store.cardMap c.after.directory = .ok m') :
    Store.PlainMap c.after.directory ∧ Story m c.attempts m' ∧ c.Truthful := by
  obtain ⟨n, hn⟩ := hc.integer
  have hint : c.request.card.isInt = true := by
    rw [hn]
    rfl
  rcases transfer_cases (Prod.eta ((transfer c.request).run c.session)).symm with ⟨hsame, f, hf⟩ | h
  · change c.after = c.session at hsame
    rw [hsame, hm] at hm'
    cases hm'
    refine ⟨by rwa [hsame], ?_, fun o _ _ ho => ?_⟩
    · unfold attempts
      rw [hsame, List.drop_length]
      exact .done m
    · change c.outcome = _ at hf
      rw [hf] at ho
      cases ho
  obtain ⟨deadline, path, o, u, hrun, hidle, houtcome⟩ := h
  change Idle u c.after at hidle
  obtain ⟨htold, hfailed, hsuccess⟩ := telling_transferCard hc.live hint hrun
  have hu : Store.cardMap u.directory = .ok m' := (Store.cardMap_congr hidle.cardObject).symm.trans hm'
  obtain ⟨new, hnew, hstory, -⟩ := htold.story m m' hm hu hplain
  refine ⟨(htold.plain m' hu hplain).congr hidle.cardObject, ?_, fun x k k' hx hk hk' => ?_⟩
  · unfold attempts
    rw [hidle.attempts, hnew, List.drop_left]
    exact hstory
  rw [hm] at hk
  rw [hm'] at hk'
  cases hk
  cases hk'
  obtain rfl := houtcome x hx
  cases o with
  | error f => exact hfailed (fun _ h => nomatch h) m m' hm hu hplain
  | ok o =>
    change if o.ok = true then _ else _
    split
    · rename_i hok
      exact hsuccess o m' rfl hok hu hplain
    · rename_i hok
      refine hfailed (fun o' ho' => ?_) m m' hm hu hplain
      cases ho'
      rwa [Bool.not_eq_true] at hok

end Call

/-! ### Requests one after another -/

/-- Fair requests one after another, with a card map that is plain at the beginning. Between two
requests the stored card map is left alone; all else may change. -/
structure Successive (calls : List Call) : Prop where
  fair : ∀ c ∈ calls, c.Fair
  untouched : calls.IsChain fun c c' =>
    Store.cardObject c'.session.directory = Store.cardObject c.after.directory
  plain : ∀ c ∈ calls.head?, Store.PlainMap c.session.directory

variable {calls : List Call}

theorem Successive.tail {c : Call} (h : Successive (c :: calls)) : Successive calls := by
  have hc := h.fair c (List.mem_cons_self ..)
  obtain ⟨m, hm⟩ := hc.before
  obtain ⟨m', hm'⟩ := hc.after
  obtain ⟨hplain, -, -⟩ := c.story hc (h.plain c rfl) hm hm'
  obtain ⟨hhead, htail⟩ := List.isChain_cons.1 h.untouched
  exact ⟨fun b hb => h.fair b (List.mem_cons_of_mem _ hb), htail,
    fun b hb => hplain.congr (hhead b hb)⟩

/-- The card map is plain whenever a request begins. -/
theorem Successive.plain_of_mem {c : Call} (h : Successive calls) (hc : c ∈ calls) :
    Store.PlainMap c.session.directory := by
  induction calls with
  | nil => cases hc
  | cons b calls ih =>
    rcases List.mem_cons.1 hc with rfl | hc
    · exact h.plain c rfl
    · exact ih h.tail hc

/-- The attempts of all requests tell one story. -/
theorem Successive.story {d : Directory} {m : IdMap Json} (h : Successive calls)
    (hd : ∀ c ∈ calls.head?, Store.cardObject c.session.directory = Store.cardObject d)
    (hm : Store.cardMap d = .ok m) : ∃ m', Story m (calls.flatMap Call.attempts) m' := by
  induction calls generalizing d m with
  | nil => exact ⟨m, .done m⟩
  | cons c calls ih =>
    have hc := h.fair c (List.mem_cons_self ..)
    obtain ⟨m₁, hm₁⟩ := hc.after
    have hstart := (Store.cardMap_congr (hd c rfl)).trans hm
    obtain ⟨-, hstory, -⟩ := c.story hc (h.plain c rfl) hstart hm₁
    obtain ⟨m', hrest⟩ := ih h.tail (List.isChain_cons.1 h.untouched).1 hm₁
    exact ⟨m', hstory.append hrest⟩

/-- The stores of a request keep what earlier ones said. -/
theorem Call.pairwise_stores {c : Call} (hc : c.Fair) (hplain : Store.PlainMap c.session.directory) :
    c.stores.Pairwise Store.Kept := by
  obtain ⟨m, hm⟩ := hc.before
  obtain ⟨m', hm'⟩ := hc.after
  obtain ⟨-, hstory, -⟩ := c.story hc hplain hm hm'
  refine List.pairwise_cons.2 ⟨fun d hd => ?_, hstory.pairwise_kept hm'⟩
  obtain ⟨m₁, hm₁, hext⟩ := hstory.exists_read hm' d hd
  exact ⟨m, m₁, hm, hm₁, hext⟩

/-- The store at the end of a request keeps what all others said. -/
theorem Call.kept_after {c : Call} (hc : c.Fair) (hplain : Store.PlainMap c.session.directory)
    {d : Directory} (hd : d ∈ c.stores) : Store.Kept d c.after.directory := by
  have hstores : c.stores = (c.session.directory :: c.attempts.map (·.store)) ++ [c.after.directory] := rfl
  have hpairwise := Call.pairwise_stores hc hplain
  rw [hstores] at hd hpairwise
  rcases List.mem_append.1 hd with hd | hd
  · exact (List.pairwise_append.1 hpairwise).2.2 d hd _ (List.mem_singleton_self _)
  · obtain rfl := List.mem_singleton.1 hd
    obtain ⟨m, hm⟩ := hc.after
    exact ⟨m, m, hm, hm, .refl m⟩

/-- All stores keep what the card map said before the first request. -/
theorem Successive.kept {d : Directory} {m : IdMap Json} (h : Successive calls)
    (hd : ∀ c ∈ calls.head?, Store.cardObject c.session.directory = Store.cardObject d)
    (hm : Store.cardMap d = .ok m) : ∀ d' ∈ calls.flatMap Call.stores, Store.Kept d d' := by
  induction calls generalizing d m with
  | nil => exact fun _ h => nomatch h
  | cons c calls ih =>
    intro d' hd'
    have hc := h.fair c (List.mem_cons_self ..)
    obtain ⟨m₁, hm₁⟩ := hc.after
    have hstart := (Store.cardMap_congr (hd c rfl)).trans hm
    obtain ⟨-, hstory, -⟩ := c.story hc (h.plain c rfl) hstart hm₁
    rw [List.flatMap_cons] at hd'
    rcases List.mem_append.1 hd' with hd' | hd'
    · rcases List.mem_cons.1 hd' with rfl | hd'
      · exact ⟨m, m, hm, hstart, .refl m⟩
      · obtain ⟨m₂, hm₂, hext⟩ := hstory.exists_read hm₁ d' hd'
        exact ⟨m, m₂, hm, hm₂, hext⟩
    · exact (Store.Kept.trans ⟨m, m₁, hm, hm₁, hstory.kept⟩
        (ih h.tail (List.isChain_cons.1 h.untouched).1 hm₁ d' hd'))

/-- The stores of all requests keep what earlier ones said. -/
theorem Successive.pairwise_stores (h : Successive calls) :
    (calls.flatMap Call.stores).Pairwise Store.Kept := by
  induction calls with
  | nil => exact List.Pairwise.nil
  | cons c calls ih =>
    have hc := h.fair c (List.mem_cons_self ..)
    have hplain := h.plain c rfl
    obtain ⟨m₁, hm₁⟩ := hc.after
    rw [List.flatMap_cons, List.pairwise_append]
    refine ⟨Call.pairwise_stores hc hplain, ih h.tail, fun d hd d' hd' => ?_⟩
    exact (Call.kept_after hc hplain hd).trans
      (h.tail.kept (List.isChain_cons.1 h.untouched).1 hm₁ d' hd')

/-- **Cards are created once.** For fair requests one after another:

1. A card that was created is in the card map when the request ends, as the counterpart of the card
   that it was created for.
2. No two cards are created for the same card, and what the card map says at some moment, it says at
   every later moment.
3. A success names the card that the map has then; a failure leaves the entry of the card that was
   asked for as it was. -/
theorem created_once (calls : List Call) (h : Successive calls) :
    (∀ c ∈ calls, ∀ a ∈ c.attempts, ∀ target, a.created? = some target →
      ∃ m, Store.cardMap c.after.directory = .ok m ∧ m.get? a.source = some target) ∧
    (Attempt.sources (calls.flatMap Call.attempts)).Nodup ∧
    (calls.flatMap Call.stores).Pairwise Store.Kept ∧ ∀ c ∈ calls, c.Truthful := by
  refine ⟨fun c hc a ha target hcreated => ?_, ?_, h.pairwise_stores, fun c hc => ?_⟩
  · have hfair := h.fair c hc
    obtain ⟨m, hm⟩ := hfair.before
    obtain ⟨m', hm'⟩ := hfair.after
    obtain ⟨-, hstory, -⟩ := c.story hfair (h.plain_of_mem hc) hm hm'
    exact ⟨m', hm', hstory.get?_of_written ha (Attempt.created?_eq_some.1 hcreated).2⟩
  · cases calls with
    | nil => exact List.nodup_nil
    | cons c calls =>
      obtain ⟨m, hm⟩ := (h.fair c (List.mem_cons_self ..)).before
      obtain ⟨m', hstory⟩ := h.story (d := c.session.directory) (by rintro _ ⟨⟩; rfl) hm
      exact hstory.nodup_sources
  · have hfair := h.fair c hc
    obtain ⟨m, hm⟩ := hfair.before
    obtain ⟨m', hm'⟩ := hfair.after
    exact (c.story hfair (h.plain_of_mem hc) hm hm').2.2

/-! ### Two requests, and a map that is not plain -/

/-- Card 7, which refers to card 8. -/
def twoCards : IdMap Json := [structuredCard 7 (.str "card__8"), structuredCard 8 (.int 5)]

/-- A request for card 7, and then a forced one for card 8. -/
def twoCalls : List Call :=
  let c : Call := ⟨smallSession twoCards ⟨[]⟩, liveRequest 7 false⟩
  [c, ⟨c.after, liveRequest 8 true⟩]

/-- Card 8 is created before card 7, and neither of them again. -/
theorem created_once_twoCalls : Successive twoCalls ∧
    Attempt.sources (twoCalls.flatMap Call.attempts) = [.whole 8, .whole 7] ∧
    (Attempt.sources (twoCalls.flatMap Call.attempts)).Nodup ∧
    (twoCalls.flatMap Call.stores).Pairwise Store.Kept ∧ ∀ c ∈ twoCalls, c.Truthful := by
  have hreadable (c : Call) (hc : c ∈ twoCalls) :
      (∃ m, Store.cardMap c.session.directory = .ok m) ∧ ∃ m, Store.cardMap c.after.directory = .ok m := by
    have hall : (twoCalls.all fun c => (Store.cardMap c.session.directory).isOk &&
        (Store.cardMap c.after.directory).isOk) = true := by decide +kernel
    have hok := List.all_eq_true.1 hall c hc
    rw [Bool.and_eq_true] at hok
    exact ⟨exists_ok_of_isOk hok.1, exists_ok_of_isOk hok.2⟩
  have hfair : ∀ c ∈ twoCalls, c.Fair := by
    intro c hc
    have hrequest : c.request.dryRun.truthy = false ∧ ∃ n, c.request.card = .int n := by
      rcases List.mem_cons.1 hc with rfl | hc
      · exact ⟨rfl, 7, rfl⟩
      · obtain rfl := List.mem_singleton.1 hc
        exact ⟨rfl, 8, rfl⟩
    exact ⟨hrequest.1, hrequest.2, (hreadable c hc).1, (hreadable c hc).2⟩
  have hsuccessive : Successive twoCalls := by
    refine ⟨hfair, .cons_cons rfl (.singleton _), fun c hc => ?_⟩
    cases hc
    exact ⟨[], rfl, Store.plain_nil⟩
  obtain ⟨-, hnodup, hkept, htruthful⟩ := created_once twoCalls hsuccessive
  exact ⟨hsuccessive, by decide +kernel, hnodup, hkept, htruthful⟩

/-- A forced request for card 7 on which the target refuses to update the card in its place. The
stored map has two entries for card 7. -/
def ambiguousCall : Call :=
  let s := smallSession twoCards ⟨[(Store.cardPath, "\x7b\"7\": 70, \"07\": 71\x7d")]⟩
  ⟨{ s with metabase := { s.metabase with
      courses := [(.update, [.failed (.metabase (.int 500) (.str "boom") .null)])] } },
    liveRequest 7 true⟩

/-- **The card map must be plain.** Card 8 is entered into a map that has two entries for card 7, and
card 7 has another value then, although the request for it fails. -/
theorem ambiguousCall_not_truthful : ambiguousCall.Fair ∧ ¬ambiguousCall.Truthful := by
  have hbefore : (Store.cardMap ambiguousCall.session.directory).toOption.map
      (fun m => (m.get? (.int 7)).map Json.key) = some (some (.whole 71)) := by decide +kernel
  have hafter : (Store.cardMap ambiguousCall.after.directory).toOption.map
      (fun m => (m.get? (.int 7)).map Json.key) = some (some (.whole 70)) := by decide +kernel
  have hfailed : ambiguousCall.outcome.toOption.map (·.ok) = some false := by decide +kernel
  obtain ⟨m, hm, hold⟩ := exists_ok_of_toOption hbefore
  obtain ⟨m', hm', hnew⟩ := exists_ok_of_toOption hafter
  obtain ⟨o, ho, hok⟩ := exists_ok_of_toOption hfailed
  refine ⟨⟨rfl, ⟨7, rfl⟩, ⟨m, hm⟩, ⟨m', hm'⟩⟩, fun h => ?_⟩
  have hentry := h o m m' ho hm hm'
  rw [hok, if_neg Bool.false_ne_true] at hentry
  change m'.get? (.int 7) = m.get? (.int 7) at hentry
  rw [hentry, hold] at hnew
  cases hnew

end Session
end CardTransfer
