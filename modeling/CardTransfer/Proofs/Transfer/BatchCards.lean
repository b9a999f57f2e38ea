import CardTransfer.Proofs.Transfer.Again
import CardTransfer.Proofs.Transfer.Batch
import CardTransfer.Proofs.Transfer.Cycles

/-!
# The cards of a batch

A batch lists the cards of the instance before it begins. In an ordinary instance (`Ordinary`), what is
fetched under the id of a listed card later on is that card, for new cards get other ids
(`Batch.eq_of_fetch`). So the listed references are those that a transfer goes by.
-/

namespace CardTransfer

/-! ### Ordinary instances -/

namespace Metabase.Instance

/-- Every card is stored once, under the id in its payload, which is an integer and not one of those that
are still to be given to new cards. -/
structure Ordinary (m : Instance) : Prop where
  once : m.cards.keys.Nodup
  own : ∀ p ∈ m.cards, ∀ id, p.2.require "id" = .ok id → id.key = p.1.key
  integer : m.IntegerIds
  fresh : ∀ p ∈ m.cards, Below m.nextId p.1

theorem ordinary_iff {m : Instance} : m.Ordinary ↔ m.cards.keys.Nodup ∧
    (m.cards.all fun p => (p.2.require "id").toOption.all (·.key == p.1.key)) = true ∧
      m.IntegerIds ∧ ∀ p ∈ m.cards, Below m.nextId p.1 := by
  have hown : (m.cards.all fun p => (p.2.require "id").toOption.all (·.key == p.1.key)) = true ↔
      ∀ p ∈ m.cards, ∀ id, p.2.require "id" = .ok id → id.key = p.1.key := by
    rw [List.all_eq_true]
    refine forall₂_congr fun p _ => ?_
    cases p.2.require "id" <;> simp [Except.toOption]
  rw [hown]
  exact ⟨fun ⟨h₁, h₂, h₃, h₄⟩ => ⟨h₁, h₂, h₃, h₄⟩, fun ⟨h₁, h₂, h₃, h₄⟩ => ⟨h₁, h₂, h₃, h₄⟩⟩

instance {m : Instance} : Decidable m.Ordinary := decidable_of_iff _ ordinary_iff.symm

/-- A card that is read has the id under which it is stored. -/
theorem Ordinary.id_eq {m : Instance} (h : m.Ordinary) {p : Json × Json} (hp : p ∈ m.cards) {card : Card}
    (hcard : Card.ofPayload p.2 = .ok card) : card.id.key = p.1.key :=
  h.own p hp card.id (Card.require_of_ofPayload hcard)

/-- Listing the cards reads each of them, and does nothing else. -/
theorem run_listCards (m : Instance) : ∃ courses, (listCards.run m).2 = { m with courses } ∧
    ∀ cards, (listCards.run m).1 = .ok cards → (m.cards.mapM fun p => Card.ofPayload p.2) = .ok cards := by
  refine ⟨(m.courses.next .list).2, ?_⟩
  obtain ⟨e, hmeet⟩ : ∃ e, (meet .list).run m = (e, { m with courses := (m.courses.next .list).2 }) := by
    have hrun : (course .list).run m =
        (.ok (m.courses.next .list).1, { m with courses := (m.courses.next .list).2 }) := rfl
    unfold meet
    rw [Steps.run_bind, hrun]
    cases (m.courses.next .list).1 with
    | usual => exact ⟨.ok (), rfl⟩
    | answered v => exact ⟨.ok (), rfl⟩
    | failed f => exact ⟨.error f, rfl⟩
  unfold listCards
  rw [Steps.run_bind, hmeet]
  cases e with
  | error f => exact ⟨rfl, by rintro _ ⟨⟩⟩
  | ok _ => exact ⟨rfl, fun _ h => h⟩

end Metabase.Instance

namespace Session

variable {s start t u : Session} {cards : List Card} {id : Json} {card : Card}

/-! ### Listing -/

/-- **Listing the cards of the source database** reads all cards of the instance. -/
theorem run_listSourceCards (s : Session) :
    ∃ courses, (listSourceCards.run s).2 = { s with metabase := { s.metabase with courses } } ∧
      ∀ cards, (listSourceCards.run s).1 = .ok cards → ∃ all,
        (s.metabase.cards.mapM fun p => Card.ofPayload p.2) = .ok all ∧ cards = s.fromSource all := by
  obtain ⟨courses, hlater, hcards⟩ := Metabase.Instance.run_listCards s.metabase
  refine ⟨courses, ?_⟩
  unfold listSourceCards
  rw [Steps.run_bind, run_call, hlater]
  cases hall : (Metabase.Instance.listCards.run s.metabase).1 with
  | error f => exact ⟨rfl, by rintro _ ⟨⟩⟩
  | ok all =>
    refine ⟨rfl, fun cards h => ⟨all, hcards all hall, ?_⟩⟩
    cases h
    rfl

/-- A listed card is one of the instance. -/
theorem exists_stored (hlisted : listSourceCards.run s = (.ok cards, start)) {c : Card} (hc : c ∈ cards) :
    ∃ p ∈ s.metabase.cards, Card.ofPayload p.2 = .ok c := by
  obtain ⟨courses, -, hcards⟩ := run_listSourceCards s
  obtain ⟨all, hall, rfl⟩ := hcards cards (congrArg Prod.fst hlisted)
  exact mem_of_mapM hall (List.mem_filter.1 hc).1

/-- All that listing changes is the script of the instance. -/
theorem start_of_listed (hlisted : listSourceCards.run s = (.ok cards, start)) :
    ∃ courses, start = { s with metabase := { s.metabase with courses } } := by
  obtain ⟨courses, hlater, -⟩ := run_listSourceCards s
  rw [hlisted] at hlater
  exact ⟨courses, hlater⟩

theorem idle_of_listed (hlisted : listSourceCards.run s = (.ok cards, start)) : Idle s start := by
  obtain ⟨courses, rfl⟩ := start_of_listed hlisted
  exact ⟨⟨rfl, rfl, rfl, rfl, rfl⟩, rfl, rfl⟩

namespace Batch

/-- **A listed card is stored in the instance**, and goes on being stored as long as all that happens is that
new cards are made. -/
theorem exists_stored (b : Batch s) (hs : s.metabase.Ordinary) (hlisted : b.graph.listed id = true)
    (hbeyond : Beyond s.metabase.nextId s t) :
    ∃ payload, ∃ c ∈ b.cards, t.metabase.cards.get? id = some payload ∧ Card.ofPayload payload = .ok c ∧
      c.id.key = id.key ∧ b.graph.providers id = c.references := by
  obtain ⟨c, hc⟩ : ∃ c, (Graph.byId b.cards).get? id = some c := by
    rw [← Option.isSome_iff_exists]
    unfold Graph.listed IdMap.has at hlisted
    rwa [show b.graph.nodes.get? id = _ from Graph.get?_nodes b.read.drawn, Option.isSome_map] at hlisted
  obtain ⟨hmem, hk⟩ := Graph.mem_of_byId hc
  obtain ⟨p, hp, hread⟩ := Session.exists_stored b.listed hmem
  have hkey : id.key = p.1.key := hk.symm.trans (hs.id_eq hp hread)
  have hbelow : Below s.metabase.nextId id := fun k hid => hs.fresh p hp k (hkey.symm.trans hid)
  refine ⟨p.2, c, hmem, ?_, hread, hk, ?_⟩
  · rw [(hbeyond (Int.le_refl _)).2 id hbelow, IdMap.get?_congr hkey, IdMap.get?_of_mem hs.once hp]
  · rw [show b.graph.providers id = _ from Graph.providers_ofCards b.read.drawn, hc]
    rfl

/-- What is fetched under the id of a listed card is that card. -/
theorem eq_of_fetch (b : Batch s) (hs : s.metabase.Ordinary) (hlisted : b.graph.listed id = true)
    (hbeyond : Beyond s.metabase.nextId s t) (h : (fetch id).run t = (.ok card, u)) :
    card ∈ b.cards ∧ card.id.key = id.key ∧ card.references = b.graph.providers id := by
  obtain ⟨payload, c, hmem, hstored, hread, hk, hproviders⟩ := b.exists_stored hs hlisted hbeyond
  obtain ⟨payload', hget, hcard⟩ := exists_payload_of_fetch h
  rw [hstored] at hget
  cases hget
  rw [hread] at hcard
  cases hcard
  exact ⟨hmem, hk, hproviders.symm⟩

/-- What a listed card refers to is in the graph. -/
theorem has_of_refers (b : Batch s) (hs : s.metabase.Ordinary) {a : Json}
    (hlisted : b.graph.listed id = true) (hbeyond : Beyond s.metabase.nextId s t) (h : Refers t id a) :
    (b.graph.providers id).has a = true := by
  obtain ⟨payload, card, ids, hget, hcard, hfound, hhas⟩ := h
  obtain ⟨payload', c, -, hstored, hread, -, hproviders⟩ := b.exists_stored hs hlisted hbeyond
  rw [hstored] at hget
  cases hget
  rw [hread] at hcard
  cases hcard
  rw [hproviders, Card.eq_of_findReferences hfound]
  exact hhas

/-- A card of the order is listed. -/
theorem listed_of_mem (b : Batch s) (h : id ∈ b.order) : b.graph.listed id = true :=
  ((b.order_spec.1.has_iff id).1 (Ids.has_of_mem h)).1

end Batch

end Session
end CardTransfer

/-!
## Calls for cards that are provided for

If all cards that a card refers to are in the card map, a live call for it transfers no other card: either
it leaves everything as it is, or it comes to stages 3 to 6 right after the card has been fetched
(`DirectRun`). So it makes at most one attempt to write a card and enters at most this one in the card map
(`DirectRun.alone`).
-/

namespace CardTransfer
namespace Session

open Steps (Keeps Passes Ensures)

variable {s t : Session} {c : Call} {o : Outcome} {n : Int}

/-! ### What every call keeps -/

instance : Std.Refl Grown := ⟨fun _ => .of_quiet (Std.Refl.refl _)⟩

instance : IsTrans Session Grown := ⟨fun _ _ _ h₁ h₂ => h₁.trans h₂⟩

namespace Call

/-- A call keeps what the transfer of its card keeps, as the update of the waiting area is idle. -/
theorem related {R : Session → Session → Prop} [Std.Refl R] [IsTrans Session R] (c : Call)
    (hidle : ∀ s t, Idle s t → R s t) (h : ∀ deadline path, Keeps R (transferCard c.session.levels
      ⟨c.request.dryRun, c.request.force, c.request.collection, deadline⟩ path c.request.card)) :
    R c.session c.after := by
  rcases transfer_cases (Prod.eta ((transfer c.request).run c.session)).symm with
    ⟨hsame, -⟩ | ⟨deadline, path, o, u, hrun, hlast, -⟩
  · rw [show c.after = c.session from hsame]
    exact Std.Refl.refl _
  · have htransfer := h deadline path c.session
    rw [hrun] at htransfer
    exact IsTrans.trans _ _ _ htransfer (hidle _ _ hlast)

/-- A live call only grows the card map. -/
theorem grown (hlive : c.request.dryRun.truthy = false) : Grown c.session c.after :=
  c.related (fun _ _ h => .of_quiet h.toQuiet) fun _ _ _ => (grown_transferCard hlive (Prod.eta _).symm).1

/-- If it ends well, the card map has the card. -/
theorem held (hlive : c.request.dryRun.truthy = false) (hint : c.request.card.isInt = true)
    (hok : c.succeeded = true) : Held c.request.card c.after := by
  obtain ⟨o, ho, hok⟩ := (Option.any_eq_true _ _).1 hok
  have ho : c.outcome = .ok o := eq_ok_of_toOption ho
  rcases transfer_cases (Prod.eta ((transfer c.request).run c.session)).symm with
    ⟨-, f, hf⟩ | ⟨deadline, path, x, u, hrun, hlast, houtcome⟩
  · rw [show c.outcome = .error f from hf] at ho
    cases ho
  · obtain rfl := houtcome o ho
    have hheld := (grown_transferCard hlive hrun).2 _ (eq_ok_of_outcomeOf hok) hok hint
    exact hheld.mono (.of_quiet hlast.toQuiet)

/-- A call without force leaves the cards below the next id alone. -/
theorem beyond (hforce : c.request.force = false) : Beyond n c.session c.after :=
  c.related (fun _ _ h => .of_idle h) fun _ _ => beyond_transferCard hforce _ _

theorem passes_of_idle (h : Idle s t) : Passes IntegerIds s t := by
  intro hs
  unfold IntegerIds Metabase.Instance.IntegerIds
  rw [h.cards]
  exact hs

/-- The cards of the instance go on having integer ids. -/
theorem integerIds (hint : c.request.card.isInt = true) : Passes IntegerIds c.session c.after :=
  c.related (fun _ _ => passes_of_idle) fun _ _ => (ensures_transferCard _ hint).keeps

end Call

/-! ### Calls that transfer one card -/

/-- How a call runs that transfers no card but the one that is asked for. -/
inductive DirectRun (c : Call) : Prop
  /-- The card is not transferred, and nothing is done. -/
  | left (idle : Idle c.session c.after)
    (failed : ∀ o, c.outcome = .ok o →
      ∃ f : Failure, o = f.outcome [] ∧ f.card = c.request.card ∧ f.kind ≠ .circular)
  /-- The card has been fetched and is transferred. -/
  | ready {terms : Terms} {card : Card} {start u : Session} {r : Except Fault Report}
    (dryRun : terms.dryRun = c.request.dryRun) (force : terms.force = c.request.force)
    (fetched : (fetch c.request.card).run c.session = (.ok card, start))
    (ran : (transferReady terms c.request.card card).run start = (r, u)) (idle : Idle u c.after)
    (outcome : ∀ o, c.outcome = .ok o → o = outcomeOf c.request.card (r.map (Outcome.mk · [])))

/-- **A card that refers only to cards in the card map is transferred alone.** -/
theorem directRun (c : Call) (hvisited : c.request.visited = .null)
    (h : ∀ card start, (fetch c.request.card).run c.session = (.ok card, start) →
      ∀ m, Store.cardMap c.session.directory = .ok m → ∀ i ∈ card.references, m.has i = true) :
    DirectRun c := by
  rcases transfer_terms_cases (Prod.eta ((transfer c.request).run c.session)).symm with
    ⟨hsame, f, hf⟩ | ⟨terms, path, r, u, hterms, hrun, hlast, houtcome⟩
  · change c.after = c.session at hsame
    refine .left (by rw [hsame]; exact Std.Refl.refl _) fun o ho => ?_
    rw [show c.outcome = .error f from hf] at ho
    cases ho
  change Idle u c.after at hlast
  obtain rfl := Request.path_of_terms hvisited hterms
  obtain ⟨deadline, hsame⟩ := Request.eq_of_terms hterms
  -- there are levels enough for one card
  let n := c.session.metabase.cards.length + 999
  have hcard := cardRun terms (transferCard n terms.forProviders (Ids.add [] c.request.card)) []
    c.request.card c.session
  change (transferVia terms _ [] c.request.card).run c.session = _ at hrun
  rw [hrun] at hcard
  have hnone (g : Fetched [] c.request.card c.session) :
      g.transferProviders terms (transferCard n terms.forProviders (Ids.add [] c.request.card)) =
        (.ok ([], none), g.start) := by
    refine run_transferProviders_of_has (fun i hi => ?_) []
    refine h g.card g.start g.fetched g.mapped ?_ i (by rwa [Card.eq_of_findReferences g.found])
    rw [← g.readMapped]
    exact Store.cardMap_congr g.idle.cardObject.symm
  cases hcard with
  | left idle failed alone =>
    refine .left (idle.trans hlast) fun o ho => ?_
    obtain rfl := houtcome o ho
    cases r with
    | error f => exact ⟨_, rfl, rfl, nofun⟩
    | ok o =>
      obtain ⟨f, rfl, -, hf, hcircular⟩ := alone o rfl
      -- no card is on the path
      exact ⟨f, rfl, hf, fun hkind => nomatch hcircular hkind⟩
  | stopped g run stop =>
    rw [hnone g] at run
    cases run
    exact absurd rfl (stop [])
  | ready g run ready ran =>
    rw [hnone g] at run
    cases run
    exact .ready (congrArg Terms.dryRun hsame) (congrArg Terms.force hsame) g.fetched ran hlast houtcome

/-- At most one attempt is made to write a card, and the card that is asked for is at most entered in the
card map. Its report is the only one. -/
structure Call.Alone (c : Call) : Prop where
  outcome : ∀ o, c.outcome = .ok o → o.providers = [] ∧ o.report.card.key = c.request.card.key
  attempts : c.after.journal.attempts = c.session.journal.attempts ++ c.attempts ∧ c.attempts.length ≤ 1
  commits : c.after.journal.commits = c.session.journal.commits ++ c.commits ∧
    (c.commits = [] ∨ ∃ target, c.commits = [(c.request.card, target)])

/-- Stages 3 to 6 make at most one attempt to write a card. -/
theorem attempts_ready {terms : Terms} {id : Json} {card : Card} {r : Except Fault Report}
    (h : ReadyRun terms id card s (r, t)) :
    ∃ new, t.journal.attempts = s.journal.attempts ++ new ∧ new.length ≤ 1 := by
  have hidle (h : Idle s t) : ∃ new, t.journal.attempts = s.journal.attempts ++ new ∧ new.length ≤ 1 :=
    ⟨[], by rw [h.attempts, List.append_nil], by simp⟩
  cases h with
  | unwritten idle => exact hidle idle
  | before unforced read idle => exact hidle idle
  | dry dry idle => exact hidle idle
  | refused d tried answer attempted => exact ⟨_, attempted.attempts, by simp⟩
  | written d tried answer attempted set settings correspondence attempts =>
    exact ⟨_, attempts.trans attempted.attempts, by simp⟩

/-- **Such a call keeps to its card**, if the card is stored under its own id. -/
theorem DirectRun.alone (h : DirectRun c) (hids : c.session.IntegerIds)
    (hown : ∀ card start, (fetch c.request.card).run c.session = (.ok card, start) →
      card.id.key = c.request.card.key) : c.Alone := by
  have hattempts {new : List Attempt} (hnew : c.after.journal.attempts = c.session.journal.attempts ++ new) :
      c.attempts = new := by
    unfold Call.attempts
    rw [hnew, List.drop_left]
  have hcommits {new : List (Json × Json)}
      (hnew : c.after.journal.commits = c.session.journal.commits ++ new) : c.commits = new := by
    unfold Call.commits
    rw [hnew, List.drop_left]
  cases h with
  | left idle failed =>
    have hnone : c.after.journal.attempts = c.session.journal.attempts ++ [] :=
      idle.attempts.trans (List.append_nil _).symm
    have hnone' : c.after.journal.commits = c.session.journal.commits ++ [] :=
      idle.commits.trans (List.append_nil _).symm
    refine ⟨fun o ho => ?_, ?_, ?_⟩
    · obtain ⟨f, rfl, hf, -⟩ := failed o ho
      exact ⟨rfl, congrArg Json.key hf⟩
    · rw [hattempts hnone]
      exact ⟨hnone, by simp⟩
    · rw [hcommits hnone']
      exact ⟨hnone', .inl rfl⟩
  | ready dryRun force fetched ran idle outcome =>
    rename_i terms card start u r
    have hstart : Idle c.session start := by
      have h := (calm_fetch c.request.card c.session).idle
      rwa [fetched] at h
    have hready := readyRun terms c.request.card card start
    rw [ran] at hready
    refine ⟨fun o ho => ?_, ?_, ?_⟩
    · obtain rfl := outcome o ho
      have hensures : Ensures IntegerIds (fun report => report.card.key = c.request.card.key)
          (transferReady terms c.request.card card) :=
        ensures_transferReady (P := fun a => a.key = c.request.card.key) rfl (hown card start fetched)
      have habout := (hensures start (Call.passes_of_idle hstart hids)).2
      rw [ran] at habout
      cases r with
      | error f => exact ⟨rfl, rfl⟩
      | ok report => exact ⟨rfl, habout report rfl⟩
    · obtain ⟨new, hnew, hlength⟩ := attempts_ready hready
      rw [hstart.attempts] at hnew
      have hnew := idle.attempts.trans hnew
      rw [hattempts hnew]
      exact ⟨hnew, hlength⟩
    · rcases commits_ready hready with hnone | ⟨result, target, -, hnew, -, -⟩
      · have hnew : c.after.journal.commits = c.session.journal.commits ++ [] := by
          rw [idle.commits, hnone, hstart.commits, List.append_nil]
        rw [hcommits hnew]
        exact ⟨hnew, .inl rfl⟩
      · rw [hstart.commits] at hnew
        have hnew := idle.commits.trans hnew
        rw [hcommits hnew]
        exact ⟨hnew, .inr ⟨target, rfl⟩⟩

end Session
end CardTransfer
