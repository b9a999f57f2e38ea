import CardTransfer.Proofs.Transfer.BatchCards

/-!
# How far a batch reaches

A live batch attempts a card only when all cards that it refers to are done. What counts as done is kept
beside the store: the cards that were in the card map at the beginning, and those for which a call has
ended well since. All of these are in the card map (`Batch.has_of_done`), so each call transfers its card
and no other (`Batch.alone`), and the limit holds for the attempts to write cards as it does for the calls
(`batch_stays_within`).
-/

namespace CardTransfer
namespace Session

variable {s : Session} {dryRun limit : Json} {c : Call} {calls more : List Call} {id : Json} {n : Int}

namespace Batch

/-! ### The calls of a batch in turn -/

theorem linked (b : Batch s) : Linked b.start (transferCalls dryRun limit s) := by
  rw [b.transferCalls_eq]
  exact linked_attemptCalls

/-- A call of a batch is made when its turn has come. -/
theorem exists_turn (b : Batch s) (hc : c ∈ transferCalls dryRun limit s) : ∃ calls more,
    transferCalls dryRun limit s = calls ++ c :: more ∧
      c = attemptCall dryRun (sessionAfter b.start calls) c.request.card ∧
      Attempts limit b.graph b.states b.mapped 0 calls c.request.card := by
  rw [b.transferCalls_eq] at hc ⊢
  obtain ⟨first, a, rest, calls, more, -, -, hall, rfl, hattempts⟩ := exists_attempts hc
  exact ⟨calls, more, hall, rfl, hattempts⟩

theorem request_eq (b : Batch s) (hc : c ∈ transferCalls dryRun limit s) :
    c.request = { Request.usual c.request.card with dryRun } := by
  obtain ⟨calls, more, -, heq, -⟩ := b.exists_turn hc
  rw [heq]
  rfl

theorem mem_order (b : Batch s) (hc : c ∈ transferCalls dryRun limit s) : c.request.card ∈ b.order :=
  (b.cards_transferCalls dryRun limit).subset (List.mem_map_of_mem hc)

/-- The cards of an ordinary instance have integer ids, and so has the order. -/
theorem isInt_of_card (b : Batch s) (hs : s.metabase.Ordinary) : ∀ c ∈ b.cards, c.id.isInt = true := by
  intro c hc
  obtain ⟨p, hp, hread⟩ := Session.exists_stored b.listed hc
  exact hs.integer p hp c.id (Card.require_of_ofPayload hread)

theorem isInt_of_mem (b : Batch s) (hs : s.metabase.Ordinary) (h : id ∈ b.order) : id.isInt = true := by
  obtain ⟨order, stuck, hordered, hints⟩ := exists_batchOrder b.read.drawn (b.isInt_of_card hs)
  rw [b.ordered] at hordered
  cases hordered
  exact hints id h

/-! ### What is done is in the card map -/

/-- The calls of a live batch only grow the card map. -/
theorem grown (b : Batch s) (hlive : dryRun.truthy = false)
    (heq : transferCalls dryRun limit s = calls ++ more) :
    (∀ c ∈ calls, Grown b.start c.session ∧ Grown c.after (sessionAfter b.start calls)) ∧
      Grown b.start (sessionAfter b.start calls) := by
  have hlinked : Linked b.start (calls ++ more) := heq ▸ b.linked
  refine (linked_append.1 hlinked).1.related fun c hc => Call.grown ?_
  rw [b.request_eq (heq ▸ List.mem_append_left more hc)]
  exact hlive

/-- The cards below the next id are left alone. -/
theorem beyond (b : Batch s) (hc : c ∈ transferCalls dryRun limit s) : Beyond n s c.session := by
  have hstart : Beyond n s b.start := .of_idle (idle_of_listed b.listed)
  refine hstart.trans ((b.linked.related (R := Beyond n) fun c hc => Call.beyond ?_).1 c hc).1
  rw [b.request_eq hc]
  rfl

/-- The cards of the instance go on having integer ids. -/
theorem integerIds (b : Batch s) (hs : s.metabase.Ordinary) (hc : c ∈ transferCalls dryRun limit s) :
    c.session.IntegerIds := by
  have hstart : b.start.IntegerIds := Call.passes_of_idle (idle_of_listed b.listed) hs.integer
  exact ((b.linked.related (R := Steps.Passes IntegerIds) fun c hc =>
    Call.integerIds (b.isInt_of_mem hs (b.mem_order hc))).1 c hc).1 hstart

theorem has_mapped (b : Batch s) : b.mapped.has id = b.read.mapped.has id := IdMap.has_ids

/-- **What counts as done after some calls is in the card map.** -/
theorem has_of_done (b : Batch s) (hs : s.metabase.Ordinary) (hlive : dryRun.truthy = false)
    (heq : transferCalls dryRun limit s = calls ++ more) {m : IdMap Json}
    (hm : Store.cardMap (sessionAfter b.start calls).directory = .ok m)
    (hdone : (doneAfter b.mapped calls).has id = true) : m.has id = true := by
  obtain ⟨hcalls, hgrown⟩ := b.grown hlive heq
  rcases has_doneAfter.1 hdone with hmapped | ⟨c, hc, hok, hk⟩
  · obtain ⟨m₀, hm₀, hkept⟩ := hgrown.ids m hm
    rw [b.read.readMap] at hm₀
    cases hm₀
    exact hkept id (by rwa [← b.has_mapped])
  · have hmem : c ∈ transferCalls dryRun limit s := heq ▸ List.mem_append_left more hc
    have hheld : Held c.request.card c.after := by
      refine Call.held ?_ (b.isInt_of_mem hs (b.mem_order hmem)) hok
      rw [b.request_eq hmem]
      exact hlive
    have hhas := hheld.mono (hcalls c hc).2 m hm
    unfold IdMap.has at hhas ⊢
    rwa [← IdMap.get?_congr hk]

/-- **When a card is attempted, all cards that it refers to are in the card map**, which can be read if it
can be at the end. -/
theorem exists_providers (b : Batch s) (hs : s.metabase.Ordinary) (hlive : dryRun.truthy = false)
    (hread : ∃ m, Store.cardMap (sessionAfter b.start (transferCalls dryRun limit s)).directory = .ok m)
    (hc : c ∈ transferCalls dryRun limit s) : ∃ m, Store.cardMap c.session.directory = .ok m ∧
      ∀ a, (b.graph.providers c.request.card).has a = true → m.has a = true := by
  obtain ⟨calls, more, heq, hturn, hattempts⟩ := b.exists_turn hc
  have hsession : c.session = sessionAfter b.start calls := congrArg Call.session hturn
  obtain ⟨last, hlast⟩ := hread
  have hall := b.grown hlive (List.append_nil (transferCalls dryRun limit s)).symm
  have hgrown : Grown c.session (sessionAfter b.start (transferCalls dryRun limit s)) :=
    (Call.grown (by rw [b.request_eq hc]; exact hlive)).trans (hall.1 c hc).2
  obtain ⟨m, hm, -⟩ := hgrown.ids last hlast
  refine ⟨m, hm, fun a ha => ?_⟩
  obtain ⟨i, hi, hk⟩ := (Ids.has_iff _ _).1 ha
  have hdone := Ids.within_iff.1 hattempts.providers i hi
  have hhas := b.has_of_done hs hlive heq (hsession ▸ hm) hdone
  unfold IdMap.has at hhas ⊢
  rwa [← IdMap.get?_congr hk]

/-- **Each call transfers its card and no other.** -/
theorem directRun (b : Batch s) (hs : s.metabase.Ordinary) (hlive : dryRun.truthy = false)
    (hread : ∃ m, Store.cardMap (sessionAfter b.start (transferCalls dryRun limit s)).directory = .ok m)
    (hc : c ∈ transferCalls dryRun limit s) : DirectRun c := by
  have hvisited : c.request.visited = .null := by
    rw [b.request_eq hc]
    rfl
  refine Session.directRun c hvisited fun card start hfetch m hm i hi => ?_
  obtain ⟨m', hm', hproviders⟩ := b.exists_providers hs hlive hread hc
  rw [hm] at hm'
  cases hm'
  have hcard := b.eq_of_fetch hs (b.listed_of_mem (b.mem_order hc)) (b.beyond hc) hfetch
  exact hproviders i (Ids.has_of_mem (hcard.2.2 ▸ hi))

theorem alone (b : Batch s) (hs : s.metabase.Ordinary) (hlive : dryRun.truthy = false)
    (hread : ∃ m, Store.cardMap (sessionAfter b.start (transferCalls dryRun limit s)).directory = .ok m)
    (hc : c ∈ transferCalls dryRun limit s) : c.Alone :=
  (b.directRun hs hlive hread hc).alone (b.integerIds hs hc) fun _ _ hfetch =>
    (b.eq_of_fetch hs (b.listed_of_mem (b.mem_order hc)) (b.beyond hc) hfetch).2.1

/-! ### Results and commits -/

/-- The failure of a card that is left out is about that card, and nothing is below it. -/
theorem stuckFailure_spec (cards : List Card) (id : Json) : (stuckFailure cards id).providers = [] ∧
    (stuckFailure cards id).report.card = id ∧
      ∃ f, (stuckFailure cards id).report = .failed f ∧ f.kind = .circular := by
  unfold stuckFailure
  split
  · exact ⟨rfl, rfl, _, rfl, rfl⟩
  · exact ⟨rfl, rfl, _, rfl, rfl⟩

/-- **The results of a batch** are the failures of the cards that are left out and the outcomes of the
calls. No two of them are about the same card. -/
theorem nodup_results (b : Batch s) (halone : ∀ c ∈ transferCalls dryRun limit s, c.Alone)
    {answers : List Outcome} (hanswers : (transferCalls dryRun limit s).mapM Call.outcome = .ok answers) :
    ((b.failures ++ answers).map (·.report.card.key)).Nodup ∧ ∀ o ∈ b.failures ++ answers, o.providers = [] := by
  have hstuck : b.failures.map (·.report.card.key) = b.stuck.keys := by
    unfold failures Ids.keys
    rw [List.map_map]
    exact List.map_congr_left fun id _ => congrArg Json.key (stuckFailure_spec b.cards id).2.1
  have hcalled : answers.map (·.report.card.key) =
      (transferCalls dryRun limit s).map (·.request.card.key) :=
    map_eq_of_mapM hanswers fun c hc o ho => ((halone c hc).outcome o ho).2
  obtain ⟨hordered, honce, -⟩ := b.order_spec
  constructor
  · rw [List.map_append, hstuck, hcalled, List.nodup_append]
    refine ⟨honce, b.nodup_calls dryRun limit, ?_⟩
    rintro k hk _ hk' rfl
    -- a card that is left out is not in the order
    obtain ⟨c, hc, rfl⟩ := List.mem_map.1 hk'
    have horder := (hordered.has_iff _).1 (Ids.has_of_mem (b.mem_order hc))
    rw [Ids.mem_keys.1 hk] at horder
    cases horder.2
  · refine List.forall_mem_append.2 ⟨fun o ho => ?_, fun o ho => ?_⟩
    · obtain ⟨id, -, rfl⟩ := List.mem_map.1 ho
      exact (stuckFailure_spec b.cards id).1
    · obtain ⟨c, hc, ho⟩ := mem_of_mapM hanswers ho
      exact ((halone c hc).outcome o ho).1

theorem length_calls (b : Batch s) (dryRun : Json) (k : Int) :
    (transferCalls dryRun (.int k) s).length ≤ max k 0 := by
  rw [b.transferCalls_eq]
  have h : (0 : Nat) + (attemptCalls dryRun (.int k) b.graph b.states b.order b.mapped 0 b.start).length ≤
      max k (0 : Nat) := length_attemptCalls k
  omega

/-- There are no more attempts to write cards than calls. -/
theorem length_attempts_le (halone : ∀ c ∈ calls, c.Alone) :
    (calls.flatMap Call.attempts).length ≤ calls.length := by
  induction calls with
  | nil => exact Nat.le_refl 0
  | cons c calls ih =>
    rw [List.forall_mem_cons] at halone
    have hone := halone.1.attempts.2
    have hrest := ih halone.2
    rw [List.flatMap_cons, List.length_append, List.length_cons]
    omega

/-- The cards that the calls enter in the card map are those of the order in turn. -/
theorem sublist_commits (b : Batch s) (halone : ∀ c ∈ transferCalls dryRun limit s, c.Alone) :
    (((transferCalls dryRun limit s).flatMap Call.commits).map (·.1)).Sublist b.order := by
  refine List.Sublist.trans ?_ (b.cards_transferCalls dryRun limit)
  generalize transferCalls dryRun limit s = calls at halone
  induction calls with
  | nil => exact .slnil
  | cons c calls ih =>
    rw [List.forall_mem_cons] at halone
    rw [List.flatMap_cons, List.map_append, List.map_cons]
    rcases halone.1.commits.2 with hnone | ⟨target, hone⟩
    · rw [hnone]
      exact (ih halone.2).cons _
    · rw [hone]
      exact (ih halone.2).cons_cons _

end Batch

/-- Cards are entered in the card map after those among them that they refer to. -/
def InTurn (s : Session) (commits : List (Json × Json)) : Prop :=
  ∀ first p rest, commits = first ++ p :: rest → ∀ q ∈ commits, Refers s p.1 q.1 → q ∈ first

theorem Batch.inTurn (b : Batch s) (hs : s.metabase.Ordinary) {commits : List (Json × Json)}
    (h : (commits.map (·.1)).Sublist b.order) : InTurn s commits := by
  rintro first p rest rfl q hq hrefers
  have hp : p.1 ∈ b.order := h.subset (List.mem_map_of_mem (by simp))
  have hhas := b.has_of_refers hs (b.listed_of_mem hp) (Std.Refl.refl s) hrefers
  have hpairwise := b.order_spec.1.pairwise.sublist h
  rw [List.map_append, List.map_cons, List.pairwise_append, List.pairwise_cons] at hpairwise
  rcases List.mem_append.1 hq with hq | hq
  · exact hq
  rcases List.mem_cons.1 hq with rfl | hq
  · -- no card of the order refers to itself
    obtain ⟨before, after, horder⟩ := List.append_of_mem hp
    rw [b.order_spec.1.not_has horder (List.mem_cons_self ..)] at hhas
    cases hhas
  · rw [hpairwise.2.1.1 q.1 (List.mem_map_of_mem hq)] at hhas
    cases hhas

/-- **A batch never reaches past the cards that it attempts.** For a live batch in an ordinary instance,
with a limit or none, after which the card map can be read:

1. If it ends well, no two results are about the same card, and none of them has others below it. They are
   the failures of the cards that are left out and the outcomes of the calls.
2. When a card is attempted, all cards that it refers to are in the card map. The call makes at most one
   attempt to write a card, and its outcome has no others below it.
3. What is done on the target is done by the calls. There are no more of them than the limit allows, and no
   more attempts to write cards.
4. Each card is entered in the card map after those that it refers to and that are entered too. -/
theorem batch_stays_within (hs : s.metabase.Ordinary) (hlive : dryRun.truthy = false) (hlimit : IsLimit limit)
    (hread : ∃ m, Store.cardMap ((transferAll dryRun limit).run s).2.directory = .ok m) :
    let calls := transferCalls dryRun limit s
    let t := ((transferAll dryRun limit).run s).2
    (∀ outcomes, ((transferAll dryRun limit).run s).1 = .ok outcomes →
      (outcomes.map (·.report.card.key)).Nodup ∧ (∀ o ∈ outcomes, o.providers = []) ∧
        ∃ failures answers, outcomes = failures ++ answers ∧ calls.mapM Call.outcome = .ok answers ∧
          ∀ o ∈ failures, ∃ f, o.report = .failed f ∧ f.kind = .circular) ∧
    (∀ c ∈ calls, (∃ m, Store.cardMap c.session.directory = .ok m ∧
        ∀ a, Refers c.session c.request.card a → m.has a = true) ∧
      c.attempts.length ≤ 1 ∧ ∀ o, c.outcome = .ok o → o.providers = []) ∧
    (t.journal.attempts = s.journal.attempts ++ calls.flatMap Call.attempts ∧
      ∀ k, limit = .int k → calls.length ≤ max k 0 ∧ (calls.flatMap Call.attempts).length ≤ max k 0) ∧
    t.journal.commits = s.journal.commits ++ calls.flatMap Call.commits ∧
      InTurn s (calls.flatMap Call.commits) := by
  rcases batch_or_fault s with ⟨⟨b⟩⟩ | hfault
  · have hrun := b.run dryRun hlimit
    rw [hrun] at hread ⊢
    have halone := fun c hc => b.alone (c := c) hs hlive hread hc
    have hidle := idle_of_listed b.listed
    refine ⟨fun outcomes hok => ?_, fun c hc => ?_, ⟨?_, fun k hk => ?_⟩, ?_, ?_⟩
    · obtain ⟨answers, hanswers, rfl⟩ := map_eq_ok.1 hok
      obtain ⟨hnodup, hnone⟩ := b.nodup_results halone hanswers
      refine ⟨hnodup, hnone, b.failures, answers, rfl, hanswers, fun o ho => ?_⟩
      obtain ⟨id, -, rfl⟩ := List.mem_map.1 ho
      exact (Batch.stuckFailure_spec b.cards id).2.2
    · obtain ⟨m, hm, hproviders⟩ := b.exists_providers hs hlive hread hc
      refine ⟨⟨m, hm, fun a ha => hproviders a ?_⟩, (halone c hc).attempts.2,
        fun o ho => ((halone c hc).outcome o ho).1⟩
      exact b.has_of_refers hs (b.listed_of_mem (b.mem_order hc)) (b.beyond hc) ha
    · rw [← hidle.attempts]
      exact b.linked.appended (f := fun s => s.journal.attempts) fun c hc => (halone c hc).attempts.1
    · subst hk
      refine ⟨b.length_calls dryRun k, le_trans ?_ (b.length_calls dryRun k)⟩
      exact_mod_cast Batch.length_attempts_le halone
    · rw [← hidle.commits]
      exact b.linked.appended (f := fun s => s.journal.commits) fun c hc => (halone c hc).commits.1
    · exact b.inTurn hs (b.sublist_commits halone)
  · obtain ⟨hnone, f, hrun⟩ := hfault dryRun limit
    rw [hrun, hnone]
    obtain ⟨courses, hlater, -⟩ := run_listSourceCards s
    rw [hlater]
    refine ⟨fun _ h => (nomatch h), List.forall_mem_nil _, ⟨(List.append_nil _).symm, fun k _ => ?_⟩,
      (List.append_nil _).symm, fun _ _ _ _ => List.forall_mem_nil _⟩
    exact ⟨le_max_right k 0, le_max_right k 0⟩

/-- Card 7 refers to card 8. A batch with room for both attempts card 8 first. -/
theorem batch_stays_within_twoCards :
    let s := batchSession twoCards ⟨[]⟩
    let calls := transferCalls (.bool false) (.int 5) s
    let t := ((transferAll (.bool false) (.int 5)).run s).2
    s.metabase.Ordinary ∧ calls.map (·.request.card.key) = [.whole 8, .whole 7] ∧
      (t.journal.attempts = s.journal.attempts ++ calls.flatMap Call.attempts ∧
        ∀ k, Json.int 5 = .int k → calls.length ≤ max k 0 ∧ (calls.flatMap Call.attempts).length ≤ max k 0) ∧
      InTurn s (calls.flatMap Call.commits) := by
  have hordinary : (batchSession twoCards ⟨[]⟩).metabase.Ordinary := by decide +kernel
  have hread : (Store.cardMap ((transferAll (.bool false) (.int 5)).run
      (batchSession twoCards ⟨[]⟩)).2.directory).isOk = true := by decide +kernel
  obtain ⟨-, -, hattempts, -, hcommits⟩ :=
    batch_stays_within hordinary rfl (.inr ⟨5, rfl⟩) (exists_ok_of_isOk hread)
  exact ⟨hordinary, by decide +kernel, hattempts, hcommits⟩

end Session
end CardTransfer

/-!
## The cards that a batch creates

The cards that a transfer without force creates come behind those of the instance, and those stay as they
are (`Extended`). The new ones run on the target database: so says the query that they are created with,
and a repair exchanges the text of a query and leaves its database alone. If the target database is another
one than the source, they are never listed (`Extended.fromSource_eq`).
-/

namespace CardTransfer

open Steps (Keeps Passes)

/-! ### Queries on a database -/

/-- A query that runs on a database. -/
def RunsOn (k : Int) (query : Members) : Prop := Members.get? query "database" = some (.int k)

variable {n k j : Int} {query : Members} {card : Card} {id : Json}

theorem RunsOn.withText (h : RunsOn k query) (text : String) : RunsOn k (Verification.withText query text) := by
  unfold Verification.withText
  split
  · unfold RunsOn
    rw [Members.get?_insert_of_ne _ _ (by decide)]
    exact h
  · exact h

/-- A structured query that comes from the source database runs on the target database afterwards. -/
theorem runsOn_ofQuery (c : Correspondence) (cards : IdMap Json) {source target : Int}
    (h : (Json.ofOption (Members.get? query "database")).sameId (.int source) = true) :
    RunsOn target (StructuredTransfer.ofQuery c cards source target query).query := by
  have hdatabase : StructuredTransfer.transferDatabase source target
      (StructuredQuery.ofMembers query).database = (.int target, []) := if_pos h
  show some (StructuredTransfer.transferDatabase source target _).1 = _
  rw [hdatabase]

/-- So does a native query. -/
theorem runsOn_finish (d : NativeDraft) (target : Int) (query : Members) (rendered : String) :
    RunsOn target (d.finish target query rendered).query := by
  unfold RunsOn NativeDraft.finish
  rw [Members.get?_insert_of_ne _ _ (by decide), Members.get?_insert_self]

namespace Metabase.Instance

variable {m m' : Instance} {cards : IdMap Json} {payload : Json}

/-- The payload of a card that runs on a database. -/
def OnDatabase (k : Int) (payload : Json) : Prop := ∃ ms query, payload = .obj ms ∧
  Members.get? ms "dataset_query" = some (.obj query) ∧ RunsOn k query

theorem OnDatabase.database_eq (h : OnDatabase k payload) (hcard : Card.ofPayload payload = .ok card) :
    card.database = .int k := by
  obtain ⟨ms, query, rfl, hquery, hruns⟩ := h
  have htruthy : (Json.obj query).truthy = true := by
    cases query with
    | nil => cases hruns
    | cons p ps => rfl
  have hfind : (Json.obj ms).find "dataset_query" = .ok (.obj query) := by
    unfold Json.find Json.membersFor
    rw [ok_bind, hquery]
    rfl
  obtain ⟨v, hv, hcard⟩ := bind_eq_ok.1 hcard
  rw [hfind] at hv
  cases hv
  obtain ⟨id, -, hcard⟩ := bind_eq_ok.1 hcard
  obtain ⟨members, hmembers, hcard⟩ := bind_eq_ok.1 hcard
  unfold Json.orElse at hmembers
  rw [if_pos htruthy] at hmembers
  cases hmembers
  obtain ⟨name, -, hcard⟩ := bind_eq_ok.1 hcard
  obtain ⟨description, -, hcard⟩ := bind_eq_ok.1 hcard
  obtain ⟨display, -, hcard⟩ := bind_eq_ok.1 hcard
  obtain ⟨settings, -, hcard⟩ := bind_eq_ok.1 hcard
  obtain ⟨collection, -, hcard⟩ := bind_eq_ok.1 hcard
  cases hcard
  exact congrArg Json.ofOption hruns

/-- A new card runs on the database of its query. -/
theorem onDatabase_payloadOf {definition : Members} (id : Json) (h : RunsOn k query)
    (hdefinition : Members.get? definition "dataset_query" = some (.obj query)) :
    OnDatabase k (payloadOf id definition) := by
  refine ⟨_, query, rfl, ?_, h⟩
  rw [Members.get?_insert_of_ne _ _ (by decide)]
  exact hdefinition

/-- A card whose query is exchanged runs on the database of the new one. -/
theorem OnDatabase.merged (h : OnDatabase k payload) (hquery : RunsOn k query) :
    OnDatabase k (merged payload [("dataset_query", .obj query)]) := by
  obtain ⟨ms, old, rfl, -, -⟩ := h
  exact ⟨_, query, rfl, Members.get?_insert_self _ _ _, hquery⟩

/-! ### Instances with new cards -/

/-- An instance has some cards and, behind them, new ones that run on a database. The ids of the new ones
are integers from `n` on. -/
structure Extended (cards : IdMap Json) (n k : Int) (m : Instance) : Prop where
  later : n ≤ m.nextId
  cards : ∃ new, m.cards = cards ++ new ∧
    ∀ p ∈ new, OnDatabase k p.2 ∧ ∃ j, p.1.key = .whole j ∧ n ≤ j ∧ j < m.nextId

theorem Extended.of_sameCards (h : Session.SameCards m m') : Passes (Extended cards n k) m m' := by
  intro hm
  obtain ⟨new, hnew, hall⟩ := hm.cards
  exact ⟨h.2 ▸ hm.later, new, h.1 ▸ hnew, h.2 ▸ hall⟩

/-- No card has an id from `n` on. -/
theorem has_eq_false_of_below (hbelow : ∀ p ∈ cards, Below n p.1) (hid : id.key = .whole j) (hj : n ≤ j) :
    cards.has id = false := by
  rw [Bool.eq_false_iff, Ne, IdMap.has_iff]
  rintro ⟨p, hp, hk⟩
  have hlt := hbelow p hp j (hk.trans hid)
  omega

/-- **Creating a card on the database extends the cards.** -/
theorem extended_createCard {definition : Members} (hbelow : ∀ p ∈ cards, Below n p.1) (hquery : RunsOn k query)
    (hdefinition : Members.get? definition "dataset_query" = some (.obj query)) :
    Keeps (Passes (Extended cards n k)) (createCard definition) := by
  have hmeet : Keeps (Passes (Extended cards n k)) (meet .create) :=
    (Session.sameCards_meet _).imp fun _ _ => Extended.of_sameCards
  refine hmeet.bind fun _ => Steps.keeps_get_bind fun m => ?_
  rintro ⟨hlater, new, hnew, hall⟩
  have hfresh : IdMap.has new (.int m.nextId) = false := by
    rw [Bool.eq_false_iff, Ne, IdMap.has_iff]
    rintro ⟨p, hp, hk⟩
    obtain ⟨-, j, hj, -, hlt⟩ := hall p hp
    rw [hj] at hk
    cases hk
    omega
  refine ⟨?_, new ++ [(.int m.nextId, payloadOf (.int m.nextId) definition)], ?_, ?_⟩
  · show n ≤ m.nextId + 1
    omega
  · show IdMap.insert m.cards _ _ = _
    rw [hnew, IdMap.insert_append (has_eq_false_of_below hbelow rfl hlater), IdMap.insert_of_new hfresh]
  · refine List.forall_mem_append.2 ⟨fun p hp => ?_, List.forall_mem_singleton.2 ?_⟩
    · obtain ⟨hon, j, hj, hle, hlt⟩ := hall p hp
      refine ⟨hon, j, hj, hle, ?_⟩
      show j < m.nextId + 1
      omega
    · refine ⟨onDatabase_payloadOf _ hquery hdefinition, m.nextId, rfl, hlater, ?_⟩
      show m.nextId < m.nextId + 1
      omega

/-- Exchanging the query of a new card keeps the extension. -/
theorem extended_updateCard (hbelow : ∀ p ∈ cards, Below n p.1) (hj : n ≤ j) (hquery : RunsOn k query) :
    Keeps (Passes (Extended cards n k)) (updateCard (.int j) [("dataset_query", .obj query)]) := by
  have hmeet : Keeps (Passes (Extended cards n k)) (meet .update) :=
    (Session.sameCards_meet _).imp fun _ _ => Extended.of_sameCards
  refine hmeet.bind fun _ => Steps.keeps_get_bind fun m => ?_
  split
  · rename_i payload hget
    rintro ⟨hlater, new, hnew, hall⟩
    have hnone : cards.has (.int j) = false := has_eq_false_of_below hbelow rfl hj
    obtain ⟨p, hp, hk, rfl⟩ := IdMap.exists_mem_of_get? hget
    rw [Json.sameId_iff] at hk
    have hmem : p ∈ new := by
      rw [hnew] at hp
      refine (List.mem_append.1 hp).resolve_left fun hold => ?_
      rw [IdMap.has_iff.2 ⟨p, hold, hk⟩] at hnone
      cases hnone
    obtain ⟨hon, j', hj', hle, hlt⟩ := hall p hmem
    rw [hj'] at hk
    cases hk
    refine ⟨hlater, _, (congrArg (IdMap.insert · _ _) hnew).trans (IdMap.insert_append hnone), fun q hq => ?_⟩
    rcases IdMap.mem_of_mem_insert hq with ⟨hkey, hq⟩ | hq
    · rw [hq]
      exact ⟨hon.merged hquery, j, hkey, hj, hlt⟩
    · exact hall q hq
  · exact Std.Refl.refl m

end Metabase.Instance

namespace Session

open Metabase.Instance (Extended)

variable {s t : Session} {cards : IdMap Json} {terms : Terms} {existing : Option Json} {q : NewQuery}

/-- The cards of the instance are some others and new ones on a database. -/
def Extended (cards : IdMap Json) (n k : Int) (s : Session) : Prop := s.metabase.Extended cards n k

theorem Extended.of_idle (h : Idle s t) : Passes (Extended cards n k) s t :=
  Metabase.Instance.Extended.of_sameCards ⟨h.cards, h.nextId⟩

theorem extended_call {α : Type} {steps : Steps Metabase.Instance α}
    (h : Keeps (Passes (Metabase.Instance.Extended cards n k)) steps) :
    Keeps (Passes (Extended cards n k)) (call steps) := fun s => h s.metabase

theorem extended_note (event : Event) : Keeps (Passes (Extended cards n k)) (note event) :=
  (calm_note event).imp fun _ _ h => .of_idle h.idle

theorem extended_enterCard (source target : Json) :
    Keeps (Passes (Extended cards n k)) (enterCard source target) :=
  (keeps_writeStore fun _ _ _ => .of_sameCards ⟨rfl, rfl⟩).bind fun _ =>
    Steps.keeps_modify fun _ => .of_sameCards ⟨rfl, rfl⟩

/-- Verifying and entering a new card on the database. -/
theorem extended_settle (hbelow : ∀ p ∈ cards, Below n p.1) (hj : n ≤ j) (hquery : RunsOn k q.query)
    (id : Json) (card : Card) : Keeps (Passes (Extended cards n k)) (settle id card (.int j) q) := by
  have hrepair (query : Members) (hquery : RunsOn k query) :
      Keeps (Passes (Extended cards n k)) (repairCard (.int j) (.obj query)) :=
    (extended_call (Metabase.Instance.extended_updateCard hbelow hj hquery)).bind fun _ => extended_note _
  have hverify : Keeps (Passes (Extended cards n k)) (verify card (.int j) q.query q.warnings) :=
    keeps_verify_of (fun _ _ h => .of_idle h.idle) (fun _ text h => h.withText text) hrepair card hquery
      q.warnings
  exact hverify.bind fun _ => (extended_enterCard id _).bind fun _ => Steps.keeps_get.bind fun _ =>
    Steps.keeps_pure _

/-- **Writing a card without force, with a query on the database, extends the cards.** -/
theorem extended_commit (hbelow : ∀ p ∈ cards, Below n p.1) (hforce : terms.force = false)
    (hquery : RunsOn k q.query) (id : Json) (card : Card) :
    Keeps (Passes (Extended cards n k)) (commit terms id card existing q) := by
  intro s hs
  unfold commit
  rw [Steps.run_get_bind]
  simp only
  split
  · exact hs
  rw [Steps.run_get_bind]
  cases hdefined : card.definition (.obj q.query) s.settings.nameSuffix terms.collection with
  | error f => exact hs
  | ok definition =>
    rw [Steps.run_ofExcept_bind_ok, Steps.run_outcome_bind]
    have hwritten : Extended cards n k ((writeCard terms id card existing definition).run s).2 := by
      have hcreate := Metabase.Instance.extended_createCard hbelow hquery (get?_definition hdefined)
      unfold writeCard
      rw [hforce]
      have hput : Keeps (Passes (Extended cards n k)) (create card definition) :=
        (extended_call hcreate).bind fun _ => (extended_note _).bind fun _ => Steps.keeps_pure _
      exact hput s hs
    generalize hwrite : (writeCard terms id card existing definition).run s = w at hwritten
    obtain ⟨answer, u⟩ := w
    obtain ⟨-, hid⟩ := run_writeCard_unforced hforce hwrite (n := n)
    cases answer with
    | error f =>
      simp only
      split
      · exact hwritten
      · exact hwritten
    | ok target =>
      obtain rfl := hid target rfl
      have hsettle := (extended_settle hbelow hs.later hquery id card).bind fun result =>
        Steps.keeps_pure (R := Passes (Extended cards n k)) (Report.transferred result)
      exact hsettle u hwritten

/-- **A card of the source database gets a query on the target database.** -/
theorem runsOn_of_transferQuery {map : IdMap Json}
    (hsource : card.database.sameId (.int s.settings.sourceDatabase) = true)
    (h : (transferQuery false map card).run s = (.ok (.ok q), t)) :
    RunsOn s.settings.targetDatabase q.query := by
  by_cases hkind : card.kind? = some .structured
  · obtain ⟨-, -, -, hquery⟩ := run_transferQuery_structured hkind h
    rw [hquery]
    exact runsOn_ofQuery _ _ hsource
  · obtain ⟨draft, words, rendered, -, -, -, hnative⟩ := exists_rendered hkind h
    obtain ⟨-, hquery⟩ := unlessUnresolved_eq_ok hnative
    rw [hquery]
    exact runsOn_finish _ _ _ _

/-- **A call that transfers one card of the source database extends the cards of the instance** by cards on
the target database. -/
theorem DirectRun.extended {c : Call} (h : DirectRun c) (hbelow : ∀ p ∈ cards, Below n p.1)
    (hforce : c.request.force = false)
    (hsource : ∀ card start, (fetch c.request.card).run c.session = (.ok card, start) →
      card.database.sameId (.int c.session.settings.sourceDatabase) = true) :
    Passes (Extended cards n c.session.settings.targetDatabase) c.session c.after := by
  cases h with
  | left idle => exact .of_idle idle
  | ready dryRun force fetched ran idle outcome =>
    rename_i terms card start u r
    have hstart := (calm_fetch c.request.card c.session).idle
    rw [fetched] at hstart
    have hready : Passes (Extended cards n c.session.settings.targetDatabase) start
        ((transferReady terms c.request.card card).run start).2 := by
      refine related_transferReady_of (fun _ _ h => .of_idle h.idle) fun existing q t due => ?_
      obtain ⟨map, -, hquery⟩ := due.transferred
      have hruns := runsOn_of_transferQuery (by rw [hstart.settings]; exact hsource card start fetched) hquery
      rw [hstart.settings] at hruns
      exact extended_commit hbelow (force.trans hforce) hruns _ _ t
    rw [ran] at hready
    exact fun hs => Extended.of_idle idle (hready (Extended.of_idle hstart hs))

/-! ### Listing again -/

/-- **New cards on another database are not listed.** -/
theorem Extended.fromSource_eq (h : Extended s.metabase.cards n t.settings.targetDatabase t)
    (hsettings : t.settings = s.settings) (hapart : s.settings.sourceDatabase ≠ s.settings.targetDatabase)
    {all all' : List Card} (hall : (s.metabase.cards.mapM fun p => Card.ofPayload p.2) = .ok all)
    (hall' : (t.metabase.cards.mapM fun p => Card.ofPayload p.2) = .ok all') :
    t.fromSource all' = s.fromSource all := by
  obtain ⟨new, hnew, hon⟩ := h.cards
  rw [hnew, List.mapM_append] at hall'
  obtain ⟨first, hfirst, hall'⟩ := bind_eq_ok.1 hall'
  rw [hall] at hfirst
  cases hfirst
  obtain ⟨rest, hrest, hall'⟩ := bind_eq_ok.1 hall'
  cases hall'
  unfold fromSource
  rw [hsettings, List.filter_append]
  refine List.append_right_eq_self.2 (List.filter_eq_nil_iff.2 fun card hcard => ?_)
  obtain ⟨p, hp, hread⟩ := mem_of_mapM hrest hcard
  rw [(hon p hp).1.database_eq hread, hsettings, Json.sameId_iff]
  exact fun h => hapart (Key.whole.inj h).symm

end Session
end CardTransfer
