import CardTransfer.Proofs.Transfer.BatchOrder
import CardTransfer.Proofs.Transfer.Listing
import CardTransfer.Proofs.Transfer.States

/-!
# The calls of a batch

A batch reads all that it goes by before it attempts the first card (`Batch`), and then makes one call
after another (`attemptCalls`). What it does is told by the calls: it ends in the session after the last
one and answers their outcomes (`run_attemptCards`).

Whether it makes a call for a card depends on the calls for the cards that come first
(`exists_call_iff`): none of them has ended in a fault, the limit has not been reached, the card was
ready or open when the batch began, and all cards that it refers to are in the card map as it was then or
have been transferred since.
-/

namespace CardTransfer
namespace Session

variable {s t : Session} {dryRun limit : Json} {g : Graph} {states : IdMap CardState}
  {ids done : Ids} {n : Nat} {a : Json} {c : Call} {cs : List Call}

/-! ### Calls one after another -/

/-- Whether a call is answered. -/
def Call.answered (c : Call) : Bool := c.outcome.isOk

/-- Whether a call ends well. -/
def Call.succeeded (c : Call) : Bool := c.outcome.toOption.any (·.ok)

/-- The call for a card that a batch makes. -/
def attemptCall (dryRun : Json) (s : Session) (id : Json) : Call :=
  ⟨s, { Request.usual id with dryRun }⟩

/-- The cards that are done after some calls. -/
def doneAfter (done : Ids) (calls : List Call) : Ids :=
  calls.foldl (fun done c => if c.succeeded then done.add c.request.card else done) done

/-- The session after some calls. -/
def sessionAfter (s : Session) (calls : List Call) : Session := calls.foldl (fun _ c => c.after) s

/-- The calls that are made when cards are attempted in turn. -/
def attemptCalls (dryRun limit : Json) (g : Graph) (states : IdMap CardState) :
    Ids → Ids → Nat → Session → List Call
  | [], _, _, _ => []
  | id :: ids, done, attempted, s =>
    if (limitReached limit attempted).toOption = some false then
      if mayAttempt states id && Ids.within (g.providers id) done then
        let c := attemptCall dryRun s id
        c :: if c.answered then
          attemptCalls dryRun limit g states ids (doneAfter done [c]) (attempted + 1) c.after
        else []
      else attemptCalls dryRun limit g states ids done attempted s
    else []

theorem has_doneAfter : (doneAfter done cs).has a = true ↔
    done.has a = true ∨ ∃ c ∈ cs, c.succeeded = true ∧ c.request.card.key = a.key := by
  induction cs generalizing done with
  | nil => simp [doneAfter]
  | cons c cs ih =>
    have hfirst : Ids.has (if c.succeeded then done.add c.request.card else done) a = true ↔
        done.has a = true ∨ c.succeeded = true ∧ c.request.card.key = a.key := by
      cases c.succeeded with
      | true => simp [Ids.has_add, Json.sameId_iff]
      | false => simp
    unfold doneAfter at ih ⊢
    rw [List.foldl_cons, ih, hfirst]
    simp only [List.mem_cons, exists_eq_or_imp, or_assoc]

/-- Calls are linked if each begins where the one before it ended. -/
def Linked (s : Session) : List Call → Prop
  | [] => True
  | c :: calls => c.session = s ∧ Linked c.after calls

theorem linked_append {more : List Call} :
    Linked s (cs ++ more) ↔ Linked s cs ∧ Linked (sessionAfter s cs) more := by
  induction cs generalizing s with
  | nil => exact (iff_of_eq (true_and _)).symm
  | cons c cs ih => exact (and_congr_right fun _ => ih).trans and_assoc.symm

/-- What every call keeps is kept up to each of them, from each of them on, and to the end. -/
theorem Linked.related {R : Session → Session → Prop} [Std.Refl R] [IsTrans Session R]
    (h : Linked s cs) (hcall : ∀ c ∈ cs, R c.session c.after) :
    (∀ c ∈ cs, R s c.session ∧ R c.after (sessionAfter s cs)) ∧ R s (sessionAfter s cs) := by
  induction cs generalizing s with
  | nil => exact ⟨List.forall_mem_nil _, Std.Refl.refl s⟩
  | cons c cs ih =>
    obtain ⟨rfl, hlinked⟩ := h
    rw [List.forall_mem_cons] at hcall ⊢
    obtain ⟨hrest, hlast⟩ := ih hlinked hcall.2
    exact ⟨⟨⟨Std.Refl.refl _, hlast⟩,
      fun b hb => ⟨IsTrans.trans _ _ _ hcall.1 (hrest b hb).1, (hrest b hb).2⟩⟩,
      IsTrans.trans _ _ _ hcall.1 hlast⟩

/-- What each call appends to a list is what all of them append in turn. -/
theorem Linked.appended {α : Type} {f : Session → List α} {new : Call → List α} (h : Linked s cs)
    (hcall : ∀ c ∈ cs, f c.after = f c.session ++ new c) :
    f (sessionAfter s cs) = f s ++ cs.flatMap new := by
  induction cs generalizing s with
  | nil => exact (List.append_nil _).symm
  | cons c cs ih =>
    obtain ⟨rfl, hlinked⟩ := h
    rw [List.forall_mem_cons] at hcall
    rw [List.flatMap_cons, ← List.append_assoc, ← hcall.1]
    exact ih hlinked hcall.2

/-! ### Attempting cards in turn -/

theorem mayAttempt_iff_get? : mayAttempt states a = true ↔
    states.get? a = some .ready ∨ states.get? a = some .open := by
  unfold mayAttempt
  cases states.get? a with
  | none => simp
  | some state => cases state <;> simp

/-- Whether a card is attempted after some calls: they have been answered, the limit leaves room, the card
may be attempted, and all that it refers to is done. -/
structure Attempts (limit : Json) (g : Graph) (states : IdMap CardState) (done : Ids) (n : Nat)
    (calls : List Call) (a : Json) : Prop where
  answered : ∀ c ∈ calls, c.answered = true
  room : (limitReached limit (n + calls.length)).toOption = some false
  state : mayAttempt states a = true
  providers : Ids.within (g.providers a) (doneAfter done calls) = true

theorem attemptCalls_cons_of_attempts (h : Attempts limit g states done n [] a) :
    attemptCalls dryRun limit g states (a :: ids) done n s =
      attemptCall dryRun s a :: if (attemptCall dryRun s a).answered then
        attemptCalls dryRun limit g states ids (doneAfter done [attemptCall dryRun s a]) (n + 1)
          (attemptCall dryRun s a).after
      else [] := by
  have hstate : (mayAttempt states a && Ids.within (g.providers a) done) = true :=
    Bool.and_eq_true _ _ ▸ ⟨h.state, h.providers⟩
  have hroom : (limitReached limit n).toOption = some false := h.room
  rw [attemptCalls, if_pos hroom, if_pos hstate]

theorem attemptCalls_of_limit (h : (limitReached limit n).toOption ≠ some false) :
    attemptCalls dryRun limit g states ids done n s = [] := by
  cases ids with
  | nil => rfl
  | cons a ids =>
    unfold attemptCalls
    rw [if_neg h]

/-- A card that is not attempted is passed over. -/
theorem attemptCalls_cons_of_not (h : ¬Attempts limit g states done n [] a) :
    attemptCalls dryRun limit g states (a :: ids) done n s =
      attemptCalls dryRun limit g states ids done n s := by
  by_cases hroom : (limitReached limit n).toOption = some false
  · have hstate : ¬(mayAttempt states a && Ids.within (g.providers a) done) = true := by
      intro hstate
      obtain ⟨hmay, hproviders⟩ := (Bool.and_eq_true _ _ ▸ hstate : _ ∧ _)
      exact h ⟨List.forall_mem_nil _, hroom, hmay, hproviders⟩
    rw [attemptCalls, if_pos hroom, if_neg hstate]
  · rw [attemptCalls_of_limit hroom, attemptCalls_of_limit hroom]

/-- No card is attempted if each that may be still waits for another one. -/
theorem attemptCalls_eq_nil
    (h : ∀ a ∈ ids, mayAttempt states a = true → Ids.within (g.providers a) done = false) :
    attemptCalls dryRun limit g states ids done n s = [] := by
  induction ids with
  | nil => rfl
  | cons a ids ih =>
    rw [List.forall_mem_cons] at h
    rw [attemptCalls_cons_of_not fun hattempts => ?_]
    · exact ih h.2
    · have hproviders := hattempts.providers
      rw [show doneAfter done [] = done from rfl, h.1 hattempts.state] at hproviders
      cases hproviders

theorem Attempts.cons_iff (hc : c.answered = true) : Attempts limit g states done n (c :: cs) a ↔
    Attempts limit g states (doneAfter done [c]) (n + 1) cs a := by
  have hlength : n + (c :: cs).length = n + 1 + cs.length := by
    rw [List.length_cons]
    omega
  constructor
  · intro h
    exact ⟨fun b hb => h.answered b (List.mem_cons_of_mem _ hb), hlength ▸ h.room, h.state, h.providers⟩
  · intro h
    exact ⟨List.forall_mem_cons.2 ⟨hc, h.answered⟩, hlength ▸ h.room, h.state, h.providers⟩

/-- A card is attempted after some calls as it would be from then on. -/
theorem attempts_iff : Attempts limit g states done n cs a ↔ (∀ c ∈ cs, c.answered = true) ∧
    Attempts limit g states (doneAfter done cs) (n + cs.length) [] a := by
  constructor
  · exact fun h => ⟨h.answered, List.forall_mem_nil _, h.room, h.state, h.providers⟩
  · exact fun ⟨hanswered, h⟩ => ⟨hanswered, h.room, h.state, h.providers⟩

/-- Cards are attempted in turn: first some of them, and then, if all calls have been answered, the
others. -/
theorem attemptCalls_append (first rest : Ids) :
    attemptCalls dryRun limit g states (first ++ rest) done n s =
      let calls := attemptCalls dryRun limit g states first done n s
      calls ++ if calls.all Call.answered then
        attemptCalls dryRun limit g states rest (doneAfter done calls) (n + calls.length)
          (sessionAfter s calls)
      else [] := by
  induction first generalizing done n s with
  | nil => rfl
  | cons a first ih =>
    rw [List.cons_append]
    by_cases h : Attempts limit g states done n [] a
    · rw [attemptCalls_cons_of_attempts h, attemptCalls_cons_of_attempts h]
      cases hc : (attemptCall dryRun s a).answered with
      | true =>
        simp only [if_true, List.cons_append, List.all_cons, hc, Bool.true_and, List.length_cons]
        rw [ih]
        simp only
        rw [Nat.add_right_comm n 1]
        rfl
      | false => simp [hc]
    · rw [attemptCalls_cons_of_not h, attemptCalls_cons_of_not h, ih]

/-- The calls are for the cards in turn. -/
theorem cards_attemptCalls :
    ((attemptCalls dryRun limit g states ids done n s).map (·.request.card)).Sublist ids := by
  induction ids generalizing done n s with
  | nil => exact .slnil
  | cons a ids ih =>
    by_cases h : Attempts limit g states done n [] a
    · rw [attemptCalls_cons_of_attempts h, List.map_cons]
      refine List.Sublist.cons_cons _ ?_
      split
      · exact ih
      · exact List.nil_sublist _
    · rw [attemptCalls_cons_of_not h]
      exact ih.cons a

theorem linked_attemptCalls : Linked s (attemptCalls dryRun limit g states ids done n s) := by
  induction ids generalizing done n s with
  | nil => trivial
  | cons a ids ih =>
    by_cases h : Attempts limit g states done n [] a
    · rw [attemptCalls_cons_of_attempts h]
      refine ⟨rfl, ?_⟩
      split
      · exact ih
      · trivial
    · rw [attemptCalls_cons_of_not h]
      exact ih

/-- **How a call comes about**: after the calls for the cards that come first, the card is attempted. -/
theorem exists_attempts (h : c ∈ attemptCalls dryRun limit g states ids done n s) :
    ∃ first a rest calls more, ids = first ++ a :: rest ∧
      calls = attemptCalls dryRun limit g states first done n s ∧
      attemptCalls dryRun limit g states ids done n s = calls ++ c :: more ∧
      c = attemptCall dryRun (sessionAfter s calls) a ∧ Attempts limit g states done n calls a := by
  induction ids generalizing done n s with
  | nil => cases h
  | cons a ids ih =>
    by_cases hattempts : Attempts limit g states done n [] a
    · rw [attemptCalls_cons_of_attempts hattempts] at h ⊢
      rcases List.mem_cons.1 h with rfl | h
      · exact ⟨[], a, ids, [], _, rfl, rfl, rfl, rfl, hattempts⟩
      split at h
      · rename_i hanswered
        obtain ⟨first, b, rest, calls, more, rfl, rfl, hall, hc, hb⟩ := ih h
        refine ⟨a :: first, b, rest, _, more, rfl, rfl, ?_, ?_, ?_⟩
        · rw [attemptCalls_cons_of_attempts hattempts, if_pos hanswered, if_pos hanswered, hall]
          rfl
        · rw [attemptCalls_cons_of_attempts hattempts, if_pos hanswered]
          exact hc
        · rw [attemptCalls_cons_of_attempts hattempts, if_pos hanswered]
          exact (Attempts.cons_iff hanswered).2 hb
      · cases h
    · rw [attemptCalls_cons_of_not hattempts] at h ⊢
      obtain ⟨first, b, rest, calls, more, rfl, hcalls, hall, hc, hb⟩ := ih h
      refine ⟨a :: first, b, rest, calls, more, rfl, ?_, hall, hc, hb⟩
      rw [attemptCalls_cons_of_not hattempts]
      exact hcalls

/-- **When a call is made for a card** that is named once. -/
theorem exists_call_iff {first rest : Ids} (hids : (Ids.keys (first ++ a :: rest)).Nodup) :
    (∃ c ∈ attemptCalls dryRun limit g states (first ++ a :: rest) done n s, c.request.card.key = a.key) ↔
      Attempts limit g states done n (attemptCalls dryRun limit g states first done n s) a := by
  rw [Ids.keys_append, List.nodup_append] at hids
  have hcards {ids done : Ids} {n : Nat} {s : Session} {c : Call}
      (h : c ∈ attemptCalls dryRun limit g states ids done n s) : c.request.card.key ∈ ids.keys :=
    List.mem_map_of_mem (cards_attemptCalls.subset (List.mem_map_of_mem h))
  rw [attemptCalls_append]
  generalize hcalls : attemptCalls dryRun limit g states first done n s = calls
  simp only
  constructor
  · rintro ⟨c, hc, hk⟩
    rcases List.mem_append.1 hc with hc | hc
    · rw [← hcalls] at hc
      exact absurd hk (hids.2.2 _ (hcards hc) _ (List.mem_cons_self ..))
    split at hc
    · rename_i hanswered
      rw [List.all_eq_true] at hanswered
      by_contra hnot
      rw [attempts_iff] at hnot
      rw [attemptCalls_cons_of_not fun h => hnot ⟨hanswered, h⟩] at hc
      have hrest := hcards hc
      rw [hk] at hrest
      exact (List.nodup_cons.1 hids.2.1).1 hrest
    · cases hc
  · intro h
    obtain ⟨hanswered, hattempts⟩ := attempts_iff.1 h
    rw [if_pos (List.all_eq_true.2 hanswered), attemptCalls_cons_of_attempts hattempts]
    exact ⟨_, List.mem_append_right _ (List.mem_cons_self ..), rfl⟩

/-! ### The run of a batch -/

/-- No limit, or an integer. -/
def IsLimit (limit : Json) : Prop := limit = .null ∨ ∃ k, limit = .int k

theorem exists_limitReached (h : IsLimit limit) (n : Nat) : ∃ b, limitReached limit n = .ok b := by
  rcases h with rfl | ⟨k, rfl⟩
  · exact ⟨false, rfl⟩
  · exact ⟨_, rfl⟩

theorem limitReached_int (k : Int) (n : Nat) : limitReached (.int k) n = .ok (decide (k ≤ n)) := by
  have hge : Number.ge (.int n) (.int k) = decide (k ≤ n) := by
    show (some (compare (n : Int) k) == some .gt || some (compare (n : Int) k) == some .eq) = _
    rcases Int.lt_trichotomy n k with h | h | h
    · rw [Int.compare_eq_lt.2 h, decide_eq_false (by omega)]
      rfl
    · rw [Int.compare_eq_eq.2 h, decide_eq_true (by omega)]
      rfl
    · rw [Int.compare_eq_gt.2 h, decide_eq_true (by omega)]
      rfl
  exact congrArg Except.ok hge

/-- Cards are attempted up to the limit. -/
theorem length_attemptCalls (k : Int) :
    n + (attemptCalls dryRun (.int k) g states ids done n s).length ≤ max k n := by
  induction ids generalizing done n s with
  | nil => exact le_max_right k n
  | cons a ids ih =>
    by_cases h : Attempts (.int k) g states done n [] a
    · rw [attemptCalls_cons_of_attempts h, List.length_cons]
      have hroom : n < k := by
        have h := h.room
        rw [limitReached_int] at h
        have h : decide (k ≤ n) = false := Option.some.inj h
        exact lt_of_not_ge (of_decide_eq_false h)
      split
      · have h : (n + 1 : Nat) + (attemptCalls dryRun (.int k) g states ids
            (doneAfter done [attemptCall dryRun s a]) (n + 1) (attemptCall dryRun s a).after).length ≤
              max k (n + 1 : Nat) := ih
        omega
      · rw [List.length_nil]
        omega
    · rw [attemptCalls_cons_of_not h]
      exact ih

/-- **What attempting cards does is told by the calls.** -/
theorem run_attemptCards (hlimit : IsLimit limit) :
    (attemptCards dryRun limit g states ids done n).run s =
      ((attemptCalls dryRun limit g states ids done n s).mapM Call.outcome,
        sessionAfter s (attemptCalls dryRun limit g states ids done n s)) := by
  induction ids generalizing done n s with
  | nil => rfl
  | cons a ids ih =>
    obtain ⟨reached, hreached⟩ := exists_limitReached hlimit n
    unfold attemptCards
    rw [hreached, Steps.run_ofExcept_bind_ok]
    cases reached with
    | true =>
      rw [attemptCalls_of_limit (by rw [hreached]; simp [Except.toOption])]
      rfl
    | false =>
      simp only [Bool.false_eq_true, if_false]
      by_cases h : Attempts limit g states done n [] a
      · have hstate : (mayAttempt states a && Ids.within (g.providers a) done) = true :=
          Bool.and_eq_true _ _ ▸ ⟨h.state, h.providers⟩
        rw [if_pos hstate, attemptCalls_cons_of_attempts h, Steps.run_bind]
        generalize hc : attemptCall dryRun s a = c
        have hrun : (transfer { Request.usual a with dryRun }).run s = (c.outcome, c.after) := by
          rw [← hc]
          rfl
        rw [hrun]
        cases ho : c.outcome with
        | ok o =>
          have hdone : (if o.ok then done.add a else done) = doneAfter done [c] := by
            unfold doneAfter Call.succeeded
            rw [List.foldl_cons, List.foldl_nil, ho, ← hc]
            rfl
          have hanswered : c.answered = true := by
            unfold Call.answered
            rw [ho]
            rfl
          simp only
          rw [hdone, Steps.run_bind_pure, ih, if_pos hanswered, List.mapM_cons, ho]
          rfl
        | error f =>
          have hanswered : ¬c.answered = true := by
            unfold Call.answered
            rw [ho]
            exact Bool.false_ne_true
          rw [if_neg hanswered, List.mapM_cons, ho]
          rfl
      · have hstate : ¬(mayAttempt states a && Ids.within (g.providers a) done) = true := by
          intro hstate
          obtain ⟨hmay, hproviders⟩ := (Bool.and_eq_true _ _ ▸ hstate : _ ∧ _)
          refine h ⟨List.forall_mem_nil _, ?_, hmay, hproviders⟩
          rw [List.length_nil, Nat.add_zero, hreached]
          rfl
        rw [if_neg hstate, attemptCalls_cons_of_not h]
        exact ih

/-- What a batch has read before it attempts the first card. -/
structure Batch (s : Session) where
  cards : List Card
  start : Session
  order : Ids
  stuck : Ids
  states : IdMap CardState
  listed : listSourceCards.run s = (.ok cards, start)
  ordered : batchOrder cards = .ok (order, stuck)
  stated : (Session.states cards).run start = (.ok states, start)
  read : StatesRead start cards states

/-- The calls of a batch; none if it does not come to its cards. -/
def transferCalls (dryRun limit : Json) (s : Session) : List Call :=
  match listSourceCards.run s with
  | (.ok cards, start) =>
    match batchOrder cards, Graph.ofCards cards, (Session.states cards).run start,
        Store.cardMap start.directory with
    | .ok (order, _), .ok g, (.ok states, _), .ok mapped =>
      attemptCalls dryRun limit g states order (IdMap.ids mapped) 0 start
    | _, _, _, _ => []
  | (.error _, _) => []

/-- A batch that does not come to its cards ends in a fault and does nothing but list the cards. -/
theorem batch_or_fault (s : Session) : Nonempty (Batch s) ∨
    ∀ dryRun limit, transferCalls dryRun limit s = [] ∧
      ∃ f, (transferAll dryRun limit).run s = (.error f, (listSourceCards.run s).2) := by
  cases hlisted : listSourceCards.run s with
  | mk r start =>
    cases r with
    | error f =>
      refine .inr fun dryRun limit => ⟨by unfold transferCalls; rw [hlisted], f, ?_⟩
      unfold transferAll
      rw [Steps.run_bind, hlisted]
    | ok cards =>
      cases hordered : batchOrder cards with
      | error f =>
        refine .inr fun dryRun limit => ⟨by unfold transferCalls; rw [hlisted]; simp only [hordered], f, ?_⟩
        unfold transferAll
        rw [Steps.run_bind, hlisted]
        simp only
        rw [hordered]
        rfl
      | ok p =>
        have hstay := keeps_states cards start
        cases hstated : (Session.states cards).run start with
        | mk r t =>
          rw [hstated] at hstay
          change start = t at hstay
          subst hstay
          cases r with
          | error f =>
            refine .inr fun dryRun limit => ⟨?_, f, ?_⟩
            · unfold transferCalls
              rw [hlisted]
              simp only [hordered, hstated]
              cases Graph.ofCards cards <;> rfl
            · unfold transferAll
              rw [Steps.run_bind, hlisted]
              simp only
              rw [hordered, Steps.run_ofExcept_bind_ok, Steps.run_bind, hstated]
          | ok states =>
            obtain ⟨read⟩ := exists_statesRead (congrArg Prod.fst hstated)
            exact .inl ⟨⟨cards, start, p.1, p.2, states, hlisted, hordered, hstated, read⟩⟩

namespace Batch

/-- The graph of the cards of a batch. -/
def graph (b : Batch s) : Graph := b.read.graph

/-- The cards that are in the card map when a batch begins. -/
def mapped (b : Batch s) : Ids := IdMap.ids b.read.mapped

theorem transferCalls_eq (b : Batch s) : transferCalls dryRun limit s =
    attemptCalls dryRun limit b.graph b.states b.order b.mapped 0 b.start := by
  unfold transferCalls
  rw [b.listed]
  simp only
  rw [b.ordered, b.read.drawn, b.stated, b.read.readMap]
  rfl

/-- The failures of the cards that are left out. -/
def failures (b : Batch s) : List Outcome := b.stuck.map (stuckFailure b.cards)

/-- **The run of a batch**: the failures of the cards that are left out come before the outcomes of the
calls. -/
theorem run (b : Batch s) (dryRun : Json) (hlimit : IsLimit limit) :
    (transferAll dryRun limit).run s =
      (((transferCalls dryRun limit s).mapM Call.outcome).map (b.failures ++ ·),
        sessionAfter b.start (transferCalls dryRun limit s)) := by
  rw [b.transferCalls_eq]
  unfold transferAll
  rw [Steps.run_bind, b.listed]
  simp only
  rw [b.ordered, Steps.run_ofExcept_bind_ok, Steps.run_bind, b.stated]
  simp only
  rw [b.read.drawn, Steps.run_ofExcept_bind_ok]
  unfold transferredIds
  rw [Steps.run_bind, Steps.run_bind, run_readStore b.read.readMap]
  exact (Steps.run_bind_pure _ _ _).trans (by rw [run_attemptCards hlimit]; rfl)

/-- A batch comes to its cards if they can be listed, have integer ids, and have states. -/
theorem exists_of_states {cards : List Card} {start : Session}
    (hlisted : listSourceCards.run s = (.ok cards, start)) (hids : ∀ c ∈ cards, c.id.isInt = true)
    (hstates : ((Session.states cards).run start).1 = .ok states) :
    ∃ b : Batch s, b.cards = cards ∧ b.start = start ∧ b.states = states := by
  obtain ⟨r⟩ := exists_statesRead hstates
  obtain ⟨order, stuck, hordered, -⟩ := exists_batchOrder r.drawn hids
  have hstated : (Session.states cards).run start = (.ok states, start) :=
    Prod.ext hstates (keeps_states cards start).symm
  exact ⟨⟨cards, start, order, stuck, states, hlisted, hordered, hstated, r⟩, rfl, rfl, rfl⟩

/-- The state of a card when a batch begins. -/
theorem get?_states (b : Batch s) (id : Json) : b.states.get? id = if b.graph.listed id then
    some (stateOf b.graph b.mapped (b.read.waiting.without b.mapped)
      (b.graph.blocked b.read.seeds b.mapped) id)
    else none :=
  (congrArg (IdMap.get? · id) b.read.eq).trans (CardTransfer.get?_states b.read.drawn)

/-- Which cards a batch may attempt: those that are listed and neither in the card map, nor in the waiting
area, nor blocked. -/
theorem mayAttempt_iff (b : Batch s) (id : Json) : mayAttempt b.states id = true ↔
    b.graph.listed id = true ∧ b.mapped.has id = false ∧
      (b.read.waiting.without b.mapped).has id = false ∧
        (b.graph.blocked b.read.seeds b.mapped).has id = false := by
  rw [mayAttempt_iff_get?, b.get?_states]
  cases b.graph.listed id with
  | true =>
    rw [if_pos rfl, Option.some.injEq, Option.some.injEq, stateOf_attemptable_iff]
    simp
  | false => simp

/-- The order of a batch has each listed card once, except for those in a circle or behind one. -/
theorem order_spec (b : Batch s) : b.graph.Ordered b.stuck b.order ∧ b.stuck.keys.Nodup ∧
    ∀ a, b.stuck.has a = true ↔ b.graph.Circular a :=
  ordered_of_batchOrder b.read.drawn b.ordered

/-- The calls of a batch are for cards of its order in turn. -/
theorem cards_transferCalls (b : Batch s) (dryRun limit : Json) :
    ((transferCalls dryRun limit s).map (·.request.card)).Sublist b.order := by
  rw [b.transferCalls_eq]
  exact cards_attemptCalls

/-- No card is called for twice. -/
theorem nodup_calls (b : Batch s) (dryRun limit : Json) :
    ((transferCalls dryRun limit s).map (·.request.card.key)).Nodup := by
  have hcards := (b.cards_transferCalls dryRun limit).map Json.key
  rw [List.map_map] at hcards
  exact b.order_spec.1.once.sublist hcards

end Batch

end Session
end CardTransfer

/-!
## Which ready cards a batch attempts

All that a ready card refers to is in the card map already, so whether it is in a circle of references or
behind one does not matter for its transfer. A batch goes by an order of all listed cards, though, which
heeds references to cards that have been transferred as well: a ready card behind a circle is never
attempted. Every other one is attempted once, unless an earlier call ends in a fault
(`ready_attempted_iff`).
-/

namespace CardTransfer
namespace Session

variable {s start : Session} {dryRun limit : Json} {cards : List Card} {states : IdMap CardState}
  {g : Graph} {id : Json}

/-- Whether a card comes before another one in an order. -/
def Precedes (order : Ids) (a b : Json) : Prop := order.keys.idxOf a.key < order.keys.idxOf b.key

/-- How many calls a batch makes for a card. -/
def callsFor (dryRun limit : Json) (s : Session) (id : Json) : Nat :=
  (transferCalls dryRun limit s).countP (·.request.card.sameId id)

theorem precedes_iff {first rest : Ids} {a b : Json} (h : (Ids.keys (first ++ b :: rest)).Nodup) :
    Precedes (first ++ b :: rest) a b ↔ Ids.has first a = true := by
  rw [Ids.keys_append, List.nodup_append] at h
  have hb : b.key ∉ Ids.keys first := fun hmem => h.2.2 _ hmem _ (List.mem_cons_self ..) rfl
  have hplace : (Ids.keys (first ++ b :: rest)).idxOf b.key = (Ids.keys first).length := by
    rw [Ids.keys_append, List.idxOf_append_of_notMem hb]
    show (Ids.keys first).length + List.idxOf b.key (b.key :: Ids.keys rest) = _
    rw [List.idxOf_cons_self, Nat.add_zero]
  unfold Precedes
  rw [hplace, Ids.keys_append, ← Ids.mem_keys]
  constructor
  · intro hlt
    by_contra hnot
    rw [List.idxOf_append_of_notMem hnot] at hlt
    omega
  · intro hmem
    rw [List.idxOf_append_of_mem hmem]
    exact List.idxOf_lt_length_of_mem hmem

theorem Batch.callsFor_le_one (b : Batch s) (dryRun limit id : Json) :
    callsFor dryRun limit s id ≤ 1 := by
  have hcount := List.nodup_iff_count_le_one.1 (b.nodup_calls dryRun limit) id.key
  rw [List.count, List.countP_map] at hcount
  exact hcount

theorem callsFor_pos_iff :
    0 < callsFor dryRun limit s id ↔ ∃ c ∈ transferCalls dryRun limit s, c.request.card.key = id.key := by
  unfold callsFor
  rw [List.countP_pos_iff]
  simp only [Json.sameId_iff]

/-- A ready card of the order is called for if all calls for earlier cards have been answered. -/
theorem Batch.exists_call_of_ready (b : Batch s) (dryRun : Json) {first rest : Ids} (horder : b.order = first ++ id :: rest)
    (hready : b.states.get? id = some .ready) :
    (∃ c ∈ transferCalls dryRun .null s, c.request.card.key = id.key) ↔
      ∀ c ∈ transferCalls dryRun .null s, Precedes b.order c.request.card id → c.answered = true := by
  have honce := b.order_spec.1.once
  have hproviders : Ids.within (b.graph.providers id) b.mapped = true := by
    have hstate := b.get?_states id
    rw [hready] at hstate
    split at hstate
    · exact (stateOf_ready_iff.1 (Option.some.inj hstate).symm).2.2.2
    · cases hstate
  rw [b.transferCalls_eq, horder]
  rw [horder] at honce
  rw [exists_call_iff honce]
  simp only [precedes_iff honce]
  have hmem {ids done : Ids} {n : Nat} {s : Session} {c : Call}
      (h : c ∈ attemptCalls dryRun .null b.graph b.states ids done n s) : c.request.card ∈ ids :=
    cards_attemptCalls.subset (List.mem_map_of_mem h)
  constructor
  · intro h c hc hfirst
    rw [attemptCalls_append, List.mem_append] at hc
    rcases hc with hc | hc
    · exact h.answered c hc
    split at hc
    · -- this call is for the card itself or a later one
      rw [Ids.keys_append, List.nodup_append] at honce
      exact absurd rfl (honce.2.2 _ (Ids.mem_keys.2 hfirst) _ (List.mem_map_of_mem (hmem hc)))
    · cases hc
  · intro h
    refine ⟨fun c hc => h c ?_ (Ids.has_of_mem (hmem hc)), rfl, mayAttempt_iff_get?.2 (.inl hready), ?_⟩
    · rw [attemptCalls_append]
      exact List.mem_append_left _ hc
    · rw [Ids.within_iff] at hproviders ⊢
      exact fun p hp => has_doneAfter.2 (.inl (hproviders p hp))

/-- **Which ready cards a batch attempts**, if it has no limit and all cards that are listed have integer
ids: a card that is ready when the batch begins is called for at most once, and it is called for just if it
is neither in a circle of listed references nor behind one, and no call for a card that comes before it in
the order has ended in a fault. -/
theorem ready_attempted_iff (hlisted : listSourceCards.run s = (.ok cards, start))
    (hids : ∀ c ∈ cards, c.id.isInt = true) (hstates : ((Session.states cards).run start).1 = .ok states) :
    ∃ g order stuck, Graph.ofCards cards = .ok g ∧ batchOrder cards = .ok (order, stuck) ∧
      ∀ id, states.get? id = some .ready → callsFor dryRun .null s id ≤ 1 ∧
        (callsFor dryRun .null s id = 1 ↔ ¬g.Circular id ∧
          ∀ c ∈ transferCalls dryRun .null s, Precedes order c.request.card id → c.answered = true) := by
  obtain ⟨b, rfl, rfl, rfl⟩ := Batch.exists_of_states hlisted hids hstates
  obtain ⟨hordered, -, hstuck⟩ := b.order_spec
  refine ⟨b.graph, b.order, b.stuck, b.read.drawn, b.ordered, fun id hready => ?_⟩
  have hle := b.callsFor_le_one dryRun .null id
  refine ⟨hle, ?_⟩
  have hone : callsFor dryRun .null s id = 1 ↔ 0 < callsFor dryRun .null s id := by omega
  rw [hone, callsFor_pos_iff, ← hstuck]
  have hlistedId : b.graph.listed id = true := by
    have hstate := b.get?_states id
    rw [hready] at hstate
    split at hstate
    · assumption
    · cases hstate
  cases hid : b.stuck.has id with
  | true =>
    -- a card that is left out is not in the order
    have hnot : b.order.has id = false := by
      rw [Bool.eq_false_iff, Ne, hordered.has_iff, hid]
      exact fun h => nomatch h.2
    refine ⟨?_, fun h => absurd rfl h.1⟩
    rintro ⟨c, hc, hk⟩
    have hmem := (b.cards_transferCalls dryRun .null).subset (List.mem_map_of_mem hc)
    rw [← Ids.has_congr hk, Ids.has_of_mem hmem] at hnot
    cases hnot
  | false =>
    obtain ⟨a, ha, hk⟩ := (Ids.has_iff _ _).1 ((hordered.has_iff id).2 ⟨hlistedId, hid⟩)
    obtain ⟨first, rest, horder⟩ := List.append_of_mem ha
    have hcalled := b.exists_call_of_ready dryRun horder (by rw [IdMap.get?_congr hk]; exact hready)
    unfold Precedes at hcalled ⊢
    rw [hk] at hcalled
    rw [hcalled]
    exact ⟨fun h => ⟨Bool.false_ne_true, h⟩, fun h => h.2⟩

/-! ### A card behind a circle -/

/-- Cards 7 and 8, which refer to each other and have been transferred, and card 9, which refers to card
7. -/
def behindCircle : Session :=
  batchSession [structuredCard 7 (.str "card__8"), structuredCard 8 (.str "card__7"),
    structuredCard 9 (.str "card__7")] ⟨[(Store.cardPath, "\x7b\"7\": 70, \"8\": 80\x7d")]⟩

/-- The states of all cards are those of the cards that are listed. -/
theorem exists_listed_of_allStates (h : (allStates.run s).1 = .ok states) : ∃ cards start,
    listSourceCards.run s = (.ok cards, start) ∧ ((Session.states cards).run start).1 = .ok states := by
  obtain ⟨cards, start, hlisted, hstates⟩ := Steps.run_bind_eq_ok.1 (Prod.ext h rfl)
  exact ⟨cards, start, hlisted, congrArg Prod.fst hstates⟩

theorem isInt_of_listed (hlisted : listSourceCards.run s = (.ok cards, start))
    (h : ((listSourceCards.run s).1.toOption.map fun cards => cards.all (·.id.isInt)) = some true) :
    ∀ c ∈ cards, c.id.isInt = true := by
  rw [hlisted] at h
  exact List.all_eq_true.1 (Option.some.inj h)

/-- The cards of the session can be listed, have integer ids and have states. -/
theorem ready_attempted_iff_behindCircle : ∃ cards start states,
    listSourceCards.run behindCircle = (.ok cards, start) ∧ (∀ c ∈ cards, c.id.isInt = true) ∧
      ((Session.states cards).run start).1 = .ok states ∧
        ∃ g order stuck, Graph.ofCards cards = .ok g ∧ batchOrder cards = .ok (order, stuck) ∧
          ∀ id, states.get? id = some .ready → callsFor (.bool false) .null behindCircle id ≤ 1 ∧
            (callsFor (.bool false) .null behindCircle id = 1 ↔ ¬g.Circular id ∧
              ∀ c ∈ transferCalls (.bool false) .null behindCircle,
                Precedes order c.request.card id → c.answered = true) := by
  have hints : ((listSourceCards.run behindCircle).1.toOption.map fun cards =>
      cards.all (·.id.isInt)) = some true := by decide +kernel
  have hall : (allStates.run behindCircle).1.isOk = true := by decide +kernel
  obtain ⟨states, hall⟩ := exists_ok_of_isOk hall
  obtain ⟨cards, start, hlisted, hstates⟩ := exists_listed_of_allStates hall
  have hids := isInt_of_listed hlisted hints
  exact ⟨cards, start, states, hlisted, hids, hstates, ready_attempted_iff hlisted hids hstates⟩

/-- **A ready card behind a circle is never attempted**, although the batch ends well. -/
theorem behindCircle_not_attempted :
    (allStates.run behindCircle).1.toOption.bind (·.get? (.int 9)) = some .ready ∧
      callsFor (.bool false) .null behindCircle (.int 9) = 0 ∧
        ((transferAll (.bool false) .null).run behindCircle).1.isOk = true :=
  ⟨by decide +kernel, by decide +kernel, by decide +kernel⟩

end Session
end CardTransfer
