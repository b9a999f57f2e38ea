import CardTransfer.Proofs.Transfer.Frame
import CardTransfer.Proofs.Transfer.Stage
import CardTransfer.Proofs.Transfer.Waiting

/-!
# A whole request

A request sets the terms and the path of a transfer (`Request.terms`). The transfer of the card runs
on them, and whatever comes of it becomes an outcome; unless it was a dry run, the waiting area is
brought up to date with it then (`run_transfer`). The waiting area is all that this last step
changes (`exists_run_updateWaiting`).
-/

namespace CardTransfer
namespace Session

variable {r : Request} {s : Session}

/-- The deadline that a request sets; a fault if its timeout is no number of seconds. -/
def Request.deadline (r : Request) (s : Session) : Except Fault (Option Number) :=
  let seconds := (r.timeout.toOption).getD s.settings.timeout
  if seconds.truthy then some <$> Json.plus "+" s.clock seconds else .ok none

/-- The cards that a request has visited; a fault if they cannot be listed. -/
def Request.visitedIds (r : Request) : Except Fault Ids := do
  (← (r.visited.orElse (.arr [])).each).mapM Json.asKey

/-- The terms and the path that a request sets. -/
def Request.terms (r : Request) (s : Session) : Except Fault (Terms × Ids) := do
  let deadline ← r.deadline s
  let visited ← r.visitedIds
  return (⟨r.dryRun, r.force, r.collection, deadline⟩, Ids.distinct visited)

/-- The terms of a request have what it says. -/
theorem Request.eq_of_terms {terms : Terms} {path : Ids} (h : r.terms s = .ok (terms, path)) :
    ∃ deadline, terms = ⟨r.dryRun, r.force, r.collection, deadline⟩ := by
  obtain ⟨deadline, -, h⟩ := bind_eq_ok.1 h
  obtain ⟨visited, -, h⟩ := bind_eq_ok.1 h
  cases h
  exact ⟨deadline, rfl⟩

theorem Request.deadline_of_terms {terms : Terms} {path : Ids} (h : r.terms s = .ok (terms, path)) :
    r.deadline s = .ok terms.deadline := by
  obtain ⟨deadline, hdeadline, h⟩ := bind_eq_ok.1 h
  obtain ⟨visited, -, h⟩ := bind_eq_ok.1 h
  cases h
  exact hdeadline

/-- The path of a request that has visited no cards is empty. -/
theorem Request.path_of_terms {terms : Terms} {path : Ids} (hvisited : r.visited = .null)
    (h : r.terms s = .ok (terms, path)) : path = [] := by
  obtain ⟨deadline, -, h⟩ := bind_eq_ok.1 h
  obtain ⟨visited, hids, h⟩ := bind_eq_ok.1 h
  unfold Request.visitedIds at hids
  rw [hvisited] at hids
  cases hids
  cases h
  rfl

/-- The run of the transfer of a card, on the terms and the path of a request. -/
def Request.transferCard (r : Request) (s : Session) (terms : Terms) (path : Ids) :
    Except Fault Outcome × Session :=
  (Session.transferCard s.levels terms path r.card).run s

theorem run_deadlineIn (r : Request) (s : Session) :
    (deadlineIn r.timeout).run s = (r.deadline s, s) := by
  unfold deadlineIn Request.deadline
  rw [Steps.run_get_bind]
  simp only
  split
  · rw [Steps.run_bind]
    cases Json.plus "+" s.clock ((r.timeout.toOption).getD s.settings.timeout) with
    | ok n => rfl
    | error f => rfl
  · rfl

/-- **How a request runs.** One that cannot be used changes nothing. -/
theorem run_transfer (r : Request) (s : Session) :
    (transfer r).run s = match r.terms s with
      | .error f => (.error f, s)
      | .ok (terms, path) =>
        let c := r.transferCard s terms path
        let o := outcomeOf r.card c.1
        if r.dryRun.truthy then (.ok o, c.2)
        else (((updateWaiting o).run c.2).1.map fun _ => o, ((updateWaiting o).run c.2).2) := by
  unfold transfer Request.terms
  rw [Steps.run_bind, run_deadlineIn]
  cases r.deadline s with
  | error f => rfl
  | ok deadline =>
    change (Steps.ofExcept r.visitedIds >>= _).run s = _
    cases r.visitedIds with
    | error f => rfl
    | ok visited =>
      rw [Steps.run_ofExcept_bind_ok, Steps.run_get_bind, Steps.run_outcome_bind]
      show _ = if r.dryRun.truthy then _ else _
      cases hdry : r.dryRun.truthy with
      | true => rfl
      | false =>
        exact Steps.run_bind_pure (updateWaiting _) _ _

/-- Bringing the waiting area up to date leaves the card map alone. -/
theorem cardObject_update {time : String} {reports : List Report} {d d' : Directory}
    (h : WaitingArea.update time reports d = .ok d') : Store.cardObject d' = Store.cardObject d := by
  unfold WaitingArea.update at h
  obtain ⟨waiting, -, h⟩ := bind_eq_ok.1 h
  obtain ⟨area, -, h⟩ := bind_eq_ok.1 h
  obtain ⟨-, -, h⟩ := bind_eq_ok.1 h
  obtain ⟨rows, -, h⟩ := bind_eq_ok.1 h
  exact Store.cardObject_setState h

/-- All that bringing the waiting area up to date changes is the store, and the card map there is as it was. -/
theorem exists_run_updateWaiting (o : Outcome) (s : Session) : ∃ d,
    ((updateWaiting o).run s).2 = { s with directory := d } ∧
      Store.cardObject d = Store.cardObject s.directory := by
  unfold updateWaiting writeStore
  rw [Steps.run_get_bind, Steps.run_get_bind]
  cases hupdate : WaitingArea.update s.today o.reports s.directory with
  | error f => exact ⟨s.directory, rfl, rfl⟩
  | ok d => exact ⟨d, rfl, cardObject_update hupdate⟩

/-- Bringing the waiting area up to date fails if the store does not let it. -/
theorem run_updateWaiting (o : Outcome) :
    ((updateWaiting o).run s).1 =
      (WaitingArea.update s.today o.reports s.directory).map fun _ => () := by
  unfold updateWaiting writeStore
  rw [Steps.run_get_bind, Steps.run_get_bind]
  cases WaitingArea.update s.today o.reports s.directory with
  | error f => rfl
  | ok d => rfl

/-- All that an update of the waiting area changes is the store. -/
theorem run_updateWaiting_of_ok {o : Outcome} {d : Directory}
    (h : WaitingArea.update s.today o.reports s.directory = .ok d) :
    (updateWaiting o).run s = (.ok (), { s with directory := d }) := by
  unfold updateWaiting writeStore
  rw [Steps.run_get_bind, Steps.run_get_bind]
  simp only [h]
  rfl

/-- A request that can be used transfers its card, and apart from that changes at most the store, where the
card map stays as it is. What it answers is the outcome of the transfer. -/
theorem transfer_store_cases {e : Except Fault Outcome} {t : Session} (h : (transfer r).run s = (e, t)) :
    (t = s ∧ ∃ f, e = .error f) ∨ ∃ terms path o u d, r.terms s = .ok (terms, path) ∧
      (transferCard s.levels terms path r.card).run s = (o, u) ∧ t = { u with directory := d } ∧
        Store.cardObject d = Store.cardObject u.directory ∧ ∀ x, e = .ok x → x = outcomeOf r.card o := by
  rw [run_transfer] at h
  cases hterms : r.terms s with
  | error f =>
    rw [hterms] at h
    cases h
    exact .inl ⟨rfl, f, rfl⟩
  | ok p =>
    obtain ⟨terms, path⟩ := p
    rw [hterms] at h
    simp only at h
    split at h
    · cases h
      exact .inr ⟨terms, path, _, _, _, rfl, rfl, rfl, rfl, fun x hx => (Except.ok.inj hx).symm⟩
    · obtain ⟨d, hd, hsame⟩ := exists_run_updateWaiting (outcomeOf r.card (r.transferCard s terms path).1)
        (r.transferCard s terms path).2
      cases h
      refine .inr ⟨terms, path, _, _, d, rfl, rfl, hd, hsame, fun x hx => ?_⟩
      obtain ⟨-, -, hx⟩ := map_eq_ok.1 hx
      exact hx.symm

theorem transfer_terms_cases {e : Except Fault Outcome} {t : Session} (h : (transfer r).run s = (e, t)) :
    (t = s ∧ ∃ f, e = .error f) ∨ ∃ terms path o u, r.terms s = .ok (terms, path) ∧
      (transferCard s.levels terms path r.card).run s = (o, u) ∧
        Idle u t ∧ ∀ x, e = .ok x → x = outcomeOf r.card o := by
  rcases transfer_store_cases h with hsame | ⟨terms, path, o, u, d, hterms, hrun, rfl, hd, hanswer⟩
  · exact .inl hsame
  · exact .inr ⟨terms, path, o, u, hterms, hrun, ⟨⟨rfl, rfl, hd, rfl, rfl⟩, rfl, rfl⟩, hanswer⟩

theorem transfer_cases {e : Except Fault Outcome} {t : Session} (h : (transfer r).run s = (e, t)) :
    (t = s ∧ ∃ f, e = .error f) ∨ ∃ deadline path o u,
      (transferCard s.levels ⟨r.dryRun, r.force, r.collection, deadline⟩ path r.card).run s = (o, u) ∧
        Idle u t ∧ ∀ x, e = .ok x → x = outcomeOf r.card o := by
  rcases transfer_terms_cases h with hsame | ⟨terms, path, o, u, hterms, hrun⟩
  · exact .inl hsame
  · obtain ⟨deadline, rfl⟩ := Request.eq_of_terms hterms
    exact .inr ⟨deadline, path, o, u, hrun⟩

/-! ### Dry runs -/

variable {terms : Terms} {path : Ids} {id : Json} {t : Session}

/-- **A dry run writes nothing**: it is idle, over any number of levels. -/
theorem idle_transferCard_of_dryRun {n : Nat} {o : Except Fault Outcome}
    (hdry : terms.dryRun.truthy = true) (h : (transferCard n terms path id).run s = (o, t)) :
    Idle s t := by
  induction n generalizing terms path id s t o with
  | zero =>
    cases h
    exact Std.Refl.refl s
  | succ n ih =>
    have hdry' : terms.forProviders.dryRun.truthy = true := hdry
    have hrun := cardRun terms (transferCard n terms.forProviders (path.add id)) path id s
    change (transferVia terms _ path id).run s = _ at h
    rw [h] at hrun
    have hproviders (g : Fetched path id s) {p : Except Fault (List Outcome × Option Stop)}
        {u : Session}
        (hg : g.transferProviders terms (transferCard n terms.forProviders (path.add id)) = (p, u)) :
        Idle s u :=
      (run_transferProviders (P := Idle s) (D := fun _ _ => True)
        (fun _ _ _ _ _ hv hrun => ⟨hv.trans (ih hdry' hrun), fun _ _ _ => trivial, fun _ _ => trivial⟩)
        g.idle hg).1
    cases hrun with
    | left idle failed => exact idle
    | stopped g run stop failed => exact hproviders g run
    | ready g run ready =>
      have hidle := hproviders g run
      cases ready with
      | unwritten idle failed => exact hidle.trans idle
      | before unforced read idle newId => exact hidle.trans idle
      | dry dry idle => exact hidle.trans idle
      | refused d tried answer attempted failed =>
        have hlive := d.live
        rw [hdry] at hlive
        cases hlive
      | written d tried answer attempted set settings correspondence attempts commits newId =>
        have hlive := d.live
        rw [hdry] at hlive
        cases hlive

/-! ### Small sessions -/

/-- A card with a structured query from a source. -/
def structuredCard (id : Int) (source : Json) : Json × Json :=
  (.int id, .obj [("id", .int id), ("name", .str "A"), ("dataset_query", .obj [
    ("type", .str "query"), ("database", .int 1), ("query", .obj [("source-table", source)])])])

/-- A session with some cards, in which table 5 corresponds to table 50. -/
def smallSession (cards : IdMap Json) (d : Directory) : Session :=
  { (default : Session) with
    metabase := { (default : Metabase.Instance) with
      cards, nextId := 1001, fetchTime := .int 0 }
    clock := .int 0
    directory := d
    correspondence := { (default : Correspondence) with tables := [(.int 5, .int 50)] } }

/-- A live request for a card, forced or not. -/
def liveRequest (id : Int) (force : Bool) : Request :=
  ⟨.int id, .bool false, force, .null, .null, .null⟩

end Session
end CardTransfer

/-!
## When a request is answered

Whatever goes wrong in the transfer of a card becomes an outcome. So a request is left without answer
only by what stands before the transfer, the timeout and the cards visited, and by what comes after it,
the update of the waiting area (`transfer_answered_iff`). The transfer itself does not touch the file of
the waiting area (`steady_transferCard`): whether the update succeeds is decided by the store as it was
when the request was made, and by the reports.
-/

namespace CardTransfer
namespace Session

open Directory (SameAt)
open Relation (ReflTransGen)
open Steps (Keeps keeps_pure keeps_modify)

variable {α : Type} {r : Request} {s t u : Session}

/-! ### What a transfer leaves of the waiting area -/

/-- The day is the same, and so is what is at the path of the waiting area. -/
structure Steady (s t : Session) : Prop where
  today : t.today = s.today
  waiting : SameAt WaitingArea.path s.directory t.directory

theorem Steady.trans (h₁ : Steady s t) (h₂ : Steady t u) : Steady s u :=
  ⟨h₂.today.trans h₁.today, h₁.waiting.trans h₂.waiting⟩

theorem Steady.of_eq (htoday : t.today = s.today) (hdirectory : t.directory = s.directory) :
    Steady s t :=
  ⟨htoday, by rw [hdirectory]; exact .refl _ _⟩

instance : Std.Refl Steady := ⟨fun _ => .of_eq rfl rfl⟩

instance : IsTrans Session Steady := ⟨fun _ _ _ h₁ h₂ => h₁.trans h₂⟩

theorem Steady.of_calm (s t : Session) (h : Calm s t) : Steady s t := by
  refine ⟨h.today, ?_⟩
  have hrenderings := h.renderings
  generalize t.directory = d at hrenderings ⊢
  induction hrenderings with
  | refl => exact .refl _ _
  | tail _ hlast ih =>
    obtain ⟨key, text, hput⟩ := hlast
    exact ih.trans (Store.sameAt_putCached hput (by decide +kernel))

theorem steady_call (steps : Steps Metabase.Instance α) : Keeps Steady (call steps) :=
  fun _ => .of_eq rfl rfl

theorem steady_note (event : Event) : Keeps Steady (note event) :=
  (calm_note event).imp Steady.of_calm

theorem steady_putCard (card : Card) (replaced : Option Json) (definition : Members) :
    Keeps Steady (putCard card replaced definition) := by
  cases replaced with
  | some target =>
    exact ((steady_call _).bind fun _ => steady_note _).bind fun _ => keeps_pure _
  | none => exact (steady_call _).bind fun _ => (steady_note _).bind fun _ => keeps_pure _

theorem steady_enterCard (source target : Json) : Keeps Steady (enterCard source target) := by
  have hwrite : Keeps Steady (writeStore (Store.setCard · source target)) :=
    keeps_writeStore fun s d h =>
      ⟨rfl, Store.sameAt_setCard h (by decide +kernel) (by decide +kernel)⟩
  exact hwrite.bind fun _ => keeps_modify fun _ => .of_eq rfl rfl

/-- **A transfer does not touch the file of the waiting area.** -/
theorem steady_transferCard (levels : Nat) (terms : Terms) (path : Ids) (id : Json) :
    Keeps Steady (transferCard levels terms path id) := by
  refine keeps_transferCard (P := fun _ => True) .of_calm (fun _ _ => trivial) ?_ trivial levels path id
  intro terms _ id card existing q
  exact keeps_commit .of_calm (steady_putCard card)
    (fun _ _ _ => keeps_modify fun _ => .of_eq rfl rfl)
    (fun _ _ => (steady_call _).bind fun _ => steady_note _) (steady_enterCard id) existing q

/-! ### The terms of a request -/

/-- The seconds that a request sets, or else the settings. -/
def Request.seconds (r : Request) (s : Session) : Json := (r.timeout.toOption).getD s.settings.timeout

/-- The seconds of a request, unless they are none, are a number that can be added to the clock. The
only numbers that cannot are integers too large for a double, if the clock shows a double. -/
def Request.Timely (r : Request) (s : Session) : Prop := (r.seconds s).truthy = true →
  ∃ n, (r.seconds s).number? = some n ∧
    ∀ x k, s.clock = .float x → n = .int k → (Decimal.ofInt? k).isSome = true

/-- A value can be added to a clock if it is a number that is not too large for it. -/
theorem plus_isOk_iff {clock : Number} {v : Json} : (∃ n, Json.plus "+" clock v = .ok n) ↔
    ∃ n, v.number? = some n ∧
      ∀ x k, clock = .float x → n = .int k → (Decimal.ofInt? k).isSome = true := by
  unfold Json.plus
  cases hv : v.number? with
  | none => simp
  | some n =>
    cases clock with
    | int k => simp
    | float x =>
      cases n with
      | float y => simp
      | int k => cases hk : (Decimal.ofInt? k).isSome <;> simp [hk]

theorem deadline_isOk_iff : (∃ deadline, r.deadline s = .ok deadline) ↔ r.Timely s := by
  have hdeadline : r.deadline s =
      if (r.seconds s).truthy then some <$> Json.plus "+" s.clock (r.seconds s) else .ok none := rfl
  rw [hdeadline, Request.Timely, ← plus_isOk_iff]
  cases (r.seconds s).truthy with
  | false => exact ⟨fun _ h => (nomatch h), fun _ => ⟨none, rfl⟩⟩
  | true =>
    rw [if_pos rfl]
    cases Json.plus "+" s.clock (r.seconds s) with
    | error f => exact ⟨fun ⟨_, h⟩ => (nomatch h), fun h => (nomatch (h rfl).choose_spec)⟩
    | ok n => exact ⟨fun _ _ => ⟨n, rfl⟩, fun _ => ⟨some n, rfl⟩⟩

/-- A request sets terms if it is timely and the cards visited can be listed. -/
theorem terms_isOk_iff : (∃ terms path, r.terms s = .ok (terms, path)) ↔
    r.Timely s ∧ ∃ visited, r.visitedIds = .ok visited := by
  rw [← deadline_isOk_iff]
  unfold Request.terms
  cases r.deadline s with
  | error f => simp [bind, Except.bind]
  | ok deadline =>
    cases r.visitedIds with
    | error f => simp [bind, Except.bind]
    | ok visited => simp [bind, Except.bind, pure, Except.pure]

/-! ### Answers -/

/-- The reports of a request. -/
def Request.reports (r : Request) (s : Session) (terms : Terms) (path : Ids) : List Report :=
  (outcomeOf r.card (r.transferCard s terms path).1).reports

/-- **When a request is answered.** A request is answered, with a success or a failure, exactly if its
timeout can be added to the clock, the cards visited can be listed and, if it is live, the stored waiting
area can be brought up to date with its reports. -/
theorem transfer_answered_iff (r : Request) (s : Session) : (∃ o, ((transfer r).run s).1 = .ok o) ↔
    r.Timely s ∧ (∃ visited, r.visitedIds = .ok visited) ∧
      (r.dryRun.truthy = false → ∀ terms path, r.terms s = .ok (terms, path) →
        WaitingArea.Updatable s.today (r.reports s terms path) s.directory) := by
  rw [← and_assoc, ← terms_isOk_iff, run_transfer]
  cases hterms : r.terms s with
  | error f => simp
  | ok p =>
    obtain ⟨terms, path⟩ := p
    have hsteady : Steady s (r.transferCard s terms path).2 := steady_transferCard _ _ _ _ s
    simp only
    cases hdry : r.dryRun.truthy with
    | true => simp
    | false =>
      have hupdate : (∃ d, WaitingArea.update s.today (r.reports s terms path)
          (r.transferCard s terms path).2.directory = .ok d) ↔
          WaitingArea.Updatable s.today (r.reports s terms path) s.directory :=
        WaitingArea.update_isOk_iff.trans (WaitingArea.Updatable.congr hsteady.waiting)
      rw [if_neg Bool.false_ne_true, exists_map_eq_ok, run_updateWaiting, exists_map_eq_ok,
        hsteady.today]
      refine hupdate.trans ⟨fun h => ⟨⟨terms, path, rfl⟩, fun _ => ?_⟩, fun h => ?_⟩
      · rintro _ _ ⟨⟩
        exact h
      · exact h.2 rfl terms path rfl

/-- A card whose stored waiting area is no document: it is created on the target and entered in the card
map, and the request ends in a fault all the same. -/
theorem brokenFile_unanswered :
    let s := smallSession [structuredCard 8 (.int 5)] ⟨[("state/waiting_cards.json", "\x7b")]⟩
    let run := (transfer (liveRequest 8 false)).run s
    run.1.toOption.isNone = true ∧ run.2.journal.commits.map (·.1.key) = [.whole 8] := by
  decide +kernel

end Session
end CardTransfer
