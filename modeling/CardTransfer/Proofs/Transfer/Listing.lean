import CardTransfer.Proofs.Transfer.Call
import CardTransfer.Proofs.Transfer.Once
import CardTransfer.Proofs.Transfer.Reports

/-!
# Which transferred cards are listed as waiting

The waiting area is brought up to date with the reports of a transfer, while cards are entered in the card
map on the way. The two agree as long as the reports come through: a card that was entered has a success
among them, and waits only if its last report is one of a failure. If a fault aborts the transfer, the
reports are lost, and a card that was entered goes on waiting if it waited before
(`lists_committed_iff`). Both happen (`committed_listed`).
-/

namespace CardTransfer
namespace Session

variable {c : Call} {o : Outcome} {id : Json}

namespace Call

/-- The entries in the card map that are made for a request. -/
def commits (c : Call) : List (Json × Json) :=
  c.after.journal.commits.drop c.session.journal.commits.length

/-- A fault ends the transfer of the card that was asked for. -/
def Aborted (c : Call) : Prop := ∃ terms path, c.request.terms c.session = .ok (terms, path) ∧
  ∃ f, (c.request.transferCard c.session terms path).1 = .error f

/-- A live request for a card with an integer id, where the cards of the instance have such ids. -/
structure Orderly (c : Call) : Prop where
  live : c.request.dryRun.truthy = false
  integer : c.request.card.isInt = true
  cards : c.session.IntegerIds

instance : Decidable c.Orderly :=
  decidable_of_iff (c.request.dryRun.truthy = false ∧ c.request.card.isInt = true ∧ c.session.IntegerIds)
    ⟨fun ⟨h₁, h₂, h₃⟩ => ⟨h₁, h₂, h₃⟩, fun ⟨h₁, h₂, h₃⟩ => ⟨h₁, h₂, h₃⟩⟩

/-- **What a live request that is answered does**: it transfers the card and brings the waiting area up to
date with the reports, which changes the store and nothing else. -/
theorem exists_run (hlive : c.request.dryRun.truthy = false) (ho : c.outcome = .ok o) :
    ∃ terms path r t, c.request.terms c.session = .ok (terms, path) ∧
      c.request.transferCard c.session terms path = (r, t) ∧ o = outcomeOf c.request.card r ∧
      Steady c.session t ∧ c.after = { t with directory := c.after.directory } ∧
      WaitingArea.update c.session.today o.reports t.directory = .ok c.after.directory := by
  have hrun := run_transfer c.request c.session
  cases hterms : c.request.terms c.session with
  | error f =>
    rw [hterms] at hrun
    have hout : c.outcome = .error f := congrArg Prod.fst hrun
    rw [hout] at ho
    cases ho
  | ok p =>
    obtain ⟨terms, path⟩ := p
    rw [hterms] at hrun
    have hsteady : Steady c.session (c.request.transferCard c.session terms path).2 :=
      steady_transferCard _ _ _ _ c.session
    cases htransfer : c.request.transferCard c.session terms path with
    | mk r t =>
      rw [htransfer] at hsteady
      simp only [htransfer, hlive, Bool.false_eq_true, if_false] at hrun
      have hout : c.outcome = _ := congrArg Prod.fst hrun
      have hafter : c.after = _ := congrArg Prod.snd hrun
      rw [hout] at ho
      obtain ⟨_, hupdated, rfl⟩ := map_eq_ok.1 ho
      rw [run_updateWaiting] at hupdated
      obtain ⟨d, hd, -⟩ := map_eq_ok.1 hupdated
      rw [run_updateWaiting_of_ok hd] at hafter
      rw [hsteady.today] at hd
      refine ⟨terms, path, r, t, rfl, htransfer, rfl, hsteady, ?_, ?_⟩
      · rw [hafter]
      · rw [hafter]
        exact hd

/-- A request that is answered brings the waiting area up to date with the reports of its transfer. -/
theorem exists_transfer (hlive : c.request.dryRun.truthy = false) (ho : c.outcome = .ok o) :
    ∃ terms path r t, c.request.terms c.session = .ok (terms, path) ∧
      c.request.transferCard c.session terms path = (r, t) ∧ o = outcomeOf c.request.card r ∧
      Steady c.session t ∧ c.after.journal.commits = t.journal.commits ∧
      WaitingArea.update c.session.today o.reports t.directory = .ok c.after.directory := by
  obtain ⟨terms, path, r, t, hterms, hrun, houtcome, hsteady, hafter, hupdate⟩ := exists_run hlive ho
  exact ⟨terms, path, r, t, hterms, hrun, houtcome, hsteady, by rw [hafter], hupdate⟩

/-- A request whose transfer ends with an outcome is not aborted. -/
theorem aborted_iff {terms : Terms} {path : Ids} {r : Except Fault Outcome} {t : Session}
    (hterms : c.request.terms c.session = .ok (terms, path))
    (hrun : c.request.transferCard c.session terms path = (r, t)) :
    c.Aborted ↔ ∃ f, r = .error f := by
  have hresult : (c.request.transferCard c.session terms path).1 = r := congrArg Prod.fst hrun
  constructor
  · rintro ⟨terms', path', hterms', f, hf⟩
    rw [hterms] at hterms'
    cases hterms'
    exact ⟨f, hresult.symm.trans hf⟩
  · rintro ⟨f, hf⟩
    exact ⟨terms, path, hterms, f, hresult.trans hf⟩

/-- The entries that are made for a request are those that its transfer makes. -/
theorem reported_commits {path : Ids} {reports : Except Fault (List Report)} {t : Session}
    (h : Reported path c.session t reports) (hcommits : c.after.journal.commits = t.journal.commits) :
    (∀ p ∈ c.commits, p.1.isInt = true ∧ path.has p.1 = false) ∧
      ∀ rs, reports = .ok rs → Covers rs c.commits := by
  obtain ⟨commits, hnew, hpath, hcover⟩ := h
  have hsame : c.commits = commits := by
    unfold Call.commits
    rw [hcommits, hnew, List.drop_left]
  rw [hsame]
  exact ⟨hpath, hcover⟩

end Call

/-! ### Reports about one card -/

theorem mem_of_lastReport? {reports : List Report} {r : Report}
    (h : WaitingArea.lastReport? reports id = some r) : r ∈ reports :=
  (List.mem_filter.1 (List.mem_of_getLast? h)).1

/-- There is a last report about a card if there is any. -/
theorem lastReport?_eq_none_iff {reports : List Report} :
    WaitingArea.lastReport? reports id = none ↔ ∀ r ∈ reports, r.card.sameId id = false := by
  unfold WaitingArea.lastReport?
  rw [List.getLast?_eq_none_iff, List.filter_eq_nil_iff]
  simp only [Bool.not_eq_true]

/-- A card of which a success is reported has a last report. -/
theorem exists_lastReport? {reports : List Report} {commits : List (Json × Json)} {p : Json × Json}
    (h : Covers reports commits) (hp : p ∈ commits) :
    ∃ r, WaitingArea.lastReport? reports p.1 = some r := by
  rw [← Option.ne_none_iff_exists']
  intro hnone
  obtain ⟨result, hresult, hcard, -⟩ := h p hp
  have hne := lastReport?_eq_none_iff.1 hnone _ hresult
  change result.card.sameId p.1 = false at hne
  rw [hcard, Json.sameId_refl] at hne
  cases hne

/-- The outcome of an orderly request is sound. -/
theorem Call.Orderly.sound (hc : c.Orderly) {terms : Terms} {path : Ids} {r : Except Fault Outcome}
    {t : Session} (hrun : c.request.transferCard c.session terms path = (r, t)) :
    ∀ o, r = .ok o → Sound o := by
  have hresult : (c.request.transferCard c.session terms path).1 = r := congrArg Prod.fst hrun
  rw [← hresult]
  exact (ensures_transferCard c.session.levels hc.integer c.session hc.cards).2

/-- The reports of a request for an integer are about integers. -/
theorem isInt_of_outcomeOf {r : Except Fault Outcome} (hid : id.isInt = true)
    (h : ∀ o, r = .ok o → Sound o) : ∀ report ∈ (outcomeOf id r).reports, report.card.isInt = true := by
  cases r with
  | ok o => exact (h o rfl).integer
  | error f => exact List.forall_mem_singleton.2 hid

/-- A live request that is answered updates the waiting area as it was before. -/
theorem Call.exists_update (hlive : c.request.dryRun.truthy = false) (ho : c.outcome = .ok o) :
    ∃ d, WaitingArea.update c.session.today o.reports d = .ok c.after.directory ∧
      WaitingArea.cards d = WaitingArea.cards c.session.directory := by
  obtain ⟨terms, path, r, t, -, -, rfl, hsteady, -, hupdate⟩ := exists_transfer hlive ho
  exact ⟨t.directory, hupdate, WaitingArea.cards_congr hsteady.waiting⟩

/-- The reports of an orderly request are about integers. -/
theorem Call.Orderly.isInt_of_mem (hc : c.Orderly) (ho : c.outcome = .ok o) :
    ∀ r ∈ o.reports, r.card.isInt = true := by
  obtain ⟨terms, path, r, t, -, hrun, rfl, -⟩ := exists_transfer hc.live ho
  exact isInt_of_outcomeOf hc.integer (hc.sound hrun)

/-- What is read of the waiting area after a request, if it can be read. -/
theorem Call.cards_after (hlive : c.request.dryRun.truthy = false) (ho : c.outcome = .ok o) :
    (WaitingArea.cards c.after.directory).toOption =
      WaitingArea.next? c.session.today o.reports c.session.directory := by
  obtain ⟨d, hupdate, hcards⟩ := exists_update hlive ho
  rw [WaitingArea.cards_update hupdate, WaitingArea.next?, hcards]
  rfl

/-- A live request that is answered has read the waiting area. -/
theorem Call.exists_waiting (hlive : c.request.dryRun.truthy = false) (ho : c.outcome = .ok o) :
    ∃ ws, WaitingArea.cards c.session.directory = .ok ws := by
  obtain ⟨d, hupdate, hcards⟩ := exists_update hlive ho
  obtain ⟨ws, hws, -⟩ := WaitingArea.update_eq_ok.1 hupdate
  exact ⟨ws, hcards.symm.trans hws⟩

/-- **Who is listed as waiting after a request**, of the cards with whole numbers as ids: those whose last
report is one of a failure, and those that were listed before and have no report. -/
theorem Call.lists_after_iff (hlive : c.request.dryRun.truthy = false) (ho : c.outcome = .ok o)
    (hread : ∃ ws, WaitingArea.cards c.after.directory = .ok ws) {n : Int} (hid : id.key = .whole n) :
    WaitingArea.Lists c.after.directory id ↔ (WaitingArea.lastReport? o.reports id).elim
      (WaitingArea.Lists c.session.directory id) fun r => r.ok = false := by
  obtain ⟨d, hupdate, hcards⟩ := exists_update hlive ho
  rw [WaitingArea.lists_update hupdate hread hid]
  unfold WaitingArea.Lists
  rw [hcards]

/-- **When a card that was entered in the card map is listed as waiting.** For a request that is answered:

1. Unless a fault aborts the transfer, each card that was entered has a success among the reports.
2. A card that was entered is listed afterwards if the last report about it is one of a failure, or else
   if the transfer was aborted and the card was listed before.
3. No such card is listed if the card that was asked for was transferred. -/
theorem lists_committed_iff (c : Call) (hc : c.Orderly) (o : Outcome) (ho : c.outcome = .ok o) :
    (¬c.Aborted → Covers o.reports c.commits) ∧
      ((∃ ws, WaitingArea.cards c.after.directory = .ok ws) → ∀ p ∈ c.commits,
        (WaitingArea.Lists c.after.directory p.1 ↔
          (∃ f, WaitingArea.lastReport? o.reports p.1 = some (.failed f)) ∨
            c.Aborted ∧ WaitingArea.Lists c.session.directory p.1)) ∧
      (o.ok = true → ∀ p ∈ c.commits, ¬WaitingArea.Lists c.after.directory p.1) := by
  obtain ⟨terms, path, r, t, hterms, hrun, rfl, -, hcommits, -⟩ := Call.exists_transfer hc.live ho
  have haborted := Call.aborted_iff hterms hrun
  obtain ⟨hreported, hfault⟩ := reported_transferCard hc.integer hrun
  have hints (p : Json × Json) (hp : p ∈ c.commits) : ∃ n, p.1.key = .whole n :=
    Json.exists_key_of_isInt ((Call.reported_commits hreported hcommits).1 p hp).1
  cases r with
  | error f =>
    -- the only report is about the card that was asked for, which was not entered
    have hnone (p : Json × Json) (hp : p ∈ c.commits) :
        WaitingArea.lastReport? (outcomeOf c.request.card (.error f)).reports p.1 = none := by
      rw [lastReport?_eq_none_iff]
      have hoff := ((Call.reported_commits (hfault f rfl) hcommits).1 p hp).2
      exact List.forall_mem_singleton.2 (Ids.has_add_eq_false_iff.1 hoff).2
    refine ⟨fun h => absurd (haborted.2 ⟨f, rfl⟩) h, fun hread p hp => ?_, fun hok => nomatch hok⟩
    obtain ⟨n, hn⟩ := hints p hp
    rw [Call.lists_after_iff hc.live ho hread hn, hnone p hp]
    simp [haborted]
  | ok o =>
    have hsound := hc.sound hrun o rfl
    have hcover : Covers o.reports c.commits := (Call.reported_commits hreported hcommits).2 _ rfl
    refine ⟨fun _ => hcover, fun hread p hp => ?_, fun hok p hp hlisted => ?_⟩
    · obtain ⟨n, hn⟩ := hints p hp
      obtain ⟨r, hr⟩ := exists_lastReport? hcover hp
      change WaitingArea.lastReport? (outcomeOf c.request.card (.ok o)).reports p.1 = some r at hr
      rw [Call.lists_after_iff hc.live ho hread hn, hr]
      cases r with
      | transferred t => simp [haborted, Report.ok]
      | failed f => simp [Report.ok]
    · obtain ⟨n, hn⟩ := hints p hp
      obtain ⟨r, hr⟩ := exists_lastReport? hcover hp
      obtain ⟨ws, hws, -⟩ := id hlisted
      have hfailed := (Call.lists_after_iff hc.live ho ⟨ws, hws⟩ hn).1 hlisted
      change WaitingArea.lastReport? (outcomeOf c.request.card (.ok o)).reports p.1 = some r at hr
      rw [hr] at hfailed
      have htransferred := hsound.ok hok r (mem_of_lastReport? hr)
      rw [show r.ok = false from hfailed] at htransferred
      cases htransferred

/-! ### Requests for a card that refers to one that waits -/

/-- A waiting area that lists card 8. -/
def waitingRow : Directory := ⟨[("state/waiting_cards.json",
  "[\x7b\"card_id\": 8, \"card_name\": \"B\", \"kind\": \"target_api_error\", \"reason\": \"boom\"\x7d]")]⟩

/-- A request for card 7, which refers to card 8, and with card 8 in the waiting area. -/
def waitingCall (courses : Metabase.Courses) : Call :=
  let s := smallSession twoCards waitingRow
  ⟨{ s with metabase := { s.metabase with courses } }, liveRequest 7 false⟩

/-- Card 8 leaves the waiting area if both cards are transferred. -/
theorem lists_committed_iff_waitingCall : ∃ o, (waitingCall []).Orderly ∧
    (waitingCall []).outcome = .ok o ∧ o.ok = true ∧
    (waitingCall []).commits.map (·.1.key) = [.whole 8, .whole 7] ∧
    WaitingArea.Lists (waitingCall []).session.directory (.int 8) ∧
    ∀ p ∈ (waitingCall []).commits, ¬WaitingArea.Lists (waitingCall []).after.directory p.1 := by
  have horderly : (waitingCall []).Orderly := by decide +kernel
  have hdone : (waitingCall []).outcome.toOption.map (·.ok) = some true := by decide +kernel
  obtain ⟨o, ho, hok⟩ := exists_ok_of_toOption hdone
  exact ⟨o, horderly, ho, hok, by decide +kernel, by decide +kernel,
    (lists_committed_iff _ horderly o ho).2.2 hok⟩

/-- A request in which card 8 is created, and the creation of card 7 ends in a fault. -/
def abortedCall : Call := waitingCall [(.create, [.usual, .failed (.other "RuntimeError" "boom")])]

/-- A request for card 6, which refers to cards 7 and 8. Card 8 is transferred for card 7, and when card
6 comes to it, it cannot be fetched any more. -/
def refetchedCall : Call :=
  let s := smallSession ((.int 6, .obj [("id", .int 6), ("dataset_query", .obj [
    ("type", .str "query"), ("query", .obj [("source-table", .str "card__7"),
      ("joins", .arr [.obj [("source-table", .str "card__8")]])])])]) :: twoCards) ⟨[]⟩
  ⟨{ s with metabase := { s.metabase with
      courses := [(.get "8", [.usual, .failed (.metabase (.int 500) (.str "boom") .null)])] } },
    liveRequest 6 false⟩

/-- A request that is answered, and after which a card that was entered for it is listed as waiting. -/
def Call.Mislists (c : Call) : Prop :=
  (∃ o, c.outcome = .ok o) ∧ ∃ p ∈ c.commits, WaitingArea.Lists c.after.directory p.1

/-- Such a card may be found without reading the file that was written. -/
theorem Call.mislists_of_next? (hlive : c.request.dryRun.truthy = false)
    (h : (c.outcome.toOption.bind fun o => WaitingArea.next? c.session.today o.reports
      c.session.directory).any (fun ws => c.commits.any fun p => ws.any fun w => w.card.key == p.1.key)) :
    c.Mislists := by
  obtain ⟨ws, hnext, hws⟩ := (Option.any_eq_true _ _).1 h
  obtain ⟨o, ho, hnext⟩ := Option.bind_eq_some_iff.1 hnext
  obtain ⟨p, hp, hw⟩ := List.any_eq_true.1 hws
  obtain ⟨w, hw, hkey⟩ := List.any_eq_true.1 hw
  rw [← cards_after hlive (eq_ok_of_toOption ho)] at hnext
  exact ⟨⟨o, eq_ok_of_toOption ho⟩, p, hp, ws, eq_ok_of_toOption hnext, w, hw, beq_iff_eq.1 hkey⟩

/-- **A card may be listed although it was just entered in the card map**: by an aborted transfer, and by
a failure that is reported after the success. -/
theorem committed_listed : (abortedCall.Orderly ∧ abortedCall.Mislists) ∧
    (refetchedCall.Orderly ∧ refetchedCall.Mislists) := by
  have haborted : abortedCall.Orderly := by decide +kernel
  have hrefetched : refetchedCall.Orderly := by decide +kernel
  exact ⟨⟨haborted, Call.mislists_of_next? haborted.live (by decide +kernel)⟩,
    ⟨hrefetched, Call.mislists_of_next? hrefetched.live (by decide +kernel)⟩⟩

end Session
end CardTransfer
