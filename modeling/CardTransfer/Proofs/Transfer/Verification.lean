import CardTransfer.Proofs.Transfer.Stage

/-!
# What a verification does

A verification runs a card, and then exchanges its query and runs it again, over and over (`Checked`).
Each new query differs from the one before in its text alone, and is `Corrected`: the text is another one,
blanks at the ends apart, and has lost no placeholder.

The loop keeps the query that it reports equal to the one that stands on the target (`OnTarget`), and its
verdict is the one of the last run (`LastRun`): an exchange that is refused changes neither, and one that
is made is followed by a run (`exists_repaired`, `exists_checked`).
-/

namespace CardTransfer
namespace Session

variable {target : Json} {query query' : Members} {s t u : Session}

/-! ### Queries -/

/-- A query whose native part has a text. -/
def HasText (query : Members) : Prop := ∃ native text,
  Members.get? query "native" = some (.obj native) ∧ Members.get? native "query" = some (.str text)

/-- A query with another text in the place of its own, which differs in more than blanks at the ends and has
all placeholders that the old one has. -/
def Corrected (query query' : Members) : Prop := ∃ native old new,
  Members.get? query "native" = some (.obj native) ∧ Members.get? native "query" = some (.str old) ∧
    query' = Members.insert query "native" (.obj (Members.insert native "query" (.str new))) ∧
      Text.trim new.toList ≠ Text.trim old.toList ∧ ∀ p ∈ Sql.placeholders old, p ∈ Sql.placeholders new

theorem Corrected.hasText (h : Corrected query query') : HasText query' := by
  obtain ⟨native, old, new, -, -, rfl, -⟩ := h
  exact ⟨_, new, Members.get?_insert_self .., Members.get?_insert_self ..⟩

/-- An accepted correction makes a corrected query. -/
theorem corrected_withText {native : Members} {old answer new : String}
    (hnative : Members.get? query "native" = some (.obj native))
    (hold : Members.get? native "query" = some (.str old))
    (h : Oracle.acceptCorrection? old answer = some new) :
    Corrected query (Verification.withText query new) := by
  refine ⟨native, old, new, hnative, hold, by unfold Verification.withText; rw [hnative], ?_⟩
  unfold Oracle.acceptCorrection? at h
  simp only at h
  split at h
  · cases h
  split at h
  · cases h
  rename_i htrim
  split at h
  · rename_i hlost
    obtain rfl := Option.some.inj h
    refine ⟨fun heq => htrim (beq_iff_eq.2 heq), fun p hp => ?_⟩
    have hkept := List.filter_eq_nil_iff.1 (List.isEmpty_iff.1 hlost) p hp
    simpa using hkept
  · cases h

/-- The text of a native query is the one of its native part. -/
theorem nativeText_eq {native : Members} {text : String}
    (hnative : Members.get? query "native" = some (.obj native))
    (htext : Members.get? native "query" = some (.str text)) : nativeText query = .ok (.str text) := by
  have hpart : nativePart query = .obj native := by
    unfold nativePart Json.orElse
    rw [hnative]
    cases native with
    | nil => cases htext
    | cons p ms => rfl
  have hsame : (Json.str text).orElse (.str "") = .str text := by
    unfold Json.orElse
    split
    · rfl
    · rename_i hempty
      have : text = "" := by simpa [Json.truthy] using hempty
      rw [this]
  unfold nativeText
  rw [hpart]
  show Except.ok ((Json.ofOption (Members.get? native "query")).orElse (.str "")) = _
  rw [htext]
  exact congrArg Except.ok hsame

/-- A correction that is found has been accepted for the text of the query. -/
theorem corrected_of_seekCorrection {source : Members} {error : Json} {context text : String}
    (hquery : HasText query)
    (h : ((seekCorrection source query error context).run s).1 = .ok (some text)) :
    Corrected query (Verification.withText query text) := by
  obtain ⟨native, old, hnative, hold⟩ := hquery
  have htext := nativeText_eq hnative hold
  unfold seekCorrection at h
  rw [htext, Steps.run_ofExcept_bind_ok] at h
  obtain ⟨first, u, -, h⟩ := Steps.run_bind_eq_ok.1 (Prod.ext h rfl)
  have hcorrect : ((correct first.shown (Json.str old).shown error.shown context).run u).1 =
      .ok (some text) := congrArg Prod.fst h
  unfold correct at hcorrect
  rw [Steps.run_get_bind] at hcorrect
  split at hcorrect
  · cases hcorrect
  rw [Steps.run_outcome_bind] at hcorrect
  split at hcorrect
  · exact corrected_withText hnative hold (Except.ok.inj hcorrect)
  · split at hcorrect
    · cases hcorrect
    · cases hcorrect

/-! ### The target -/

/-- The card on the target has a query. -/
def OnTarget (target : Json) (query : Members) (s : Session) : Prop := ∃ payload,
  s.metabase.cards.get? target = some (.obj payload) ∧
    Members.get? payload "dataset_query" = some (.obj query)

theorem OnTarget.congr (h : OnTarget target query s) (hcards : t.metabase.cards = s.metabase.cards) :
    OnTarget target query t := by
  unfold OnTarget
  rw [hcards]
  exact h

/-- A run ends well if it has an answer, and this has no error or an empty one. -/
def EndsWell (answer : Except Fault Json) : Prop :=
  ∃ result error, answer = .ok result ∧ result.find "error" = .ok error ∧ error.truthy = false

/-- The last event is a run of the card, which ended well or not; the cards are still the same. -/
def LastRun (target : Json) (s : Session) (well : Bool) : Prop := ∃ before answer after,
  (runCard target).run before = (answer, after) ∧ s.journal.entries = after.journal.entries ∧
    s.metabase.cards = after.metabase.cards ∧ (well = true ↔ EndsWell answer)

theorem LastRun.congr {well : Bool} (h : LastRun target s well)
    (hentries : t.journal.entries = s.journal.entries) (hcards : t.metabase.cards = s.metabase.cards) :
    LastRun target t well := by
  obtain ⟨before, answer, after, hrun, hlast, hsame, hwell⟩ := h
  exact ⟨before, answer, after, hrun, hentries.trans hlast, hcards.trans hsame, hwell⟩

/-- Running a card notes the run and leaves the cards alone. -/
theorem exists_runCard (target : Json) (s : Session) : ∃ answer t,
    (runCard target).run s = (answer, t) ∧ t.metabase.cards = s.metabase.cards ∧
      t.journal.entries = s.journal.entries ++ [⟨.ran target, s.clock, s.directory⟩] := by
  let noted : Session := { s with
    journal := { s.journal with entries := s.journal.entries ++ [⟨.ran target, s.clock, s.directory⟩] } }
  refine ⟨_, { noted with metabase := ((Metabase.Instance.runCard target).run s.metabase).2 }, rfl, ?_, rfl⟩
  exact (sameCards_runCard target s.metabase).1

theorem truthy_message (f : Fault) : (Json.str f.message).truthy = true := by
  have hlong : f.message.length ≠ 0 := by
    unfold Fault.message
    simp only [String.length_append]
    have : (": " : String).length = 2 := rfl
    omega
  unfold Json.truthy
  rw [Bool.not_eq_true', ← Bool.not_eq_true, String.isEmpty_iff]
  rintro h
  rw [h] at hlong
  exact hlong rfl

/-- The error that comes of a run: what its answer tells, or why there is none. -/
def errorOf : Except Fault Json → Json
  | .ok error => error
  | .error f => .str f.message

/-- The error of a run is empty exactly if the run ends well. -/
theorem exists_runError (target : Json) (s : Session) : ∃ error t,
    (runError target).run s = (.ok error, t) ∧ t.metabase.cards = s.metabase.cards ∧
      t.journal.entries = s.journal.entries ++ [⟨.ran target, s.clock, s.directory⟩] ∧
        LastRun target t (!error.truthy) := by
  obtain ⟨answer, t, hrun, hcards, hentries⟩ := exists_runCard target s
  have hlast {error : Json} (h : error.truthy = false ↔ EndsWell answer) :
      LastRun target t (!error.truthy) :=
    ⟨s, answer, t, hrun, rfl, rfl, by rw [Bool.not_eq_true']; exact h⟩
  have herror : (runError target).run s = (.ok (errorOf (answer.bind (·.find "error"))), t) := by
    unfold runError
    rw [Steps.run_outcome_bind, Steps.run_bind, hrun]
    cases answer with
    | error f => rfl
    | ok result =>
      simp only [Steps.run_ofExcept]
      show _ = (Except.ok (errorOf (result.find "error")), t)
      cases result.find "error" with
      | ok error => rfl
      | error f => rfl
  refine ⟨_, t, herror, hcards, hentries, hlast ?_⟩
  cases answer with
  | error f =>
    refine ⟨fun h => ?_, by rintro ⟨_, _, ⟨⟩, -⟩⟩
    change (Json.str f.message).truthy = false at h
    rw [truthy_message f] at h
    cases h
  | ok result =>
    show (errorOf (result.find "error")).truthy = false ↔ _
    cases hfind : result.find "error" with
    | ok error =>
      refine ⟨fun h => ⟨result, error, rfl, hfind, h⟩, ?_⟩
      rintro ⟨_, _, ⟨⟩, hfind', h⟩
      rw [hfind] at hfind'
      obtain rfl := Except.ok.inj hfind'
      exact h
    | error f =>
      refine ⟨fun h => ?_, ?_⟩
      · change (Json.str f.message).truthy = false at h
        rw [truthy_message f] at h
        cases h
      · rintro ⟨_, _, ⟨⟩, hfind', -⟩
        rw [hfind] at hfind'
        cases hfind'

/-- Changing a card either fails and changes none, or merges the changes into it if it is there. -/
theorem updateCard_cases {m m' : Metabase.Instance} {changes : Members} {r : Except Fault Unit}
    (h : (Metabase.Instance.updateCard target changes).run m = (r, m')) :
    (∃ f, r = .error f) ∧ m'.cards = m.cards ∨ r = .ok () ∧ ∀ payload,
      m.cards.get? target = some payload →
        m'.cards.get? target = some (Metabase.Instance.merged payload changes) := by
  unfold Metabase.Instance.updateCard at h
  have hmeet := (sameCards_meet .update m).1
  rw [Steps.run_bind] at h
  split at h
  · rename_i a m₁ heq
    rw [heq] at hmeet
    rw [Steps.run_get_bind] at h
    split at h
    · rename_i payload hpayload
      cases h
      refine .inr ⟨rfl, fun old hold => ?_⟩
      rw [← hmeet, hpayload] at hold
      cases hold
      show (IdMap.insert m₁.cards target _).get? target = _
      rw [IdMap.get?_insert, if_pos (Json.sameId_refl target)]
    · rename_i hnone
      cases h
      refine .inr ⟨rfl, fun payload hpayload => ?_⟩
      rw [← hmeet, hnone] at hpayload
      cases hpayload
  · rename_i f m₁ heq
    rw [heq] at hmeet
    cases h
    exact .inl ⟨⟨f, rfl⟩, hmeet⟩

/-- Exchanging the query of a card either fails and changes no card, or notes the exchange, and the card
has the new query then. -/
theorem repairCard_cases {r : Except Fault Unit}
    (h : (repairCard target (.obj query')).run s = (r, t)) :
    ((∃ f, r = .error f) ∧ t.journal.entries = s.journal.entries ∧ t.metabase.cards = s.metabase.cards) ∨
      r = .ok () ∧ (∃ e, t.journal.entries = s.journal.entries ++ [e] ∧
        e.event = .repaired target [("dataset_query", .obj query')]) ∧
          ∀ query, OnTarget target query s → OnTarget target query' t := by
  unfold repairCard at h
  simp only at h
  generalize hupdate : (Metabase.Instance.updateCard target [("dataset_query", .obj query')]).run
    s.metabase = p at h
  obtain ⟨result, m⟩ := p
  have hcall : (call (Metabase.Instance.updateCard target [("dataset_query", .obj query')])).run s =
      (result, { s with metabase := m }) := by
    rw [run_call, hupdate]
  rw [Steps.run_bind, hcall] at h
  rcases updateCard_cases hupdate with ⟨⟨f, rfl⟩, hcards⟩ | ⟨rfl, hcards⟩
  · cases h
    exact .inl ⟨⟨f, rfl⟩, rfl, hcards⟩
  · cases h
    refine .inr ⟨rfl, ⟨_, rfl, rfl⟩, ?_⟩
    rintro query ⟨payload, hpayload, -⟩
    exact ⟨_, hcards _ hpayload, Members.get?_insert_self ..⟩

/-! ### The loop -/

/-- The events of exchanges of the query of a card, each followed by a run. -/
def repairs (target : Json) (queries : List Members) : List Event :=
  queries.flatMap fun query => [.repaired target [("dataset_query", .obj query)], .ran target]

/-- From session `s`, in which the card has a query, to session `t`, the query is exchanged for others in
turn; the verdict is the one in `t`. -/
structure Exchanged (target : Json) (query : Members) (queries : List Members) (s t : Session)
    (v : Verification) : Prop where
  corrected : (query :: queries).IsChain Corrected
  final : (query :: queries).getLast? = some v.query
  stored : OnTarget target query s → OnTarget target v.query t
  last : LastRun target t v.verified

/-- So it is after a run that ended with an error. -/
structure Repaired (target : Json) (query : Members) (queries : List Members) (s t : Session)
    (v : Verification) : Prop extends Exchanged target query queries s t v where
  events : ∃ new, t.journal.entries = s.journal.entries ++ new ∧
    new.map (·.event) = repairs target queries

/-- So it is with a run before the first exchange. -/
structure Checked (target : Json) (query : Members) (queries : List Members) (s t : Session)
    (v : Verification) : Prop extends Exchanged target query queries s t v where
  events : ∃ new, t.journal.entries =
      s.journal.entries ++ ⟨.ran target, s.clock, s.directory⟩ :: new ∧
    new.map (·.event) = repairs target queries

/-- Where the query is not exchanged, it is the one in the verdict. -/
theorem Repaired.unchanged {v : Verification} (hquery : v.query = query)
    (hentries : t.journal.entries = s.journal.entries) (hcards : t.metabase.cards = s.metabase.cards)
    (hlast : LastRun target s v.verified) : Repaired target query [] s t v where
  events := ⟨[], by rw [hentries, List.append_nil], rfl⟩
  corrected := List.IsChain.singleton _
  final := by rw [hquery]; rfl
  stored h := by rw [hquery]; exact h.congr hcards
  last := hlast.congr hentries hcards

/-- An exchange, the run after it and what comes then. -/
theorem Repaired.cons {queries : List Members} {v : Verification} {w : Session}
    (hcorrected : Corrected query query')
    (hexchange : ∃ e, t.journal.entries = s.journal.entries ++ [e] ∧
      e.event = .repaired target [("dataset_query", .obj query')])
    (hstored : OnTarget target query s → OnTarget target query' t)
    (hrun : ∃ e, u.journal.entries = t.journal.entries ++ [e] ∧ e.event = .ran target)
    (hcards : u.metabase.cards = t.metabase.cards) (h : Repaired target query' queries u w v) :
    Repaired target query (query' :: queries) s w v where
  events := by
    obtain ⟨e₁, he₁, hevent₁⟩ := hexchange
    obtain ⟨e₂, he₂, hevent₂⟩ := hrun
    obtain ⟨new, hnew, hevents⟩ := h.events
    refine ⟨e₁ :: e₂ :: new, by rw [hnew, he₂, he₁]; simp, ?_⟩
    rw [List.map_cons, List.map_cons, hevent₁, hevent₂, hevents]
    rfl
  corrected := List.isChain_cons_cons.2 ⟨hcorrected, h.corrected⟩
  final := h.final
  stored hs := h.stored ((hstored hs).congr hcards)
  last := h.last

/-- **What repairing does.** The card whose last run ended with an error is repaired with at most as many
queries as there are attempts. -/
theorem exists_repaired (card : Card) (target : Json) (context : String) (n attempt : Nat)
    (hquery : HasText query) (error : Json) (warnings : List String) (hlast : LastRun target s false) :
    ∃ v t queries, (repair card target context n attempt query error warnings).run s = (.ok v, t) ∧
      queries.length ≤ n ∧ Repaired target query queries s t v := by
  induction n generalizing attempt query error warnings s with
  | zero => exact ⟨_, _, [], rfl, Nat.le_refl 0, .unchanged rfl rfl rfl hlast⟩
  | succ n ih =>
    have hstill := still_seekCorrection card.query query error context s
    have hcorrected : ∀ text, ((seekCorrection card.query query error context).run s).1 = .ok (some text) →
        Corrected query (Verification.withText query text) := fun _ => corrected_of_seekCorrection hquery
    unfold repair
    rw [Steps.run_outcome_bind]
    generalize (seekCorrection card.query query error context).run s = p at hstill hcorrected
    obtain ⟨found, s₁⟩ := p
    have hcards : s₁.metabase.cards = s.metabase.cards := by rw [hstill.metabase]
    have hleft : ∀ warnings, Repaired target query [] s s₁
        (Verification.unverified query warnings error) := fun _ =>
      .unchanged rfl hstill.entries hcards hlast
    rcases found with f | _ | text
    · exact ⟨_, _, [], rfl, Nat.zero_le _, hleft _⟩
    · exact ⟨_, _, [], rfl, Nat.zero_le _, hleft _⟩
    · have hcorrected := hcorrected text rfl
      simp only
      rw [Steps.run_outcome_bind]
      generalize hrepair : (repairCard target (.obj (Verification.withText query text))).run s₁ = p
      obtain ⟨r, s₂⟩ := p
      rcases repairCard_cases hrepair with ⟨⟨f, rfl⟩, hentries₂, hcards₂⟩ | ⟨rfl, hexchange, hstored⟩
      · exact ⟨_, _, [], rfl, Nat.zero_le _,
          .unchanged rfl (hentries₂.trans hstill.entries) (hcards₂.trans hcards) hlast⟩
      · obtain ⟨error', s₃, hrun, hcards₃, hentries₃, hlast₃⟩ := exists_runError target s₂
        have hcons {queries : List Members} {v : Verification} {w : Session}
            (h : Repaired target (Verification.withText query text) queries s₃ w v) :
            Repaired target query (Verification.withText query text :: queries) s w v :=
          .cons hcorrected (by rw [← hstill.entries]; exact hexchange)
            (fun hs => hstored query (hs.congr hcards)) ⟨_, hentries₃, rfl⟩ hcards₃ h
        simp only
        rw [Steps.run_bind, hrun]
        simp only
        split
        · rename_i htruthy
          rw [htruthy] at hlast₃
          obtain ⟨v, t, queries, hrepair, hlength, hrepaired⟩ :=
            ih (attempt + 1) hcorrected.hasText error' warnings hlast₃
          exact ⟨v, t, _ :: queries, hrepair, Nat.succ_le_succ hlength, hcons hrepaired⟩
        · rename_i htruthy
          rw [Bool.not_eq_true] at htruthy
          rw [htruthy] at hlast₃
          exact ⟨_, _, [_], rfl, Nat.succ_le_succ (Nat.zero_le _), hcons (.unchanged rfl rfl rfl hlast₃)⟩

/-! ### The whole verification -/

/-- **What verifying does.** Only native cards are repaired, and with no more queries than the settings allow
attempts. -/
theorem exists_checked {card : Card} (target : Json) (warnings : List String)
    (htext : card.isNative = true → HasText query)
    (hwords : card.isNative = true → ∃ words, s.correspondence.describe = .ok words) :
    ∃ v t queries, (verify card target query warnings).run s = (.ok v, t) ∧
      queries.length ≤ s.settings.repairAttempts.toNat ∧ (card.isNative = false → queries = []) ∧
        Checked target query queries s t v := by
  obtain ⟨error, s₁, hrun, hcards, hentries, hlast⟩ := exists_runError target s
  have hcalm := calm_runError target s
  rw [hrun] at hcalm
  have hchecked {queries : List Members} {t : Session} {v : Verification}
      (h : Repaired target query queries s₁ t v) : Checked target query queries s t v := by
    obtain ⟨new, hnew, hevents⟩ := h.events
    exact ⟨⟨h.corrected, h.final, fun hs => h.stored (hs.congr hcards), h.last⟩,
      new, by rw [hnew, hentries, List.append_assoc]; rfl, hevents⟩
  unfold verify
  rw [Steps.run_bind, hrun]
  simp only
  cases htruthy : error.truthy with
  | false =>
    rw [htruthy] at hlast
    exact ⟨_, _, [], rfl, Nat.zero_le _, fun _ => rfl, hchecked (.unchanged rfl rfl rfl hlast)⟩
  | true =>
    rw [htruthy] at hlast
    rw [if_neg (by decide)]
    cases hnative : card.isNative with
    | false =>
      exact ⟨_, _, [], rfl, Nat.zero_le _, fun _ => rfl, hchecked (.unchanged rfl rfl rfl hlast)⟩
    | true =>
      obtain ⟨words, hdescribe⟩ := hwords hnative
      rw [if_neg (by decide), Steps.run_get_bind, hcalm.correspondence, hdescribe,
        Steps.run_ofExcept_bind_ok, hcalm.settings]
      obtain ⟨v, t, queries, hrepair, hlength, hrepaired⟩ :=
        exists_repaired card target words s.settings.repairAttempts.toNat 1 (htext hnative) error warnings
          hlast
      exact ⟨v, t, queries, hrepair, hlength, (fun h => nomatch h), hchecked hrepaired⟩

end Session
end CardTransfer
