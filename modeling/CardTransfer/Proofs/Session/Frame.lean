import CardTransfer.Proofs.Steps
import CardTransfer.Proofs.Store.CardMap
import CardTransfer.Transfer.Query
import CardTransfer.Transfer.Verification
import Mathlib.Logic.Relation

/-!
# What the parts of a transfer leave alone

Fetching a card, transferring its query, writing it and verifying it change the clock, the oracle,
the renderings in the store and the records of the instance. None of them touches the settings, the
correspondence, the card map, or the lists of attempts and commits (`Quiet`). Those that come before a
card is written leave the cards of the instance alone too (`Idle`).

The steps that write no card do no more than that: they are `Calm`, which says what they may do to the
store as well. Fetching a card is also `Silent`: it adds nothing to the list of events. Steps that do not go
to the instance at all are `Still`. So it is shown of each step once what it is, and whatever calm steps
keep, they all keep.
-/

namespace CardTransfer
namespace Session

open Relation (ReflTransGen)
open Steps (Keeps keeps_pure keeps_throw keeps_ofExcept keeps_get keeps_get_bind keeps_modify)

/-- The settings, the correspondence, the card map and the lists about written cards are the same. -/
structure Quiet (s t : Session) : Prop where
  settings : t.settings = s.settings
  correspondence : t.correspondence = s.correspondence
  cardObject : Store.cardObject t.directory = Store.cardObject s.directory
  attempts : t.journal.attempts = s.journal.attempts
  commits : t.journal.commits = s.journal.commits

/-- Besides, the cards of the instance and the id of the next one are the same. -/
structure Idle (s t : Session) : Prop extends Quiet s t where
  cards : t.metabase.cards = s.metabase.cards
  nextId : t.metabase.nextId = s.metabase.nextId

theorem Quiet.trans {s t u : Session} (h₁ : Quiet s t) (h₂ : Quiet t u) : Quiet s u :=
  ⟨h₂.settings.trans h₁.settings, h₂.correspondence.trans h₁.correspondence,
    h₂.cardObject.trans h₁.cardObject, h₂.attempts.trans h₁.attempts, h₂.commits.trans h₁.commits⟩

theorem Idle.trans {s t u : Session} (h₁ : Idle s t) (h₂ : Idle t u) : Idle s u :=
  ⟨h₁.toQuiet.trans h₂.toQuiet, h₂.cards.trans h₁.cards, h₂.nextId.trans h₁.nextId⟩

instance : Std.Refl Quiet := ⟨fun _ => ⟨rfl, rfl, rfl, rfl, rfl⟩⟩

instance : IsTrans Session Quiet := ⟨fun _ _ _ h₁ h₂ => h₁.trans h₂⟩

instance : Std.Refl Idle := ⟨fun _ => ⟨⟨rfl, rfl, rfl, rfl, rfl⟩, rfl, rfl⟩⟩

instance : IsTrans Session Idle := ⟨fun _ _ _ h₁ h₂ => h₁.trans h₂⟩

/-- The second directory keeps one more rendering than the first. -/
def Rendered (d d' : Directory) : Prop := ∃ key text, Store.putCached d key text = .ok d'

/-- At most the clock, the oracle, the renderings in the store, and the lists of questions and pauses are
different. -/
structure Still (s t : Session) : Prop where
  settings : t.settings = s.settings
  correspondence : t.correspondence = s.correspondence
  today : t.today = s.today
  entries : t.journal.entries = s.journal.entries
  attempts : t.journal.attempts = s.journal.attempts
  commits : t.journal.commits = s.journal.commits
  metabase : t.metabase = s.metabase
  renderings : ReflTransGen Rendered s.directory t.directory

theorem Still.trans {s t u : Session} (h₁ : Still s t) (h₂ : Still t u) : Still s u where
  settings := h₂.settings.trans h₁.settings
  correspondence := h₂.correspondence.trans h₁.correspondence
  today := h₂.today.trans h₁.today
  entries := h₂.entries.trans h₁.entries
  attempts := h₂.attempts.trans h₁.attempts
  commits := h₂.commits.trans h₁.commits
  metabase := h₂.metabase.trans h₁.metabase
  renderings := h₁.renderings.trans h₂.renderings

instance : Std.Refl Still := ⟨fun _ => ⟨rfl, rfl, rfl, rfl, rfl, rfl, rfl, .refl⟩⟩

instance : IsTrans Session Still := ⟨fun _ _ _ h₁ h₂ => h₁.trans h₂⟩

/-- At most the clock, the oracle, the renderings in the store and the records of the calls to the
instance are different. -/
structure Calm (s t : Session) : Prop where
  settings : t.settings = s.settings
  correspondence : t.correspondence = s.correspondence
  today : t.today = s.today
  attempts : t.journal.attempts = s.journal.attempts
  commits : t.journal.commits = s.journal.commits
  cards : t.metabase.cards = s.metabase.cards
  nextId : t.metabase.nextId = s.metabase.nextId
  renderings : ReflTransGen Rendered s.directory t.directory

theorem Calm.trans {s t u : Session} (h₁ : Calm s t) (h₂ : Calm t u) : Calm s u where
  settings := h₂.settings.trans h₁.settings
  correspondence := h₂.correspondence.trans h₁.correspondence
  today := h₂.today.trans h₁.today
  attempts := h₂.attempts.trans h₁.attempts
  commits := h₂.commits.trans h₁.commits
  cards := h₂.cards.trans h₁.cards
  nextId := h₂.nextId.trans h₁.nextId
  renderings := h₁.renderings.trans h₂.renderings

instance : Std.Refl Calm := ⟨fun _ => ⟨rfl, rfl, rfl, rfl, rfl, rfl, rfl, .refl⟩⟩

instance : IsTrans Session Calm := ⟨fun _ _ _ h₁ h₂ => h₁.trans h₂⟩

/-- Besides, no events have been added. -/
structure Silent (s t : Session) : Prop extends Calm s t where
  entries : t.journal.entries = s.journal.entries

theorem Silent.calm (s t : Session) (h : Silent s t) : Calm s t := h.toCalm

instance : Std.Refl Silent := ⟨fun s => ⟨Std.Refl.refl s, rfl⟩⟩

instance : IsTrans Session Silent :=
  ⟨fun _ _ _ h₁ h₂ => ⟨h₁.toCalm.trans h₂.toCalm, h₂.entries.trans h₁.entries⟩⟩

theorem Still.silent (s t : Session) (h : Still s t) : Silent s t :=
  ⟨⟨h.settings, h.correspondence, h.today, h.attempts, h.commits, by rw [h.metabase], by rw [h.metabase],
    h.renderings⟩, h.entries⟩

theorem Still.calm (s t : Session) (h : Still s t) : Calm s t := (h.silent s t).toCalm

/-- Renderings leave the card map as it is. -/
theorem cardObject_of_renderings {d d' : Directory} (h : ReflTransGen Rendered d d') :
    Store.cardObject d' = Store.cardObject d := by
  induction h with
  | refl => rfl
  | tail _ hlast ih =>
    obtain ⟨key, text, hput⟩ := hlast
    exact (Store.cardObject_putCached hput).trans ih

/-- Calm steps are idle. -/
theorem Calm.idle {s t : Session} (h : Calm s t) : Idle s t :=
  ⟨⟨h.settings, h.correspondence, cardObject_of_renderings h.renderings, h.attempts, h.commits⟩,
    h.cards, h.nextId⟩

variable {α : Type}

/-- What is added in two stages is added, and what all of it is like shows in each stage. -/
theorem appended_trans {l l₁ l₂ : List α} {p : α → Prop}
    (h₁ : ∃ new, l₁ = l ++ new ∧ ∀ a ∈ new, p a) (h₂ : ∃ new, l₂ = l₁ ++ new ∧ ∀ a ∈ new, p a) :
    ∃ new, l₂ = l ++ new ∧ ∀ a ∈ new, p a := by
  obtain ⟨new₁, rfl, hp₁⟩ := h₁
  obtain ⟨new₂, rfl, hp₂⟩ := h₂
  refine ⟨new₁ ++ new₂, List.append_assoc .., fun a ha => ?_⟩
  rcases List.mem_append.1 ha with ha | ha
  · exact hp₁ a ha
  · exact hp₂ a ha

/-! ### The store, the clock and the oracle -/

theorem still_readStore (read : Directory → Except Fault α) : Keeps Still (readStore read) :=
  keeps_get.bind fun _ => keeps_ofExcept _

theorem run_readStore {s : Session} {read : Directory → Except Fault α} {a : α}
    (h : read s.directory = .ok a) : (readStore read).run s = (.ok a, s) := by
  unfold readStore
  rw [Steps.run_get_bind, h]
  rfl

/-- What can be written is written. -/
theorem run_writeStore_ok {s : Session} {write : Directory → Except Fault Directory} {d : Directory}
    (h : write s.directory = .ok d) : (writeStore write).run s = (.ok (), { s with directory := d }) := by
  unfold writeStore
  simp only [Steps.run_bind, Steps.run_get, Steps.run_ofExcept, h]
  rfl

/-- Writing to the store keeps what each change of the store keeps. -/
theorem keeps_writeStore {R : Session → Session → Prop} [Std.Refl R]
    {write : Directory → Except Fault Directory}
    (h : ∀ s d, write s.directory = .ok d → R s { s with directory := d }) :
    Keeps R (writeStore write) := by
  refine keeps_get_bind fun s => ?_
  cases hw : write s.directory with
  | error f =>
    rw [Steps.run_ofExcept_bind_error]
    exact Std.Refl.refl s
  | ok d =>
    rw [Steps.run_ofExcept_bind_ok]
    exact h s d hw

theorem still_readCache (key : String) : Keeps Still (readCache key) := by
  refine keeps_get.bind fun s => ?_
  split
  · exact (keeps_throw _).bind fun _ => still_readStore _
  · exact still_readStore _

theorem still_writeCache (key text : String) : Keeps Still (writeCache key text) := by
  have hw : Keeps Still (writeStore (Store.putCached · key text)) :=
    keeps_writeStore fun _ _ h =>
      ⟨rfl, rfl, rfl, rfl, rfl, rfl, rfl, .single ⟨key, text, h⟩⟩
  refine keeps_get.bind fun s => ?_
  split
  · exact (keeps_throw _).bind fun _ => hw
  · exact hw

theorem still_elapse (seconds : Json) : Keeps Still (elapse seconds) := by
  refine keeps_get_bind fun s => ?_
  cases Json.plus "+=" s.clock seconds with
  | error f =>
    rw [Steps.run_ofExcept_bind_error]
    exact Std.Refl.refl s
  | ok clock =>
    rw [Steps.run_ofExcept_bind_ok]
    exact ⟨rfl, rfl, rfl, rfl, rfl, rfl, rfl, .refl⟩

theorem still_pause (delay : Json) : Keeps Still (pause delay) :=
  (keeps_modify fun _ => ⟨rfl, rfl, rfl, rfl, rfl, rfl, rfl, .refl⟩).bind fun _ => still_elapse delay

/-- An oracle that has answers in store gives the first of them. -/
theorem run_ask {s : Session} {answer : Oracle.Answer} {rest : List Oracle.Answer} (prompt : String)
    (h : s.oracle = some (answer :: rest)) : (ask prompt).run s = (heed answer, { s with
      oracle := some rest
      journal := { s.journal with prompts := s.journal.prompts ++ [prompt] } }) := by
  unfold ask
  rw [Steps.run_bind, Steps.run_modify]
  simp only
  rw [Steps.run_get_bind]
  simp only [h]
  rw [Steps.run_bind, Steps.run_set]
  rfl

theorem still_ask (prompt : String) : Keeps Still (ask prompt) := by
  refine (keeps_modify fun _ => ⟨rfl, rfl, rfl, rfl, rfl, rfl, rfl, .refl⟩).bind fun _ => ?_
  refine keeps_get_bind fun s => ?_
  split
  · exact ⟨rfl, rfl, rfl, rfl, rfl, rfl, rfl, .refl⟩
  · exact Std.Refl.refl s

/-! ### The instance -/

/-- A call to the instance leads to where its steps lead. -/
theorem run_call (steps : Steps Metabase.Instance α) (s : Session) :
    (call steps).run s = ((steps.run s.metabase).1, { s with metabase := (steps.run s.metabase).2 }) :=
  rfl

/-- A call to the instance touches nothing but the instance. -/
theorem quiet_call (steps : Steps Metabase.Instance α) : Keeps Quiet (call steps) :=
  fun _ => ⟨rfl, rfl, rfl, rfl, rfl⟩

/-- The cards of an instance and the id of the next one are the same. -/
def SameCards (m m' : Metabase.Instance) : Prop := m'.cards = m.cards ∧ m'.nextId = m.nextId

instance : Std.Refl SameCards := ⟨fun _ => ⟨rfl, rfl⟩⟩

instance : IsTrans Metabase.Instance SameCards :=
  ⟨fun _ _ _ h₁ h₂ => ⟨h₂.1.trans h₁.1, h₂.2.trans h₁.2⟩⟩

theorem silent_call {steps : Steps Metabase.Instance α} (h : Keeps SameCards steps) :
    Keeps Silent (call steps) :=
  fun s => ⟨⟨rfl, rfl, rfl, rfl, rfl, (h s.metabase).1, (h s.metabase).2, .refl⟩, rfl⟩

theorem calm_call {steps : Steps Metabase.Instance α} (h : Keeps SameCards steps) :
    Keeps Calm (call steps) := (silent_call h).imp Silent.calm

theorem sameCards_course (name : Metabase.CallName) :
    Keeps SameCards (Metabase.Instance.course name) := fun _ => ⟨rfl, rfl⟩

theorem sameCards_meet (name : Metabase.CallName) :
    Keeps SameCards (Metabase.Instance.meet name) := by
  refine (sameCards_course name).bind fun step => ?_
  split
  · exact keeps_throw _
  · exact keeps_pure _

theorem sameCards_getCard (id : Json) : Keeps SameCards (Metabase.Instance.getCard id) := by
  refine (sameCards_meet _).bind fun _ => keeps_get.bind fun m => ?_
  split
  · exact keeps_ofExcept _
  · exact keeps_throw _

theorem sameCards_runCard (id : Json) : Keeps SameCards (Metabase.Instance.runCard id) := by
  refine (sameCards_course _).bind fun step => ?_
  split
  · exact keeps_pure _
  · exact keeps_pure _
  · exact keeps_throw _

theorem calm_note (event : Event) : Keeps Calm (note event) :=
  keeps_modify fun _ => ⟨rfl, rfl, rfl, rfl, rfl, rfl, rfl, .refl⟩

theorem silent_fetch (id : Json) : Keeps Silent (fetch id) :=
  keeps_get.bind fun _ => ((still_elapse _).imp Still.silent).bind fun _ =>
    silent_call (sameCards_getCard id)

theorem calm_fetch (id : Json) : Keeps Calm (fetch id) := (silent_fetch id).imp Silent.calm

theorem calm_runCard (id : Json) : Keeps Calm (runCard id) :=
  (calm_note _).bind fun _ => calm_call (sameCards_runCard id)

theorem quiet_note (event : Event) : Keeps Quiet (note event) :=
  (calm_note event).imp fun _ _ h => h.idle.toQuiet

theorem quiet_create (card : Card) (definition : Members) : Keeps Quiet (create card definition) :=
  (quiet_call _).bind fun _ => (quiet_note _).bind fun _ => keeps_pure _

theorem quiet_replace (card : Card) (id : Json) (definition : Members) :
    Keeps Quiet (replace card id definition) :=
  (quiet_call _).bind fun _ => quiet_note _

theorem quiet_repairCard (id query : Json) : Keeps Quiet (repairCard id query) :=
  (quiet_call _).bind fun _ => quiet_note _

/-! ### Rendering -/

theorem still_tolerant {fallback : α} {steps : Action α} (h : Keeps Still steps) :
    Keeps Still (tolerant fallback steps) := by
  refine h.outcome.bind fun r => ?_
  cases r with
  | ok a => exact keeps_pure a
  | error f =>
    simp only
    split
    · exact keeps_pure _
    · exact keeps_throw _

theorem still_consult (prompt : String) : Keeps Still (consult prompt) :=
  (keeps_get.bind fun _ => keeps_retry _ _ (still_ask prompt) still_pause).bind fun _ => keeps_pure _

theorem still_askRendering (query context : String) : Keeps Still (askRendering query context) := by
  refine (still_consult _).outcome.bind fun r => ?_
  cases r with
  | ok answer => exact keeps_ofExcept _
  | error f => exact keeps_throw _

theorem still_render (query context : String) : Keeps Still (render query context) := by
  refine (still_tolerant (still_readCache _)).bind fun kept => ?_
  cases kept with
  | some text => exact keeps_pure _
  | none =>
    refine keeps_get.bind fun s => ?_
    have hask : Keeps Still (do
        let result ← askRendering query context
        tolerant () (writeCache (Oracle.cacheKey query context) result)
        return result) :=
      (still_askRendering query context).bind fun _ =>
        (still_tolerant (still_writeCache _ _)).bind fun _ => keeps_pure _
    split
    · exact (keeps_throw _).bind fun _ => hask
    · exact hask

theorem still_renderText (query context : String) : Keeps Still (renderText query context) := by
  unfold renderText
  simp only
  split
  · exact keeps_pure _
  · exact still_render _ _

theorem still_correct (source current error context : String) :
    Keeps Still (correct source current error context) := by
  refine keeps_get.bind fun s => ?_
  split
  · exact keeps_pure _
  · refine (still_consult _).outcome.bind fun r => ?_
    cases r with
    | ok answer => exact keeps_pure _
    | error f =>
      simp only
      split
      · exact keeps_pure _
      · exact keeps_throw _

/-! ### Queries -/

theorem still_transferNative (cards : IdMap Json) (query : Members) :
    Keeps Still (transferNative cards query) :=
  keeps_get.bind fun _ => (keeps_ofExcept _).bind fun _ => (keeps_ofExcept _).bind fun _ =>
    (still_renderText _ _).bind fun _ => keeps_pure _

theorem still_transferStructured (cards : IdMap Json) (query : Members) :
    Keeps Still (transferStructured cards query) :=
  keeps_get.bind fun _ => (keeps_ofExcept _).bind fun _ => keeps_pure _

/-- Transferring a query leaves the instance as it is. -/
theorem still_transferQuery (dryRun : Bool) (cards : IdMap Json) (card : Card) :
    Keeps Still (transferQuery dryRun cards card) := by
  unfold transferQuery
  split
  · exact (still_transferStructured _ _).bind fun _ => keeps_ofExcept _
  · refine (still_transferNative _ _).outcome.bind fun r => ?_
    cases r with
    | ok t => exact keeps_ofExcept _
    | error f =>
      simp only
      split
      · exact keeps_pure _
      · exact keeps_throw _

theorem calm_readStore (read : Directory → Except Fault α) : Keeps Calm (readStore read) :=
  (still_readStore read).imp Still.calm

theorem calm_transferQuery (dryRun : Bool) (cards : IdMap Json) (card : Card) :
    Keeps Calm (transferQuery dryRun cards card) :=
  (still_transferQuery dryRun cards card).imp Still.calm

/-! ### Verification -/

theorem calm_runError (id : Json) : Keeps Calm (runError id) := by
  have hrun : Keeps Calm (do
      let result ← runCard id
      (Steps.ofExcept (result.find "error") : Action Json)) :=
    (calm_runCard id).bind fun _ => keeps_ofExcept _
  refine hrun.outcome.bind fun r => ?_
  cases r with
  | ok error => exact keeps_pure _
  | error f => exact keeps_pure _

theorem still_seekCorrection (source query : Members) (error : Json) (context : String) :
    Keeps Still (seekCorrection source query error context) :=
  (keeps_ofExcept _).bind fun _ => (keeps_ofExcept _).bind fun _ => still_correct _ _ _ _

/-- Repairs keep what runs, corrections and exchanges of the query keep. The queries may be of a kind that
other texts do not change. -/
theorem keeps_repair {R : Session → Session → Prop} [Std.Refl R] [IsTrans Session R] {id : Json}
    {P : Members → Prop} (hcalm : ∀ s t, Calm s t → R s t)
    (htext : ∀ query text, P query → P (Verification.withText query text))
    (hrepair : ∀ query, P query → Keeps R (repairCard id (.obj query))) (card : Card)
    (context : String) (n attempt : Nat) {query : Members} (hquery : P query) (error : Json)
    (warnings : List String) : Keeps R (repair card id context n attempt query error warnings) := by
  induction n generalizing attempt query error warnings with
  | zero => exact keeps_pure _
  | succ n ih =>
    unfold repair
    refine ((still_seekCorrection _ _ _ _).imp fun s t h => hcalm s t h.calm).outcome.bind fun r => ?_
    split
    · exact keeps_pure _
    · exact keeps_pure _
    · rename_i text
      have hcorrected := htext query text hquery
      refine (hrepair _ hcorrected).outcome.bind fun r => ?_
      split
      · exact keeps_pure _
      · refine ((calm_runError id).imp hcalm).bind fun error => ?_
        split
        · exact ih _ hcorrected _ _
        · exact keeps_pure _

/-- So does the whole verification. -/
theorem keeps_verify_of {R : Session → Session → Prop} [Std.Refl R] [IsTrans Session R] {id : Json}
    {P : Members → Prop} (hcalm : ∀ s t, Calm s t → R s t)
    (htext : ∀ query text, P query → P (Verification.withText query text))
    (hrepair : ∀ query, P query → Keeps R (repairCard id (.obj query))) (card : Card) {query : Members}
    (hquery : P query) (warnings : List String) : Keeps R (verify card id query warnings) := by
  refine ((calm_runError id).imp hcalm).bind fun error => ?_
  split
  · exact keeps_pure _
  split
  · exact keeps_pure _
  · exact keeps_get.bind fun _ => (keeps_ofExcept _).bind fun _ =>
      keeps_repair hcalm htext hrepair _ _ _ _ hquery _ _

theorem keeps_verify {R : Session → Session → Prop} [Std.Refl R] [IsTrans Session R] {id : Json}
    (hcalm : ∀ s t, Calm s t → R s t) (hrepair : ∀ query, Keeps R (repairCard id query)) (card : Card)
    (query : Members) (warnings : List String) : Keeps R (verify card id query warnings) :=
  keeps_verify_of (P := fun _ => True) hcalm (fun _ _ _ => trivial) (fun _ _ => hrepair _) card trivial
    warnings

/-- Verifying a card is quiet. -/
theorem quiet_verify (card : Card) (id : Json) (query : Members) (warnings : List String) :
    Keeps Quiet (verify card id query warnings) :=
  keeps_verify (fun _ _ h => h.idle.toQuiet) (quiet_repairCard id) card query warnings

end Session
end CardTransfer
