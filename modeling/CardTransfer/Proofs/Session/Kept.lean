import CardTransfer.Proofs.Session.Rendering
import CardTransfer.Proofs.Store.State

/-!
# Renderings that are kept

Where the store takes the rendering of a query (`Works`), rendering the query comes to one of three things
(`Renders`): a text is found and the session stays as it is; or the oracle gives none that is accepted, and
the store stays as it is; or it gives one, which is kept. From this follows what a second rendering gives:
the text of the first as it is read from the store, without another question (`rendered_again`).
-/

namespace CardTransfer
namespace Session

open Directory (asRead)
open Steps (Keeps Passes Ensures keeps_pure keeps_throw keeps_get keeps_get_bind keeps_modify ensures_pure
  ensures_throw)

variable {α : Type} {s t : Session} {query context prompt key text : String}

/-! ### Asking -/

/-- The oracle may have been asked a question, once or more often, and time may have passed. -/
structure Asked (prompt : String) (s t : Session) : Prop where
  directory : t.directory = s.directory
  unreadable : t.cacheUnreadable = s.cacheUnreadable
  unwritable : t.cacheUnwritable = s.cacheUnwritable
  prompts : ∃ n, t.journal.prompts = s.journal.prompts ++ List.replicate n prompt
  answers : t.oracle.getD [] <:+ s.oracle.getD []

theorem Asked.refl (prompt : String) (s : Session) : Asked prompt s s :=
  ⟨rfl, rfl, rfl, ⟨0, (List.append_nil _).symm⟩, List.suffix_refl _⟩

instance : Std.Refl (Asked prompt) := ⟨Asked.refl prompt⟩

theorem Asked.trans {u : Session} (h₁ : Asked prompt s t) (h₂ : Asked prompt t u) : Asked prompt s u := by
  obtain ⟨n, hn⟩ := h₁.prompts
  obtain ⟨m, hm⟩ := h₂.prompts
  refine ⟨h₂.directory.trans h₁.directory, h₂.unreadable.trans h₁.unreadable,
    h₂.unwritable.trans h₁.unwritable, ⟨n + m, ?_⟩, h₂.answers.trans h₁.answers⟩
  rw [hm, hn, List.append_assoc, List.replicate_append_replicate]

instance : IsTrans Session (Asked prompt) := ⟨fun _ _ _ h₁ h₂ => h₁.trans h₂⟩

theorem asked_ask (prompt : String) : Keeps (Asked prompt) (ask prompt) := by
  refine (keeps_modify fun s => ⟨rfl, rfl, rfl, ⟨1, rfl⟩, List.suffix_refl _⟩).bind fun _ => ?_
  refine keeps_get_bind fun s => ?_
  split
  · rename_i answer rest horacle
    refine ⟨rfl, rfl, rfl, ⟨0, (List.append_nil _).symm⟩, ?_⟩
    rw [horacle]
    exact List.suffix_cons ..
  · exact Asked.refl prompt s

theorem asked_pause (prompt : String) (delay : Json) : Keeps (Asked prompt) (pause delay) := by
  refine (keeps_modify fun s => ⟨rfl, rfl, rfl, ⟨0, (List.append_nil _).symm⟩, List.suffix_refl _⟩).bind
    fun _ => keeps_get_bind fun s => ?_
  cases Json.plus "+=" s.clock delay with
  | error f => exact Asked.refl prompt s
  | ok clock => exact ⟨rfl, rfl, rfl, ⟨0, (List.append_nil _).symm⟩, List.suffix_refl _⟩

theorem asked_askRendering (query context : String) :
    Keeps (Asked (Oracle.renderingPrompt query context)) (askRendering query context) := by
  have hconsult : Keeps (Asked (Oracle.renderingPrompt query context))
      (consult (Oracle.renderingPrompt query context)) :=
    (keeps_get.bind fun _ => keeps_retry _ _ (asked_ask _) (asked_pause _)).bind fun _ => keeps_pure _
  refine hconsult.outcome.bind fun r => ?_
  cases r with
  | ok answer => exact Steps.keeps_ofExcept _
  | error f => exact keeps_throw _

/-- The answers that are left are among those of a script. -/
def Scripted (script : List Oracle.Answer) (s : Session) : Prop := s.oracle.getD [] <:+ script

theorem ensures_ask {script : List Oracle.Answer} : Ensures (Scripted script)
    (fun answer => ∀ text, answer = some text → .text text ∈ script) (ask prompt) := by
  have hnote : Keeps (Passes (Scripted script)) (modify fun s : Session =>
      { s with journal := { s.journal with prompts := s.journal.prompts ++ [prompt] } } : Action PUnit) :=
    keeps_modify fun _ h => h
  refine hnote.ensures.bind fun _ _ => ?_
  intro s hs
  rw [Steps.run_get_bind]
  split
  · rename_i answer rest horacle
    rw [Scripted, horacle] at hs
    refine ⟨(List.suffix_cons ..).trans hs, ?_⟩
    intro r hr text htext
    cases answer with
    | text u =>
      cases hr
      cases htext
      exact hs.subset (List.mem_cons_self ..)
    | nothing =>
      cases hr
      cases htext
    | failed f => cases hr
  · exact ⟨hs, fun _ h => nomatch h⟩

/-- What the oracle says when it is consulted is in the script, if it says something. -/
theorem ensures_consult {script : List Oracle.Answer} (prompt : String) :
    Ensures (Scripted script) (fun answer => answer = "" ∨ .text answer ∈ script) (consult prompt) := by
  have hpause (delay : Json) : Keeps (Passes (Scripted script)) (pause delay) :=
    (asked_pause "" delay).imp fun _ _ h hs => h.answers.trans hs
  refine (Steps.ensures_get.bind fun _ _ => ensures_retry _ _ ensures_ask hpause).bind fun answer h => ?_
  refine ensures_pure ?_
  cases answer with
  | none => exact .inl rfl
  | some text => exact .inr (h text rfl)

/-- What an accepted rendering is given for is in the script. -/
theorem ensures_askRendering_scripted (query context : String) {script : List Oracle.Answer} : Ensures (Scripted script)
    (fun text => ∃ answer, .text answer ∈ script ∧ Oracle.acceptRendering query answer = .ok text)
    (askRendering query context) := by
  refine (ensures_consult (Oracle.renderingPrompt query context)).outcome.bind fun r hr => ?_
  cases r with
  | ok answer =>
    refine Steps.ensures_ofExcept fun text haccept => ⟨answer, ?_, haccept⟩
    rcases hr answer rfl with rfl | hanswer
    · -- an empty answer is not accepted
      cases haccept
    · exact hanswer
  | error f => exact ensures_throw _

/-! ### One rendering -/

/-- The renderings of the store can be read and written, and it takes one under a key. -/
structure Works (s : Session) (key : String) : Prop where
  readable : s.cacheUnreadable = false
  writable : s.cacheUnwritable = false
  takes : Store.Takes s.directory key

/-- An empty store takes the renderings of all queries. -/
theorem works_of_empty (hreadable : s.cacheUnreadable = false) (hwritable : s.cacheUnwritable = false)
    (hempty : s.directory = .empty) (query context : String) : Works s (Oracle.cacheKey query context) where
  readable := hreadable
  writable := hwritable
  takes := by
    rw [hempty]
    exact ⟨Store.isKey_cacheKey, Store.isTooLong_cacheKey, rfl, rfl⟩

theorem run_tolerant {fallback a : α} {steps : Action α} (h : steps.run s = (.ok a, t)) :
    (tolerant fallback steps).run s = (.ok a, t) := by
  unfold tolerant
  rw [Steps.run_outcome_bind, h]
  rfl

theorem run_readCache (h : s.cacheUnreadable = false) {found : Option String}
    (hfound : Store.cached? s.directory key = .ok found) : (readCache key).run s = (.ok found, s) := by
  unfold readCache
  rw [Steps.run_get_bind, h]
  show (readStore (Store.cached? · key)).run s = _
  exact run_readStore hfound

theorem run_writeCache (h : s.cacheUnwritable = false) {d : Directory}
    (hput : Store.putCached s.directory key text = .ok d) :
    (writeCache key text).run s = (.ok (), { s with directory := d }) := by
  unfold writeCache writeStore
  rw [Steps.run_get_bind, if_neg (by rw [h]; decide), Steps.run_get_bind]
  show (Steps.ofExcept (Store.putCached s.directory key text) >>= _).run s = _
  rw [hput]
  rfl

/-- A text that is found is the rendering, and nothing else happens. -/
theorem run_render_of_found (h : s.cacheUnreadable = false)
    (hfound : Store.cached? s.directory (Oracle.cacheKey query context) = .ok (some text)) :
    (render query context).run s = (.ok text, s) := by
  unfold render
  rw [Steps.run_bind, run_tolerant (run_readCache h hfound)]
  rfl

/-- What rendering a query comes to where the store works. -/
inductive Renders (query context : String) (s : Session) : Except Fault String → Session → Prop
  /-- A text was found. -/
  | found {text : String}
      (hfound : Store.cached? s.directory (Oracle.cacheKey query context) = .ok (some text)) :
      Renders query context s (.ok text) s
  /-- The oracle gave no text that could be accepted. -/
  | failed {f : Fault} {t : Session}
      (hnone : Store.cached? s.directory (Oracle.cacheKey query context) = .ok none)
      (hasked : Asked (Oracle.renderingPrompt query context) s t) : Renders query context s (.error f) t
  /-- The oracle gave a text, and it was kept. -/
  | given {answer text : String} {d : Directory} {t : Session}
      (hnone : Store.cached? s.directory (Oracle.cacheKey query context) = .ok none)
      (hasked : Asked (Oracle.renderingPrompt query context) s t)
      (hanswer : .text answer ∈ s.oracle.getD [])
      (haccepted : Oracle.acceptRendering query answer = .ok text)
      (hput : Store.putCached s.directory (Oracle.cacheKey query context) text = .ok d) :
      Renders query context s (.ok text) { t with directory := d }

theorem renders_render (h : Works s (Oracle.cacheKey query context)) :
    Renders query context s ((render query context).run s).1 ((render query context).run s).2 := by
  cases hfound : s.directory.files.lookup (Store.cachePath (Oracle.cacheKey query context)) with
  | some text =>
    have hread : Store.cached? s.directory (Oracle.cacheKey query context) = .ok (some (asRead text)) := by
      rw [h.takes.cached?, hfound]
      rfl
    rw [run_render_of_found h.readable hread]
    exact .found hread
  | none =>
    have hread : Store.cached? s.directory (Oracle.cacheKey query context) = .ok none := by
      rw [h.takes.cached?, hfound]
      rfl
    unfold render
    rw [Steps.run_bind, run_tolerant (run_readCache h.readable hread)]
    show Renders query context s (((get : Action Session) >>= _).run s).1 (((get : Action Session) >>= _).run s).2
    rw [Steps.run_get_bind]
    split
    · exact .failed hread (Asked.refl _ s)
    have hasked := asked_askRendering query context s
    have hscript := (ensures_askRendering_scripted query context s (List.suffix_refl (s.oracle.getD []))).2
    show Renders query context s ((askRendering query context >>= _).run s).1
      ((askRendering query context >>= _).run s).2
    rw [Steps.run_bind]
    cases hrun : (askRendering query context).run s with
    | mk r t =>
      rw [hrun] at hasked hscript
      cases r with
      | error f => exact .failed hread hasked
      | ok text =>
        obtain ⟨answer, hanswer, haccepted⟩ := hscript text rfl
        obtain ⟨d, hput⟩ : ∃ d, Store.putCached s.directory (Oracle.cacheKey query context) text = .ok d :=
          ⟨_, h.takes.putCached text⟩
        have hwrite := run_writeCache (hasked.unwritable.trans h.writable)
          ((congrArg (Store.putCached · _ text) hasked.directory).trans hput)
        dsimp only
        rw [Steps.run_bind, run_tolerant hwrite]
        exact .given hread hasked hanswer haccepted hput

/-! ### What is read again -/

/-- What is found is not changed by being read again. -/
theorem asRead_of_found (h : Works s key) (hfound : Store.cached? s.directory key = .ok (some text)) :
    asRead text = text := by
  rw [h.takes.cached?, Except.ok.injEq, Option.map_eq_some_iff] at hfound
  obtain ⟨kept, -, rfl⟩ := hfound
  exact Directory.asRead_asRead

/-- Taking code fences out brings no characters. -/
theorem mem_of_mem_stripFences {answer : String} {c : Char} (h : c ∈ (Oracle.stripFences answer).toList) :
    c ∈ answer.toList := by
  rw [Oracle.stripFences, String.toList_ofList] at h
  have hreplaced : c ∈ Text.replace Oracle.fenceRule (fun _ => some []) answer.toList := by
    obtain ⟨left, right, heq, -, -⟩ :=
      Text.exists_blanks (Text.replace Oracle.fenceRule (fun _ => some []) answer.toList)
    rw [heq]
    exact List.mem_append_left _ (List.mem_append_right _ h)
  rw [← Text.flatMap_source_scan Oracle.fenceRule answer.toList]
  obtain ⟨piece, hpiece, hc⟩ := List.mem_flatMap.1 hreplaced
  refine List.mem_flatMap.2 ⟨piece, hpiece, ?_⟩
  cases piece with
  | plain d => exact hc
  | found meaning taken => cases hc

/-- The answers to come are without carriage returns. -/
def PlainAnswers (s : Session) : Prop := ∀ answer, .text answer ∈ s.oracle.getD [] → '\r' ∉ answer.toList

/-- A rendering is read as it is if the answers are without carriage returns. -/
theorem asRead_of_render (h : Works s (Oracle.cacheKey query context)) (hplain : PlainAnswers s)
    (hrun : (render query context).run s = (.ok text, t)) : asRead text = text := by
  have hrenders := renders_render h
  rw [hrun] at hrenders
  cases hrenders with
  | found hfound => exact asRead_of_found h hfound
  | given hnone hasked hanswer haccepted hput =>
    obtain ⟨rfl, -⟩ := Oracle.acceptRendering_eq_ok.1 haccepted
    exact Directory.asRead_eq_self_iff.2 fun hreturn => hplain _ hanswer (mem_of_mem_stripFences hreturn)

/-! ### Two renderings -/

/-- After a rendering its text is found, as it is read. -/
theorem found_of_render (h : Works s (Oracle.cacheKey query context))
    (hrun : (render query context).run s = (.ok text, t)) : t.cacheUnreadable = false ∧
      Store.cached? t.directory (Oracle.cacheKey query context) = .ok (some (asRead text)) := by
  have hrenders := renders_render h
  rw [hrun] at hrenders
  cases hrenders with
  | found hfound =>
    rw [asRead_of_found h hfound]
    exact ⟨h.readable, hfound⟩
  | given hnone hasked hanswer haccepted hput =>
    exact ⟨hasked.unreadable.trans h.readable, Store.cached?_putCached_self hput⟩

/-- A query that was rendered is rendered again without a question, and nothing changes: with the same text
if the rules give it, otherwise with the text as it is read from the store. All that this takes is the
store. -/
theorem rendered_again {u : Session} (h : Works s (Oracle.cacheKey (Sql.toClickHouse query) context))
    (hrun : (renderText query context).run s = (.ok text, t)) (hdirectory : u.directory = t.directory)
    (hreadable : u.cacheUnreadable = t.cacheUnreadable) :
    (renderText query context).run u = (.ok (if (Sql.residualConstructs (Sql.toClickHouse query)).isEmpty
      then text else asRead text), u) := by
  unfold renderText at hrun ⊢
  dsimp only at hrun ⊢
  split at hrun
  · rename_i hrules
    cases hrun
    rw [if_pos hrules, if_pos hrules]
    rfl
  · rename_i hrest
    rw [if_neg hrest, if_neg hrest]
    obtain ⟨hread, hfound⟩ := found_of_render h hrun
    exact run_render_of_found (hreadable.trans hread) (hdirectory ▸ hfound)

/-- With plain answers the text is the same. -/
theorem rendered_alike {u : Session} (h : Works s (Oracle.cacheKey (Sql.toClickHouse query) context))
    (hplain : PlainAnswers s) (hrun : (renderText query context).run s = (.ok text, t))
    (hdirectory : u.directory = t.directory) (hreadable : u.cacheUnreadable = t.cacheUnreadable) :
    (renderText query context).run u = (.ok text, u) := by
  rw [rendered_again h hrun hdirectory hreadable]
  cases hrules : (Sql.residualConstructs (Sql.toClickHouse query)).isEmpty with
  | true => rfl
  | false =>
    unfold renderText at hrun
    dsimp only at hrun
    rw [if_neg (by rw [hrules]; decide)] at hrun
    rw [if_neg Bool.false_ne_true, asRead_of_render h hplain hrun]

/-- **What is kept is found as it is read, and a rendering is repeated as it is read**: with line feeds for
carriage returns. So the same text comes back exactly if there is no carriage return in it. -/
theorem kept_text_comes_back (s : Session) :
    (∀ key text, Store.Takes s.directory key → ∃ d, Store.putCached s.directory key text = .ok d ∧
      Store.cached? d key = .ok (some (asRead text)) ∧ (asRead text = text ↔ '\r' ∉ text.toList)) ∧
    ∀ t query context text, Works s (Oracle.cacheKey (Sql.toClickHouse query) context) →
      (renderText query context).run s = (.ok text, t) →
      ∃ again, (renderText query context).run t = (.ok again, t) ∧
        (again = text ↔ Sql.residualConstructs (Sql.toClickHouse query) = [] ∨ '\r' ∉ text.toList) := by
  refine ⟨fun key text h => ?_, fun t query context text h hrun => ?_⟩
  · have hput := h.putCached text
    exact ⟨_, hput, Store.cached?_putCached_self hput, Directory.asRead_eq_self_iff⟩
  · refine ⟨_, rendered_again h hrun rfl rfl, ?_⟩
    cases hrules : (Sql.residualConstructs (Sql.toClickHouse query)).isEmpty with
    | true => simp [List.isEmpty_iff.1 hrules]
    | false =>
      rw [if_neg Bool.false_ne_true, Directory.asRead_eq_self_iff]
      have hrest : Sql.residualConstructs (Sql.toClickHouse query) ≠ [] := by
        intro hnil
        rw [hnil] at hrules
        cases hrules
      simp [hrest]

/-- A session of which the oracle renders the query, and then nothing. -/
def askedSession : Session := { (default : Session) with oracle := some [.text shownQuery] }

/-- The rendering of the oracle is repeated, and so is a text that is kept under a key. -/
theorem kept_text_comes_back_shownQuery :
    (∃ d, Store.putCached askedSession.directory "k" shownQuery = .ok d ∧
      Store.cached? d "k" = .ok (some shownQuery)) ∧
    ∃ t, (renderText formattedQuery "").run askedSession = (.ok shownQuery, t) ∧
      (renderText formattedQuery "").run t = (.ok shownQuery, t) := by
  have hplain : '\r' ∉ shownQuery.toList := by decide
  obtain ⟨hstore, hsession⟩ := kept_text_comes_back askedSession
  obtain ⟨d, hput, hfound, hsame⟩ := hstore "k" shownQuery ⟨by decide, by decide +kernel, rfl, rfl⟩
  refine ⟨⟨d, hput, by rw [hfound, hsame.2 hplain]⟩, ?_⟩
  have hrender : renderText formattedQuery "" = render formattedQuery "" := by
    have hrules : Sql.toClickHouse formattedQuery = formattedQuery := by decide +kernel
    unfold renderText
    rw [hrules]
    exact if_neg (by decide +kernel)
  have hrun : ((renderText formattedQuery "").run askedSession).1 = .ok shownQuery := by
    rw [hrender, render, cacheKey_formattedQuery]
    exact eq_ok_of_toOption (by decide +kernel)
  obtain ⟨again, hagain, hsame⟩ := hsession _ formattedQuery "" shownQuery
    (works_of_empty rfl rfl rfl _ _) (Prod.ext hrun rfl)
  exact ⟨_, Prod.ext hrun rfl, by rw [hagain, hsame.2 (.inr hplain)]⟩

/-- **A carriage return comes back as a line feed.** -/
theorem kept_text_changes : Store.Takes .empty "k" ∧ ∃ d, Store.putCached .empty "k" "a\rb" = .ok d ∧
    Store.cached? d "k" = .ok (some "a\nb") ∧ Store.cached? d "k" ≠ .ok (some "a\rb") := by
  have htakes : Store.Takes .empty "k" := ⟨by decide, by decide +kernel, rfl, rfl⟩
  have hput := htakes.putCached "a\rb"
  have hfound := Store.cached?_putCached_self hput
  have hread : asRead "a\rb" = "a\nb" := by decide
  rw [hread] at hfound
  refine ⟨htakes, _, hput, hfound, ?_⟩
  rw [hfound]
  exact fun h => absurd (Except.ok.inj h) (by decide)

end Session
end CardTransfer

/-!
## Renderings one after another

Queries and texts are rendered in turn, by calls that may fail. What is found under the key of a text was
kept by a call before, and stays there: a call writes only where nothing is found (`cached?_steps`). So the
oracle is not asked about a text again once it has given a rendering of it, and no more than one text, which
was accepted, is written under a key (`disciplined_of_works`).
-/

namespace CardTransfer
namespace Session

open Directory (asRead)

/-- A call for a rendering, of a query or of a text that the rules have been through. -/
inductive RenderCall where
  | query (query context : String)
  | text (text context : String)

namespace RenderCall

/-- What a call does. -/
def steps : RenderCall → Action String
  | query q c => renderText q c
  | text q c => render q c

/-- The text, with the description of the target, that is looked up and that the oracle is asked about; none
if the rules suffice. -/
def asked? : RenderCall → Option (String × String)
  | query q c =>
    if (Sql.residualConstructs (Sql.toClickHouse q)).isEmpty then none else some (Sql.toClickHouse q, c)
  | text q c => some (q, c)

/-- The session after calls. -/
def after (s : Session) (calls : List RenderCall) : Session :=
  calls.foldl (fun s call => (call.steps.run s).2) s

theorem after_append (s : Session) (calls more : List RenderCall) :
    after s (calls ++ more) = after (after s calls) more := List.foldl_append

theorem after_cons (s : Session) (call : RenderCall) (calls : List RenderCall) :
    after s (call :: calls) = after (call.steps.run s).2 calls := rfl

end RenderCall

open RenderCall (after after_append after_cons)

variable {s : Session} {call : RenderCall} {calls : List RenderCall} {q : String × String} {key : String}

/-- The key of a text and the description of the target. -/
def keyOf (q : String × String) : String := Oracle.cacheKey q.1 q.2

theorem renderText_of_rest {query context : String}
    (h : (Sql.residualConstructs (Sql.toClickHouse query)).isEmpty = false) :
    renderText query context = render (Sql.toClickHouse query) context := by
  unfold renderText
  dsimp only
  rw [if_neg (by rw [h]; decide)]

theorem renderText_of_rules {query context : String}
    (h : (Sql.residualConstructs (Sql.toClickHouse query)).isEmpty = true) :
    renderText query context = pure (Sql.toClickHouse query) := by
  unfold renderText
  dsimp only
  rw [if_pos h]

theorem steps_of_asked (h : call.asked? = some q) : call.steps = render q.1 q.2 := by
  cases call with
  | text text context =>
    cases h
    rfl
  | query query context =>
    rw [RenderCall.asked?] at h
    split at h
    · cases h
    · rename_i hrest
      cases h
      rw [Bool.not_eq_true] at hrest
      rw [RenderCall.steps, renderText_of_rest hrest]

theorem steps_of_not_asked (h : call.asked? = none) : ∃ text, call.steps = pure text := by
  cases call with
  | text text context => cases h
  | query query context =>
    rw [RenderCall.asked?] at h
    split at h
    · rename_i hrules
      exact ⟨Sql.toClickHouse query, by rw [RenderCall.steps, renderText_of_rules hrules]⟩
    · cases h

/-- The store works for all that a call looks up. -/
def WorksFor (s : Session) (calls : List RenderCall) : Prop :=
  ∀ call ∈ calls, ∀ q, call.asked? = some q → Works s (keyOf q)

/-- A call renders what it looks up, or does nothing. -/
theorem steps_cases (h : ∀ q, call.asked? = some q → Works s (keyOf q)) :
    (call.asked? = none ∧ ∃ text, call.steps.run s = (.ok text, s)) ∨
      ∃ q r t, call.asked? = some q ∧ call.steps.run s = (r, t) ∧ Renders q.1 q.2 s r t := by
  cases hasked : call.asked? with
  | none =>
    obtain ⟨text, hsteps⟩ := steps_of_not_asked hasked
    exact .inl ⟨rfl, text, by rw [hsteps]; rfl⟩
  | some q =>
    rw [steps_of_asked hasked]
    exact .inr ⟨q, _, _, rfl, rfl, renders_render (h q hasked)⟩

/-- Where the store works it goes on working. -/
theorem Works.of_renders {r : Except Fault String} {t : Session} (h : Works s key)
    (hrenders : Renders q.1 q.2 s r t) : Works t key := by
  cases hrenders with
  | found hfound => exact h
  | failed hnone hasked =>
    exact ⟨hasked.unreadable.trans h.readable, hasked.unwritable.trans h.writable,
      hasked.directory ▸ h.takes⟩
  | given hnone hasked hanswer haccepted hput =>
    exact ⟨hasked.unreadable.trans h.readable, hasked.unwritable.trans h.writable,
      h.takes.of_putCached hput⟩

/-- What is found is found after a rendering too: a text is written only where none was found. -/
theorem found_of_renders {r : Except Fault String} {t : Session} {text : String} (h : Works s key)
    (hrenders : Renders q.1 q.2 s r t) (hfound : Store.cached? s.directory key = .ok (some text)) :
    Store.cached? t.directory key = .ok (some text) := by
  cases hrenders with
  | found => exact hfound
  | failed hnone hasked => exact hasked.directory ▸ hfound
  | given hnone hasked hanswer haccepted hput =>
    have hne : key ≠ Oracle.cacheKey q.1 q.2 := by
      rintro rfl
      rw [hfound] at hnone
      cases hnone
    exact (Store.cached?_putCached_of_ne h.takes hne hput).trans hfound

/-- After a rendering there is a text to be found. -/
theorem found_of_rendered {t : Session} {text : String} (h : Renders q.1 q.2 s (.ok text) t) :
    ∃ kept, Store.cached? t.directory (keyOf q) = .ok (some kept) := by
  cases h with
  | found hfound => exact ⟨_, hfound⟩
  | given hnone hasked hanswer haccepted hput => exact ⟨_, Store.cached?_putCached_self hput⟩

/-- One call keeps that the store works, and what is found in it. -/
structure Onward (s t : Session) : Prop where
  works : ∀ key, Works s key → Works t key
  found : ∀ key text, Works s key → Store.cached? s.directory key = .ok (some text) →
    Store.cached? t.directory key = .ok (some text)
  answers : t.oracle.getD [] <:+ s.oracle.getD []

theorem onward_steps (h : ∀ q, call.asked? = some q → Works s (keyOf q)) :
    Onward s (call.steps.run s).2 := by
  rcases steps_cases h with ⟨-, text, hrun⟩ | ⟨q, r, t, -, hrun, hrenders⟩
  · rw [hrun]
    exact ⟨fun _ h => h, fun _ _ _ h => h, List.suffix_refl _⟩
  · rw [hrun]
    refine ⟨fun key h => h.of_renders hrenders, fun key text h => found_of_renders h hrenders, ?_⟩
    cases hrenders with
    | found => exact List.suffix_refl _
    | failed hnone hasked => exact hasked.answers
    | given hnone hasked => exact hasked.answers

theorem WorksFor.mono {some : List RenderCall} (h : WorksFor s calls) (hsome : ∀ c ∈ some, c ∈ calls) :
    WorksFor s some := fun c hc => h c (hsome c hc)

theorem WorksFor.onward {t : Session} (h : WorksFor s calls) (honward : Onward s t) : WorksFor t calls :=
  fun c hc q hq => honward.works _ (h c hc q hq)

/-- So do many. -/
theorem onward_after (h : WorksFor s calls) : Onward s (after s calls) := by
  induction calls generalizing s with
  | nil => exact ⟨fun _ h => h, fun _ _ _ h => h, List.suffix_refl _⟩
  | cons call calls ih =>
    have hstep := onward_steps (h call (List.mem_cons_self ..))
    have hlater := ih ((h.mono fun c hc => List.mem_cons_of_mem _ hc).onward hstep)
    exact ⟨fun key h => hlater.works key (hstep.works key h),
      fun key text h hfound => hlater.found key text (hstep.works key h) (hstep.found key text h hfound),
      hlater.answers.trans hstep.answers⟩

/-- Where nothing is found after calls, none of them has got a rendering. -/
theorem failed_of_none {before more : List RenderCall} {earlier : RenderCall}
    (h : WorksFor s (before ++ earlier :: more)) (hasked : earlier.asked? = some q)
    (hnone : Store.cached? (after s (before ++ earlier :: more)).directory (keyOf q) = .ok none) :
    ∃ f, (earlier.steps.run (after s before)).1 = .error f := by
  have hbefore : Onward s (after s before) := onward_after (h.mono fun c hc => List.mem_append_left _ hc)
  have hthere : WorksFor (after s before) (earlier :: more) :=
    (h.mono fun c hc => List.mem_append_right _ hc).onward hbefore
  have hearlier := hthere earlier (List.mem_cons_self ..)
  have hstep := onward_steps hearlier
  have hmore := onward_after ((hthere.mono fun c hc => List.mem_cons_of_mem _ hc).onward hstep)
  rcases steps_cases hearlier with ⟨hnot, -⟩ | ⟨q', r, t, hq', hrun, hrenders⟩
  · rw [hasked] at hnot
    cases hnot
  cases hasked.symm.trans hq'
  cases r with
  | error f => exact ⟨f, by rw [hrun]⟩
  | ok text =>
    obtain ⟨kept, hkept⟩ := found_of_rendered hrenders
    have hworks : Works t (keyOf q) := (hearlier q hasked).of_renders hrenders
    rw [hrun] at hmore
    rw [after_append, after_cons, hrun, hmore.found _ _ hworks hkept] at hnone
    cases hnone

/-- Texts that digests tell apart: different ones have different digests, and it can be seen where a text
ends and the description of the target begins. -/
structure Apart (qs : List (String × String)) : Prop where
  digest : ∀ q ∈ qs, ∀ q' ∈ qs,
    Text.Sha256.digest (q.1 ++ "\x00" ++ q.2) = Text.Sha256.digest (q'.1 ++ "\x00" ++ q'.2) →
      q.1 ++ "\x00" ++ q.2 = q'.1 ++ "\x00" ++ q'.2
  plain : ∀ q ∈ qs, '\x00' ∉ q.1.toList

theorem Apart.eq_of_keyOf {qs : List (String × String)} {q' : String × String} (h : Apart qs) (hq : q ∈ qs)
    (hq' : q' ∈ qs) (hkey : keyOf q = keyOf q') : q = q' := by
  have htext := congrArg String.toList (h.digest q hq q' hq' hkey)
  simp only [String.toList_append, List.append_assoc] at htext
  obtain ⟨h₁, h₂⟩ := Text.eq_of_append_cons (h.plain q hq) (h.plain q' hq') htext
  exact Prod.ext (String.toList_inj.1 h₁) (String.toList_inj.1 h₂)

/-- What the last of some calls does. -/
structure Disciplined (s : Session) (before : List RenderCall) (call : RenderCall)
    (asked : List (String × String)) : Prop where
  /-- The oracle is asked about the text that the call looks up, and only if no call before has got a
  rendering of it. -/
  asks : (call.steps.run (after s before)).2.journal.prompts = (after s before).journal.prompts ∨
    ∃ q, call.asked? = some q ∧
      (∃ n, (call.steps.run (after s before)).2.journal.prompts =
        (after s before).journal.prompts ++ List.replicate n (Oracle.renderingPrompt q.1 q.2)) ∧
      ∀ calls earlier more, before = calls ++ earlier :: more → earlier.asked? = some q →
        ∃ f, (earlier.steps.run (after s calls)).1 = .error f
  /-- At most one text is written, under the key of what the call looks up: an answer of the oracle without
  code fences that can be accepted for every text with that key. -/
  writes : (call.steps.run (after s before)).2.directory = (after s before).directory ∨
    ∃ q text answer, call.asked? = some q ∧
      Store.putCached (after s before).directory (keyOf q) text =
        .ok (call.steps.run (after s before)).2.directory ∧
      .text answer ∈ s.oracle.getD [] ∧ text = Oracle.stripFences answer ∧ text.isEmpty = false ∧
      Oracle.refuses text = false ∧
      ∀ q' ∈ asked, keyOf q' = keyOf q → ∀ p ∈ Sql.placeholders q'.1, p ∈ Sql.placeholders text
  /-- A call that fails writes nothing. -/
  fails : ∀ f, (call.steps.run (after s before)).1 = .error f →
    (call.steps.run (after s before)).2.directory = (after s before).directory

/-- **Renderings are asked for until one is accepted, and only such are kept**, whatever calls there are and
whatever the oracle answers, if the store works for what is looked up. -/
theorem disciplined_of_works {before later : List RenderCall}
    (hcalls : calls = before ++ call :: later)
    (hworks : WorksFor s calls) (hapart : Apart (calls.filterMap RenderCall.asked?)) :
    Disciplined s before call (calls.filterMap RenderCall.asked?) := by
  have hbefore : WorksFor s before := hworks.mono fun c hc => hcalls ▸ List.mem_append_left _ hc
  have honward := onward_after hbefore
  have hmem : call ∈ calls := hcalls ▸ List.mem_append_right _ (List.mem_cons_self ..)
  have hnow := hworks.onward honward call hmem
  have hfailed : ∀ q, call.asked? = some q → Store.cached? (after s before).directory (keyOf q) = .ok none →
      ∀ calls earlier more, before = calls ++ earlier :: more → earlier.asked? = some q →
        ∃ f, (earlier.steps.run (after s calls)).1 = .error f := by
    rintro q - hnone calls' earlier more rfl hearlier
    exact failed_of_none hbefore hearlier hnone
  rcases steps_cases hnow with ⟨-, text, hrun⟩ | ⟨q, r, t, hq, hrun, hrenders⟩
  · exact ⟨.inl (by rw [hrun]), .inl (by rw [hrun]), fun f _ => by rw [hrun]⟩
  cases hrenders with
  | found => exact ⟨.inl (by rw [hrun]), .inl (by rw [hrun]), fun f _ => by rw [hrun]⟩
  | failed hnone hasked =>
    refine ⟨.inr ⟨q, hq, ?_, hfailed q hq hnone⟩, .inl ?_, fun f _ => ?_⟩
    · rw [hrun]
      exact hasked.prompts
    · rw [hrun]
      exact hasked.directory
    · rw [hrun]
      exact hasked.directory
  | given hnone hasked hanswer haccepted hput =>
    refine ⟨.inr ⟨q, hq, ?_, hfailed q hq hnone⟩, .inr ?_, fun f h => ?_⟩
    · rw [hrun]
      exact hasked.prompts
    · obtain ⟨hstrip, hsome, hrefuses, -⟩ := Oracle.acceptRendering_eq_ok.1 haccepted
      refine ⟨q, _, _, hq, by rw [hrun]; exact hput, honward.answers.subset hanswer, hstrip, hsome, hrefuses,
        fun q' hq' hkey p hp => ?_⟩
      have hasked : q ∈ calls.filterMap RenderCall.asked? := List.mem_filterMap.2 ⟨call, hmem, hq⟩
      rw [hapart.eq_of_keyOf hq' hasked hkey] at hp
      exact mem_placeholders_of_accepted haccepted hp
    · rw [hrun] at h
      cases h

/-- A rendering is asked for with one description of the target and with another one, and then found. -/
def threeCalls : List RenderCall :=
  [.query formattedQuery "", .text formattedQuery "t(n)", .query formattedQuery ""]

theorem asked_threeCalls : threeCalls.filterMap RenderCall.asked? =
    [(formattedQuery, ""), (formattedQuery, "t(n)"), (formattedQuery, "")] := by
  decide +kernel

theorem disciplined_of_works_threeCalls : WorksFor askedSession threeCalls ∧
    Apart (threeCalls.filterMap RenderCall.asked?) ∧
    Disciplined askedSession [.query formattedQuery "", .text formattedQuery "t(n)"] (.query formattedQuery "")
      (threeCalls.filterMap RenderCall.asked?) := by
  have hworks : WorksFor askedSession threeCalls := fun _ _ _ _ => works_of_empty rfl rfl rfl _ _
  have hapart : Apart (threeCalls.filterMap RenderCall.asked?) := by
    rw [asked_threeCalls]
    exact ⟨by decide +kernel, by decide +kernel⟩
  exact ⟨hworks, hapart, disciplined_of_works rfl hworks hapart⟩

end Session
end CardTransfer
