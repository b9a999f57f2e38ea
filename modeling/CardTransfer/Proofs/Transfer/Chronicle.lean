import CardTransfer.Proofs.Transfer.Call
import CardTransfer.Proofs.Transfer.Commit

/-!
# What a request writes, and when

What a request does on the target and in the card map is one `Chronicle`: attempts to write cards in turn,
each of which is refused, or is followed at once by a run of the card, by its repairs and by its entry in the
card map. Nothing else is entered there (`Store.Enters`).

The deadline is looked at right before each attempt, and the clock stands still in between. So every attempt,
for the card of the request or for one that it depends on at any depth, is made before the deadline, and what
follows a successful one does not depend on it (`written_before_deadline`).
-/

namespace CardTransfer

open Relation (ReflTransGen)

/-! ### Entries in the card map -/

/-- The card map changes by some entries, made in turn, and by nothing else. -/
inductive Store.Enters : Directory → List (Json × Json) → Directory → Prop
  | same {d d' : Directory} (h : cardObject d' = cardObject d) : Enters d [] d'
  | entered {d d₁ d₂ d' : Directory} {source target : Json} {cs : List (Json × Json)}
    (h : cardObject d₁ = cardObject d) (set : setCard d₁ source target = .ok d₂)
    (rest : Enters d₂ cs d') : Enters d ((source, target) :: cs) d'

namespace Store.Enters

variable {d d₁ d' : Directory} {cs cs' : List (Json × Json)}

theorem of_same (h : cardObject d₁ = cardObject d) (henters : Enters d₁ cs d') : Enters d cs d' := by
  cases henters with
  | same h' => exact .same (h'.trans h)
  | entered h' set rest => exact .entered (h'.trans h) set rest

/-- Entries in a row. -/
theorem append (h₁ : Enters d cs d₁) (h₂ : Enters d₁ cs' d') : Enters d (cs ++ cs') d' := by
  induction h₁ with
  | same h => exact h₂.of_same h
  | entered h set rest ih => exact .entered h set (ih h₂)

end Store.Enters

/-! ### Chronicles -/

/-- Attempts to write cards, the events on the target and the entries in the card map that come of them. -/
inductive Chronicle : List Attempt → List Entry → List (Json × Json) → Prop
  | nil : Chronicle [] [] []
  /-- The target refuses a card. -/
  | refused {a : Attempt} {f : Fault} {as : List Attempt} {es : List Entry} {cs : List (Json × Json)}
    (answer : a.answer = .error f) (rest : Chronicle as es cs) : Chronicle (a :: as) es cs
  /-- A card is written, run, repaired with some queries and entered in the card map. -/
  | written {a : Attempt} {target : Json} {queries : List Members} {as : List Attempt}
    {new es : List Entry} {cs : List (Json × Json)} (answer : a.answer = .ok target)
    (repairs : new.map (·.event) = Session.repairs target queries) (rest : Chronicle as es cs) :
    Chronicle (a :: as)
      (⟨a.event target, a.time, a.store⟩ :: ⟨.ran target, a.time, a.store⟩ :: (new ++ es))
      ((a.source, target) :: cs)

/-- Chronicles in a row. -/
theorem Chronicle.append {as as' : List Attempt} {es es' : List Entry} {cs cs' : List (Json × Json)}
    (h₁ : Chronicle as es cs) (h₂ : Chronicle as' es' cs') :
    Chronicle (as ++ as') (es ++ es') (cs ++ cs') := by
  induction h₁ with
  | nil => exact h₂
  | refused answer rest ih => exact .refused answer ih
  | written answer repairs rest ih =>
    simpa only [List.cons_append, List.append_assoc] using written answer repairs ih

namespace Session

variable {terms : Terms} {id : Json} {card : Card} {existing : Option Json} {q : NewQuery}
  {deadline : Option Number} {s t u : Session} {a : Attempt}

/-- From session `s` to session `t`, what is written is told in a chronicle, and no attempt is made after the
deadline. -/
structure Recorded (deadline : Option Number) (s t : Session) : Prop where
  settings : t.settings = s.settings
  told : ∃ as es cs, t.journal.attempts = s.journal.attempts ++ as ∧
    t.journal.entries = s.journal.entries ++ es ∧ t.journal.commits = s.journal.commits ++ cs ∧
      Chronicle as es cs ∧ Store.Enters s.directory cs t.directory ∧
        ∀ a ∈ as, deadline.any a.time.ge = false

theorem Recorded.of_silent (s t : Session) (h : Silent s t) : Recorded deadline s t :=
  ⟨h.settings, [], [], [], by rw [h.attempts, List.append_nil], by rw [h.entries, List.append_nil],
    by rw [h.commits, List.append_nil], .nil, .same (cardObject_of_renderings h.renderings), nofun⟩

theorem Recorded.trans (h₁ : Recorded deadline s t) (h₂ : Recorded deadline t u) :
    Recorded deadline s u := by
  obtain ⟨as, es, cs, has, hes, hcs, htold, henters, htimely⟩ := h₁.told
  obtain ⟨as', es', cs', has', hes', hcs', htold', henters', htimely'⟩ := h₂.told
  exact ⟨h₂.settings.trans h₁.settings, as ++ as', es ++ es', cs ++ cs',
    by rw [has', has, List.append_assoc], by rw [hes', hes, List.append_assoc],
    by rw [hcs', hcs, List.append_assoc], htold.append htold', henters.append henters',
    List.forall_mem_append.2 ⟨htimely, htimely'⟩⟩

instance : Std.Refl (Recorded deadline) := ⟨fun s => .of_silent s s (Std.Refl.refl s)⟩

instance : IsTrans Session (Recorded deadline) := ⟨fun _ _ _ h₁ h₂ => h₁.trans h₂⟩

/-- Writing a card that is due is one more step of the chronicle. -/
theorem Due.recorded_commit (h : Due terms id card s existing q t) :
    Recorded terms.deadline t ((commit terms id card existing q).run t).2 := by
  have hrun := h.commitRun
  generalize (commit terms id card existing q).run t = p at hrun ⊢
  cases hrun with
  | unwritten failed => exact Std.Refl.refl t
  | refused tried answer wrote failed =>
    rename_i a f r u
    have hentries := Attempt.entries_of_error answer
    rw [wrote.after, hentries, List.append_nil]
    exact ⟨rfl, [a], [], [], rfl, (List.append_nil _).symm, (List.append_nil _).symm,
      .refused answer .nil, .same rfl, List.forall_mem_singleton.2 tried.timely⟩
  | written written =>
    obtain ⟨new, hentries, hrepairs⟩ := written.entries
    obtain ⟨d, hd, hset⟩ := written.entered
    have hchronicle := Chronicle.written written.answer hrepairs .nil
    rw [written.tried.source, List.append_nil] at hchronicle
    exact ⟨written.settings, _, _, _, written.attempts, hentries, written.commits, hchronicle,
      .entered hd hset (.same rfl), List.forall_mem_singleton.2 written.tried.timely⟩

/-- **A transfer is told in a chronicle**, over any number of levels. -/
theorem recorded_transferCard (hdeadline : terms.deadline = deadline) (levels : Nat) (path : Ids)
    (id : Json) : Steps.Keeps (Recorded deadline) (transferCard levels terms path id) :=
  keeps_transferCard_of (P := fun terms => terms.deadline = deadline) Recorded.of_silent (fun _ h => h)
    (fun _ h _ _ _ _ _ _ due => h ▸ due.recorded_commit) hdeadline levels path id

/-! ### Requests -/

/-- A clock that is not at or past a deadline is before it, unless one of them shows no number. -/
theorem lt_of_ge_eq_false {time deadline : Number} (h : time.ge deadline = false) :
    time.lt deadline = true ∨ time.compare deadline = none := by
  unfold Number.ge at h
  unfold Number.lt
  cases hcompare : time.compare deadline with
  | none => exact .inr rfl
  | some o =>
    rw [hcompare] at h
    cases o with
    | lt => exact .inl rfl
    | eq => cases h
    | gt => cases h

/-- A request that sets a number of seconds sets a deadline. -/
theorem Request.exists_deadline {r : Request} {terms : Terms} {path : Ids}
    (h : r.terms s = .ok (terms, path)) (hseconds : (r.seconds s).truthy = true) :
    ∃ deadline, Json.plus "+" s.clock (r.seconds s) = .ok deadline ∧ terms.deadline = some deadline := by
  have hdeadline : (if (r.seconds s).truthy then some <$> Json.plus "+" s.clock (r.seconds s) else .ok none) =
      .ok terms.deadline := Request.deadline_of_terms h
  rw [if_pos hseconds] at hdeadline
  obtain ⟨deadline, hplus, hsome⟩ := map_eq_ok.1 hdeadline
  exact ⟨deadline, hplus, hsome.symm⟩

/-- **Nothing is written after the deadline.** What a request does is told in a chronicle: every card that
is put on the target is run at once and entered in the card map, and nothing else is entered there. If
seconds are set, by the request or the settings, then every attempt is made on a clock strictly before the
deadline. (Without a number on the clock there is no before and after.) -/
theorem written_before_deadline (r : Request) (s : Session) : ∃ as es cs,
    ((transfer r).run s).2.journal.attempts = s.journal.attempts ++ as ∧
    ((transfer r).run s).2.journal.entries = s.journal.entries ++ es ∧
    ((transfer r).run s).2.journal.commits = s.journal.commits ++ cs ∧
    Chronicle as es cs ∧ Store.Enters s.directory cs ((transfer r).run s).2.directory ∧
    ((r.seconds s).truthy = true → ∀ a ∈ as, ∃ deadline,
      Json.plus "+" s.clock (r.seconds s) = .ok deadline ∧
        (a.time.lt deadline = true ∨ a.time.compare deadline = none)) := by
  generalize hrun : (transfer r).run s = p
  obtain ⟨e, t⟩ := p
  rcases transfer_store_cases hrun with ⟨rfl, -⟩ | ⟨terms, path, o, u, d, hterms, htransfer, rfl, hd, -⟩
  · exact ⟨[], [], [], (List.append_nil _).symm, (List.append_nil _).symm, (List.append_nil _).symm, .nil,
      .same rfl, fun _ => nofun⟩
  · have hkeeps : Steps.Keeps (Recorded terms.deadline) (transferCard s.levels terms path r.card) :=
      recorded_transferCard rfl s.levels path r.card
    have hrecorded := hkeeps s
    rw [htransfer] at hrecorded
    obtain ⟨as, es, cs, has, hes, hcs, htold, henters, htimely⟩ := hrecorded.told
    refine ⟨as, es, cs, has, hes, hcs, htold, ?_, fun hseconds a ha => ?_⟩
    · have hlast := henters.append (Store.Enters.same hd)
      rwa [List.append_nil] at hlast
    · obtain ⟨deadline, hplus, hsome⟩ := Request.exists_deadline hterms hseconds
      have hfalse := htimely a ha
      rw [hsome] at hfalse
      exact ⟨deadline, hplus, lt_of_ge_eq_false hfalse⟩

/-- Card 7 refers to card 8, and a fetch takes three seconds. With five seconds nothing is written, and with
seven both cards are, after six seconds. -/
example :
    let s := smallSession [structuredCard 7 (.str "card__8"), structuredCard 8 (.int 5)] ⟨[]⟩
    let slow := { s with metabase := { s.metabase with fetchTime := .int 3 } }
    let run (seconds : Int) := ((transfer { liveRequest 7 false with timeout := .int seconds }).run slow).2
    (run 5).journal.attempts.length = 0 ∧
      (run 7).journal.attempts.map (fun a => (a.source.key, a.time.compare (.int 6))) =
        [(.whole 8, some .eq), (.whole 7, some .eq)] := by
  decide +kernel

end Session
end CardTransfer

/-!
## What is reported about a card that has been written

A request that creates or replaces the card it is about reports the query that this card has on the target
(`report_tells_target`). The card stays as the verification leaves it: what comes after, the entry in the card
map and the update of the waiting area, touches only the store.

A card that is to be replaced must be there for this, because the instance takes a change of a card that it
does not have without a word. A card that is there at the beginning is still there when its turn comes, for
nothing takes a card away (`present_transferCard`).
-/

namespace CardTransfer

open Steps (Keeps Passes keeps_pure)

variable {target id : Json}

/-! ### Cards stay -/

namespace Metabase.Instance

variable {m m' : Instance}

theorem Present.of_sameCards (h : Session.SameCards m m') : Passes (Present target) m m' := by
  intro hm
  unfold Present
  rw [h.1]
  exact hm

end Metabase.Instance

namespace Session

variable {terms : Terms} {s t u : Session}

theorem Present.of_calm (s t : Session) (h : Calm s t) : Passes (Present target) s t :=
  Metabase.Instance.Present.of_sameCards ⟨h.cards, h.nextId⟩

/-- What is reported has been written in the course of a request, from session `s` to session `t`: by the last
attempt, which a run follows, and then the exchanges of the query, each with a run. -/
structure Delivered (result : Transferred) (a : Attempt) (target : Json) (query : Members)
    (queries : List Members) (s t : Session) : Prop
    extends Described result a target query queries s t where
  attempts : ∃ before, t.journal.attempts = s.journal.attempts ++ before ++ [a]
  entries : ∃ before new, t.journal.entries = s.journal.entries ++ before ++
      ⟨a.event target, a.time, a.store⟩ :: ⟨.ran target, a.time, a.store⟩ :: new ∧
    new.map (·.event) = repairs target queries

section

variable {result : Transferred} {a : Attempt} {query : Members} {queries : List Members}
  {deadline : Option Number}

/-- What is delivered stays so if only the store changes. -/
theorem Delivered.store (h : Delivered result a target query queries s t) (d : Directory) :
    Delivered result a target query queries s { t with directory := d } :=
  { h with
    stored := fun hthere =>
      let ⟨query', hquery', hstored⟩ := h.stored hthere
      ⟨query', hquery', hstored.congr rfl⟩
    verified := h.verified.congr rfl rfl }

end

end Session
end CardTransfer
