import CardTransfer.Proofs.Transfer.BatchCards
import CardTransfer.Proofs.Transfer.Call
import CardTransfer.Store.Mappings

/-!
# Dry runs

The steps of a dry run only read, apart from the renderings that it keeps (`Reading`): still steps and
fetches do, and a card is never due to be written. Reading leaves all texts in the store alone but
renderings, and the calls for which the instance has a course laid down are used up by fetching and listing
cards only. So a dry run, of a card or of all ready cards, spares the target and all that the store knows of
cards, tables, fields and states (`dryRun_spares`).
-/

namespace CardTransfer

namespace Metabase

variable {m m' m'' : Instance} {name other : CallName}

/-- A call leaves the courses that are laid down for other calls. -/
theorem Courses.lookup_next (cs : Courses) (h : other ≠ name) :
    (cs.next name).2.lookup other = cs.lookup other := by
  induction cs with
  | nil => rfl
  | cons c cs ih =>
    obtain ⟨c, courses⟩ := c
    unfold Courses.next
    by_cases hc : c = name
    · subst hc
      have hother : (other == c) = false := beq_eq_false_iff_ne.2 h
      rw [if_pos rfl, List.lookup_cons, List.lookup_cons, hother]
    · rw [if_neg hc, List.lookup_cons, List.lookup_cons, ih]

/-- Whether a call fetches a card or lists all cards. -/
def CallName.asks : CallName → Bool
  | .get _ => true
  | .list => true
  | _ => false

namespace Instance

/-- All that may have been done with an instance is to fetch and to list cards. -/
structure OnlyAsked (m m' : Instance) : Prop where
  eq : m' = { m with courses := m'.courses }
  courses : ∀ name, name.asks = false → m'.courses.lookup name = m.courses.lookup name

theorem OnlyAsked.refl (m : Instance) : OnlyAsked m m := ⟨rfl, fun _ _ => rfl⟩

theorem OnlyAsked.trans (h₁ : OnlyAsked m m') (h₂ : OnlyAsked m' m'') : OnlyAsked m m'' where
  eq := by
    rw [h₂.eq, h₁.eq]
  courses := fun name hname => (h₂.courses name hname).trans (h₁.courses name hname)

instance : Std.Refl OnlyAsked := ⟨OnlyAsked.refl⟩

instance : IsTrans Instance OnlyAsked := ⟨fun _ _ _ h₁ h₂ => h₁.trans h₂⟩

open Steps (Keeps keeps_pure keeps_throw keeps_get keeps_ofExcept)

theorem onlyAsked_meet (h : name.asks = true) : Keeps OnlyAsked (meet name) := by
  have hcourse : Keeps OnlyAsked (course name) := by
    refine fun m => ⟨rfl, fun other hother => Courses.lookup_next m.courses ?_⟩
    rintro rfl
    rw [h] at hother
    cases hother
  refine hcourse.bind fun step => ?_
  split
  · exact keeps_throw _
  · exact keeps_pure _

theorem onlyAsked_getCard (id : Json) : Keeps OnlyAsked (getCard id) := by
  refine (onlyAsked_meet rfl).bind fun _ => keeps_get.bind fun m => ?_
  split
  · exact keeps_ofExcept _
  · exact keeps_throw _

theorem onlyAsked_listCards : Keeps OnlyAsked listCards :=
  (onlyAsked_meet rfl).bind fun _ => keeps_get.bind fun _ => keeps_ofExcept _

end Instance
end Metabase

namespace Session

open Relation (ReflTransGen)
open Steps (Keeps keeps_pure keeps_throw keeps_ofExcept keeps_get)

variable {s t u : Session} {path : String} {d d' : Directory}

/-! ### Reading -/

/-- The instance has only been asked for cards, nothing has been noted but questions and pauses, and the store
may have got renderings. -/
structure Reading (s t : Session) : Prop where
  correspondence : t.correspondence = s.correspondence
  entries : t.journal.entries = s.journal.entries
  attempts : t.journal.attempts = s.journal.attempts
  commits : t.journal.commits = s.journal.commits
  metabase : s.metabase.OnlyAsked t.metabase
  renderings : ReflTransGen Rendered s.directory t.directory

theorem Reading.trans (h₁ : Reading s t) (h₂ : Reading t u) : Reading s u where
  correspondence := h₂.correspondence.trans h₁.correspondence
  entries := h₂.entries.trans h₁.entries
  attempts := h₂.attempts.trans h₁.attempts
  commits := h₂.commits.trans h₁.commits
  metabase := h₁.metabase.trans h₂.metabase
  renderings := h₁.renderings.trans h₂.renderings

instance : Std.Refl Reading := ⟨fun s => ⟨rfl, rfl, rfl, rfl, .refl s.metabase, .refl⟩⟩

instance : IsTrans Session Reading := ⟨fun _ _ _ h₁ h₂ => h₁.trans h₂⟩

theorem Still.reading (s t : Session) (h : Still s t) : Reading s t where
  correspondence := h.correspondence
  entries := h.entries
  attempts := h.attempts
  commits := h.commits
  metabase := by
    rw [h.metabase]
    exact .refl s.metabase
  renderings := h.renderings

theorem reading_call {α : Type} {steps : Steps Metabase.Instance α}
    (h : Keeps Metabase.Instance.OnlyAsked steps) : Keeps Reading (call steps) :=
  fun s => ⟨rfl, rfl, rfl, rfl, h s.metabase, .refl⟩

theorem reading_fetch (id : Json) : Keeps Reading (fetch id) :=
  keeps_get.bind fun _ => ((still_elapse _).imp Still.reading).bind fun _ =>
    reading_call (Metabase.Instance.onlyAsked_getCard id)

/-- A dry run of a card only reads, over any number of levels. -/
theorem reading_transferCard {terms : Terms} (hdry : terms.dryRun.truthy = true) (levels : Nat) (path : Ids)
    (id : Json) : Keeps Reading (transferCard levels terms path id) := by
  refine keeps_transferCard_of_fetch (P := fun terms => terms.dryRun.truthy = true) Still.reading
    reading_fetch (fun _ h => h) (fun terms hdry id card s existing q t due => ?_) hdry levels path id
  have hlive := due.live
  rw [hdry] at hlive
  cases hlive

/-- So does a dry run that is requested. -/
theorem reading_transfer {r : Request} (hdry : r.dryRun.truthy = true) : Keeps Reading (transfer r) := by
  intro s
  rw [run_transfer]
  cases hterms : r.terms s with
  | error f => exact Std.Refl.refl s
  | ok p =>
    obtain ⟨terms, path⟩ := p
    obtain ⟨deadline, rfl⟩ := Request.eq_of_terms hterms
    simp only [hdry, ↓reduceIte]
    exact reading_transferCard hdry _ _ _ s

theorem reading_attemptCards {dryRun limit : Json} (hdry : dryRun.truthy = true) (g : Graph)
    (states : IdMap CardState) (ids done : Ids) (attempted : Nat) :
    Keeps Reading (attemptCards dryRun limit g states ids done attempted) := by
  induction ids generalizing done attempted with
  | nil => exact keeps_pure _
  | cons id ids ih =>
    unfold attemptCards
    refine (keeps_ofExcept _).bind fun reached => ?_
    split
    · exact keeps_pure _
    split
    · refine (reading_transfer ?_).bind fun o => (ih _ _).bind fun _ => keeps_pure _
      exact hdry
    · exact ih _ _

/-- A dry run of all ready cards only reads. -/
theorem reading_transferAll {dryRun : Json} (limit : Json) (hdry : dryRun.truthy = true) :
    Keeps Reading (transferAll dryRun limit) := by
  have hlist : Keeps Reading listSourceCards :=
    (reading_call Metabase.Instance.onlyAsked_listCards).bind fun _ => keeps_get.bind fun _ => keeps_pure _
  refine hlist.bind fun cards => (keeps_ofExcept _).bind fun order => ?_
  refine ((keeps_states cards).imp ?_).bind fun states => (keeps_ofExcept _).bind fun g => ?_
  · rintro s _ rfl
    exact Std.Refl.refl s
  refine (((still_readStore _).imp Still.reading).bind fun _ => keeps_pure _).bind fun done => ?_
  exact (reading_attemptCards hdry g states _ done 0).bind fun _ => keeps_pure _

/-! ### What reading spares -/

/-- Renderings leave a path as it is that does not lead into their folder. -/
theorem sameAt_of_renderings (h : ReflTransGen Rendered d d')
    (hway : ∀ p ∈ path :: Directory.parents path, ¬"translation_cache".toList <+: p.toList) :
    d.SameAt path d' := by
  induction h with
  | refl => exact .refl path d
  | tail _ hlast ih =>
    obtain ⟨key, text, hput⟩ := hlast
    exact ih.trans (Store.sameAt_putCached hput hway)

/-- They leave every text as it is that is no rendering. -/
theorem lookup_of_renderings (h : ReflTransGen Rendered d d') (hpath : ∀ key, path ≠ Store.cachePath key) :
    d'.files.lookup path = d.files.lookup path := by
  induction h with
  | refl => rfl
  | tail _ hlast ih =>
    obtain ⟨key, text, hput⟩ := hlast
    obtain ⟨k, -, hwrite⟩ := bind_eq_ok.1 hput
    obtain ⟨rfl, -, -⟩ := Directory.eq_put_of_write hwrite
    rw [Directory.lookup_put, if_neg (Ne.symm (hpath k)), ih]

/-- What a dry run leaves as it is: the events, attempts and commits of the journal, the instance apart from
the courses of fetches and listings, the correspondence, the mappings and states in the store, and all texts
in it that are no renderings. -/
structure Spared (s t : Session) : Prop where
  entries : t.journal.entries = s.journal.entries
  attempts : t.journal.attempts = s.journal.attempts
  commits : t.journal.commits = s.journal.commits
  metabase : s.metabase.OnlyAsked t.metabase
  correspondence : t.correspondence = s.correspondence
  cardMap : Store.cardMap t.directory = Store.cardMap s.directory
  tableMappings : Store.tableMappings t.directory = Store.tableMappings s.directory
  fieldMappings : Store.fieldMappings t.directory = Store.fieldMappings s.directory
  states : ∀ key, Store.getState t.directory key = Store.getState s.directory key
  texts : ∀ path, (∀ key, path ≠ Store.cachePath key) →
    t.directory.files.lookup path = s.directory.files.lookup path

theorem Reading.spared (h : Reading s t) : Spared s t where
  entries := h.entries
  attempts := h.attempts
  commits := h.commits
  metabase := h.metabase
  correspondence := h.correspondence
  cardMap := by
    unfold Store.cardMap
    rw [cardObject_of_renderings h.renderings]
  tableMappings := by
    unfold Store.tableMappings Store.RowFile.rows
    rw [(sameAt_of_renderings h.renderings (by decide)).readJson]
  fieldMappings := by
    unfold Store.fieldMappings Store.RowFile.rows
    rw [(sameAt_of_renderings h.renderings (by decide)).readJson]
  states key := Store.getState_congr (sameAt_of_renderings h.renderings fun _ => Store.not_prefix_of_mem_way)
  texts path hpath := lookup_of_renderings h.renderings hpath

/-- **Dry runs spare the target and the store**, whatever is asked for and whatever becomes of it: a dry run of
a card, forced or not, with any cards visited and any deadline, and a dry run of all ready cards up to any
limit. -/
theorem dryRun_spares :
    (∀ s r, r.dryRun.truthy = true → Spared s ((transfer r).run s).2) ∧
    ∀ s dryRun limit, dryRun.truthy = true → Spared s ((transferAll dryRun limit).run s).2 :=
  ⟨fun s _ hdry => (reading_transfer hdry s).spared,
    fun s _ limit hdry => (reading_transferAll limit hdry s).spared⟩

/-- A card that refers to another one. -/
def pairSession : Session :=
  smallSession [structuredCard 7 (.str "card__8"), structuredCard 8 (.int 5)] ⟨[]⟩

theorem dryRun_spares_pairSession : (Request.usual (.int 7)).dryRun.truthy = true ∧
    Spared pairSession ((transfer (Request.usual (.int 7))).run pairSession).2 ∧
    Spared pairSession ((transferAll (.bool true) .null).run pairSession).2 :=
  ⟨rfl, dryRun_spares.1 pairSession (Request.usual (.int 7)) rfl,
    dryRun_spares.2 pairSession (.bool true) .null rfl⟩

end Session
end CardTransfer
