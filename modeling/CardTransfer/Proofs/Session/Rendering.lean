import CardTransfer.Proofs.Session.Frame
import CardTransfer.Proofs.Sql.Dialect

/-!
# What a rendering keeps of the parameters of its query

A rendering is written by the rules, found in the store, or given by the oracle. Each of these keeps the
parameters of the query for a reason of its own:

- The rules keep those in which they find nothing (`Sql.mem_placeholders_toClickHouse`).
- An answer of the oracle is refused if it has lost one.
- The store keeps accepted answers only (`Produced`). What is found there belongs to the query, unless two
  queries that were asked have the same key; on reading, carriage returns are lost.

So a parameter is kept if the rules do not take it apart (`placeholders_kept`). The exchange of
`current_date` does take one apart.
-/

namespace CardTransfer

/-! ### Placeholders in texts that are read -/

namespace Sql

/-- Reading a text that was kept loses no placeholder without carriage returns. -/
theorem mem_placeholders_readBreaks {p text : String} (hp : '\r' ∉ p.toList) (h : p ∈ placeholders text) :
    p ∈ placeholders (String.ofList (Directory.readBreaks text.toList)) := by
  obtain ⟨name, hname, ⟨a, b, hab⟩, htrim⟩ := mem_placeholders_iff.1 h
  have hbraced : Directory.readBreaks text.toList =
      Directory.readBreaks a ++ braced (Directory.readBreaks name) ++ Directory.readBreaks b := by
    have hname' : braced name ++ b = '\x7b' :: ('\x7b' :: name ++ '\x7d' :: '\x7d' :: b) := by simp [braced]
    rw [← hab, List.append_assoc, hname', Directory.readBreaks_append (by decide), ← List.cons_append,
      Directory.readBreaks_append (by decide)]
    simp [Directory.readBreaks, braced]
  have htrimmed : Text.trim (Directory.readBreaks name) = p.toList := by
    obtain ⟨left, right, heq, hleft, hright⟩ := Text.exists_blanks name
    have hblank {x : List Char} (hx : ∀ c ∈ x, Text.isBlank c = true) :
        ∀ c ∈ Directory.readBreaks x, Text.isBlank c = true := by
      intro c hc
      rcases Directory.mem_readBreaks hc with hc | rfl
      · exact hx c hc
      · decide
    rw [htrim] at heq
    cases hp' : p.toList with
    | nil =>
      have hall : ∀ c ∈ name, Text.isBlank c = true := by
        intro c hc
        rw [heq, hp', List.append_nil, List.mem_append] at hc
        exact hc.elim (hleft c) (hright c)
      have hnone : Text.trim (Directory.readBreaks name ++ [] ++ []) = Text.trim [] :=
        Text.trim_append_blanks (hblank hall) (by simp)
      rwa [List.append_nil, List.append_nil] at hnone
    | cons c rest =>
      -- the parameter itself is read as it is
      have hc : c ≠ '\n' := by
        rintro rfl
        exact absurd (Text.isBlank_of_trim_eq_cons (htrim.trans hp')) (by decide)
      rw [hp'] at hp heq htrim
      rw [heq, List.append_assoc, List.cons_append, Directory.readBreaks_append hc, ← List.cons_append,
        Directory.readBreaks_append_of_not_mem hp, ← List.append_assoc,
        Text.trim_append_blanks (hblank hleft) (hblank hright), ← htrim, Text.trim_trim]
  refine mem_placeholders_iff.2 ⟨Directory.readBreaks name, ⟨?_, fun c hc => ?_⟩, ?_, htrimmed⟩
  · exact fun h => hname.nonempty (Directory.readBreaks_eq_nil h)
  · rcases Directory.mem_readBreaks hc with hc | rfl
    · exact hname.braceless c hc
    · rfl
  · rw [String.toList_ofList, hbraced]
    exact List.infix_append ..

end Sql

namespace Session

open Steps (Passes Keeps Ensures ensures_pure ensures_throw ensures_ofExcept ensures_get keeps_pure
  keeps_throw keeps_get keeps_get_bind keeps_modify)

/-! ### Stores -/

/-- The stores that hold renderings of queries that were asked only: none in the beginning, later those
that were accepted. Other changes of a store bring no renderings about. -/
inductive Produced (asked : List (String × String)) : Directory → Prop
  | fresh {d : Directory} (h : ∀ key text, Store.cached? d key ≠ .ok (some text)) : Produced asked d
  | kept {d d' : Directory} {query context answer text : String} (hd : Produced asked d)
      (hasked : (query, context) ∈ asked) (haccepted : Oracle.acceptRendering query answer = .ok text)
      (hput : Store.putCached d (Oracle.cacheKey query context) text = .ok d') : Produced asked d'
  | other {d d' : Directory} (hd : Produced asked d)
      (h : ∀ key text, Store.cached? d' key = .ok (some text) → Store.cached? d key = .ok (some text)) :
      Produced asked d'

variable {asked : List (String × String)} {d : Directory} {query context p : String}

/-- A store without texts. -/
theorem produced_empty : Produced asked Directory.empty := by
  refine .fresh fun key text h => ?_
  obtain ⟨k, -, hread⟩ := bind_eq_ok.1 h
  unfold Directory.read? at hread
  split at hread
  · cases hread
  · cases hread

/-- **What is found in a store was accepted** for a query that was asked. -/
theorem Produced.accepted {key found : String} (hd : Produced asked d)
    (h : Store.cached? d key = .ok (some found)) : ∃ query context answer text, (query, context) ∈ asked ∧
      key = Oracle.cacheKey query context ∧ Oracle.acceptRendering query answer = .ok text ∧
      found = String.ofList (Directory.readBreaks text.toList) := by
  induction hd with
  | fresh hnone => exact absurd h (hnone _ _)
  | kept _ hasked haccepted hput ih =>
    rcases Store.cached?_putCached hput h with ⟨rfl, rfl⟩ | h
    · exact ⟨_, _, _, _, hasked, rfl, haccepted, rfl⟩
    · exact ih h
  | other _ hless ih => exact ih (hless _ _ h)

/-- An accepted answer has every placeholder of its query. -/
theorem mem_placeholders_of_accepted {answer text : String}
    (h : Oracle.acceptRendering query answer = .ok text) (hp : p ∈ Sql.placeholders query) :
    p ∈ Sql.placeholders text := by
  obtain ⟨-, -, -, hlost⟩ := Oracle.acceptRendering_eq_ok.1 h
  by_contra hnot
  have hmem : p ∈ Sql.lostPlaceholders query text :=
    List.mem_filter.2 ⟨hp, by rw [Bool.not_eq_true', List.contains_eq_mem, decide_eq_false hnot]⟩
  rw [hlost] at hmem
  cases hmem

/-- Where more is asked, more stores come about. -/
theorem Produced.mono {more : List (String × String)} (hd : Produced asked d) (h : asked ⊆ more) :
    Produced more d := by
  induction hd with
  | fresh hnone => exact .fresh hnone
  | kept _ hasked haccepted hput ih => exact .kept ih (h hasked) haccepted hput
  | other _ hless ih => exact .other ih hless

/-! ### Steps of a rendering -/

/-- The rendering of a query: an answer that was accepted for it, or one that was accepted for a query
with the same key, as it is read. -/
def IsRendering (asked : List (String × String)) (query context text : String) : Prop :=
  (∃ answer, Oracle.acceptRendering query answer = .ok text) ∨
    ∃ a ∈ asked, ∃ answer kept, Oracle.cacheKey query context = Oracle.cacheKey a.1 a.2 ∧
      Oracle.acceptRendering a.1 answer = .ok kept ∧
      text = String.ofList (Directory.readBreaks kept.toList)

/-- The sessions of which the store was produced. -/
def Stored (asked : List (String × String)) (s : Session) : Prop := Produced asked s.directory

variable {α : Type} {Q : α → Prop}

/-- Steps that leave the store alone keep it produced. -/
theorem stored_of_eq {s t : Session} (h : t.directory = s.directory) : Passes (Stored asked) s t := by
  intro hs
  unfold Stored
  rwa [h]

theorem stored_elapse (seconds : Json) : Keeps (Passes (Stored asked)) (elapse seconds) := by
  refine keeps_get_bind fun s => ?_
  cases Json.plus "+=" s.clock seconds with
  | error f => exact stored_of_eq rfl
  | ok clock => exact stored_of_eq rfl

theorem stored_pause (delay : Json) : Keeps (Passes (Stored asked)) (pause delay) := by
  refine Keeps.bind (keeps_modify ?_) fun _ => stored_elapse delay
  exact fun _ => stored_of_eq rfl

theorem stored_ask (prompt : String) : Keeps (Passes (Stored asked)) (ask prompt) := by
  refine Keeps.bind (keeps_modify fun _ => ?_) fun _ => keeps_get_bind fun s => ?_
  · exact stored_of_eq rfl
  split
  · exact stored_of_eq rfl
  · exact Std.Refl.refl s

theorem stored_consult (prompt : String) : Keeps (Passes (Stored asked)) (consult prompt) :=
  (keeps_get.bind fun _ => keeps_retry _ _ (stored_ask prompt) stored_pause).bind fun _ =>
    keeps_pure _

theorem ensures_tolerant {I : Session → Prop} {fallback : α} {steps : Action α} (h : Ensures I Q steps)
    (hfallback : Q fallback) : Ensures I Q (tolerant fallback steps) := by
  refine h.outcome.bind fun r hr => ?_
  cases r with
  | ok a => exact ensures_pure (hr a rfl)
  | error f =>
    dsimp only
    split
    · exact ensures_pure hfallback
    · exact ensures_throw f

theorem ensures_askRendering : Ensures (Stored asked)
    (fun text => ∃ answer, Oracle.acceptRendering query answer = .ok text)
    (askRendering query context) := by
  refine (stored_consult _).outcome.ensures.bind fun r _ => ?_
  cases r with
  | ok answer => exact ensures_ofExcept fun text h => ⟨answer, h⟩
  | error f => exact ensures_throw _

theorem ensures_readCache : Ensures (Stored asked)
    (fun found => ∀ text, found = some text → IsRendering asked query context text)
    (readCache (Oracle.cacheKey query context)) := by
  refine ensures_get.bind fun s hs => ?_
  have hread : Ensures (Stored asked) (fun found => ∀ text, found = some text →
      IsRendering asked query context text) (readStore (Store.cached? · (Oracle.cacheKey query context))) := by
    refine ensures_get.bind fun s hs => ensures_ofExcept fun found h text hfound => ?_
    subst hfound
    obtain ⟨q, c, answer, kept, hasked, hkey, haccepted, rfl⟩ := Produced.accepted hs h
    exact .inr ⟨(q, c), hasked, answer, kept, hkey, haccepted, rfl⟩
  split
  · exact (ensures_throw (Q := fun _ => True) _).bind fun _ _ => hread
  · exact hread

theorem stored_writeCache {answer text : String} (hasked : (query, context) ∈ asked)
    (h : Oracle.acceptRendering query answer = .ok text) :
    Keeps (Passes (Stored asked)) (writeCache (Oracle.cacheKey query context) text) := by
  have hwrite : Keeps (Passes (Stored asked))
      (writeStore (Store.putCached · (Oracle.cacheKey query context) text)) :=
    keeps_writeStore fun s d hput hs => .kept hs hasked h hput
  refine keeps_get.bind fun s => ?_
  split
  · exact (keeps_throw _).bind fun _ => hwrite
  · exact hwrite

/-- **A rendering is found or given, and the store stays one of renderings that were accepted.** -/
theorem ensures_render (hasked : (query, context) ∈ asked) :
    Ensures (Stored asked) (IsRendering asked query context) (render query context) := by
  refine (ensures_tolerant ensures_readCache (by rintro _ ⟨⟩)).bind fun found hfound => ?_
  cases found with
  | some text => exact ensures_pure (hfound text rfl)
  | none =>
    refine ensures_get.bind fun s _ => ?_
    have hask : Ensures (Stored asked) (IsRendering asked query context) (do
        let result ← askRendering query context
        tolerant () (writeCache (Oracle.cacheKey query context) result)
        return result) := by
      refine ensures_askRendering.bind fun text ⟨answer, h⟩ => ?_
      refine (ensures_tolerant (stored_writeCache hasked h).ensures trivial).bind fun _ _ => ?_
      exact ensures_pure (.inl ⟨answer, h⟩)
    dsimp only
    split
    · exact (ensures_throw (Q := fun _ => True) _).bind fun _ _ => hask
    · exact hask

/-- **A rendering keeps the parameters of its query**, whether the rules give it, the store or the oracle.
Excepted are parameters that the rules find a construct in, those with carriage returns, and queries with a
brace in the type of a cast that is converted. The keys of the queries that were asked must tell this one
from the others. -/
theorem placeholders_kept {s t : Session} {text : String} (hstore : Produced asked s.directory)
    (hkeys : ∀ a ∈ asked, Oracle.cacheKey a.1 a.2 = Oracle.cacheKey (Sql.toClickHouse query) context →
      a.1 = Sql.toClickHouse query)
    (hcasts : Sql.replaceCalls "cast" Sql.plainCast? query.toList = Sql.convertCasts query.toList)
    (hp : p ∈ Sql.placeholders query) (hinert : Sql.Inert p.toList) (hreturn : '\r' ∉ p.toList)
    (hrun : (renderText query context).run s = (.ok text, t)) : p ∈ Sql.placeholders text := by
  have hrules : p ∈ Sql.placeholders (Sql.toClickHouse query) :=
    Sql.mem_placeholders_toClickHouse hinert hcasts hp
  unfold renderText at hrun
  dsimp only at hrun
  split at hrun
  · cases hrun
    exact hrules
  generalize Sql.toClickHouse query = rest at *
  have hmore : Produced ((rest, context) :: asked) s.directory := hstore.mono (List.subset_cons_self ..)
  have hrender := (ensures_render (List.mem_cons_self ..) s hmore).2 text (by rw [hrun])
  rcases hrender with ⟨answer, h⟩ | ⟨a, ha, answer, kept, hkey, h, rfl⟩
  · exact mem_placeholders_of_accepted h hrules
  · have hsame : a.1 = rest := by
      rcases List.mem_cons.1 ha with rfl | ha
      · rfl
      · exact hkeys a ha hkey.symm
    rw [hsame] at h
    exact Sql.mem_placeholders_readBreaks hreturn (mem_placeholders_of_accepted h hrules)

/-- A query that the rules leave a construct in. -/
def formattedQuery : String := "SELECT to_char(\x7b\x7bn\x7d\x7d) FROM t"

/-- A rendering of it. -/
def shownQuery : String := "SELECT toString(\x7b\x7bn\x7d\x7d) FROM t"

/-- A session of which the store keeps that rendering. -/
def formattedSession : Session :=
  { (default : Session) with
    directory := ⟨[("translation_cache/409b25cc035c8ac6fddb9bc1c4be1f10e48bd1a706ef1892213bae6a9a698f93.txt",
      shownQuery)]⟩ }

theorem cacheKey_formattedQuery : Oracle.cacheKey formattedQuery "" =
    "409b25cc035c8ac6fddb9bc1c4be1f10e48bd1a706ef1892213bae6a9a698f93" := by
  decide +kernel

/-- The rendering that is found has the parameter. -/
theorem placeholders_kept_formattedQuery : Produced [(formattedQuery, "")] formattedSession.directory ∧
    "n" ∈ Sql.placeholders formattedQuery ∧ ∃ t,
      (renderText formattedQuery "").run formattedSession = (.ok shownQuery, t) ∧
        "n" ∈ Sql.placeholders shownQuery := by
  have hstore : Produced [(formattedQuery, "")] formattedSession.directory := by
    obtain ⟨d, hput, hfiles⟩ := exists_ok_of_toOption (f := Directory.files)
      (x := Store.putCached .empty (Oracle.cacheKey formattedQuery "") shownQuery)
      (b := formattedSession.directory.files) (by rw [cacheKey_formattedQuery]; decide +kernel)
    have hd : d = formattedSession.directory := congrArg Directory.mk hfiles
    exact hd ▸ .kept produced_empty (List.mem_singleton.2 rfl)
      (eq_ok_of_toOption (x := Oracle.acceptRendering formattedQuery shownQuery) (by decide +kernel)) hput
  have hrules : Sql.toClickHouse formattedQuery = formattedQuery := by decide +kernel
  have hrender : renderText formattedQuery "" = render formattedQuery "" := by
    unfold renderText
    rw [hrules]
    exact if_neg (by decide +kernel)
  have htext : ((renderText formattedQuery "").run formattedSession).1 = .ok shownQuery := by
    rw [hrender, render, cacheKey_formattedQuery]
    exact eq_ok_of_toOption (by decide +kernel)
  have hkeys : ∀ a ∈ [(formattedQuery, "")],
      Oracle.cacheKey a.1 a.2 = Oracle.cacheKey (Sql.toClickHouse formattedQuery) "" →
        a.1 = Sql.toClickHouse formattedQuery := by
    intro a ha _
    rw [hrules, List.mem_singleton.1 ha]
  have hparameter : "n" ∈ Sql.placeholders formattedQuery := by decide +kernel
  exact ⟨hstore, hparameter, _, Prod.ext htext rfl, placeholders_kept hstore hkeys (by decide +kernel)
    hparameter ⟨⟨by decide, by decide⟩, by decide⟩ (by decide) (Prod.ext htext rfl)⟩

/-- **A parameter can get lost:** the rules exchange `current_date` in braces too. -/
theorem currentDate_lost : Produced [] (default : Session).directory ∧
    "current_date" ∈ Sql.placeholders "SELECT \x7b\x7bcurrent_date\x7d\x7d" ∧
    (renderText "SELECT \x7b\x7bcurrent_date\x7d\x7d" "").run default =
      (.ok "SELECT \x7b\x7btoday()\x7d\x7d", default) ∧
    "current_date" ∉ Sql.placeholders "SELECT \x7b\x7btoday()\x7d\x7d" := by
  have hrules : Sql.toClickHouse "SELECT \x7b\x7bcurrent_date\x7d\x7d" =
      "SELECT \x7b\x7btoday()\x7d\x7d" := by decide +kernel
  refine ⟨produced_empty, by decide +kernel, ?_, by decide +kernel⟩
  rw [← hrules]
  exact run_renderText _ "" default (by decide +kernel)

end Session
end CardTransfer
