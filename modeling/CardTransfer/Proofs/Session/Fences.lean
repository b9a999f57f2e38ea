import CardTransfer.Proofs.Session.Kept

/-!
# Queries between code fences

The oracle gives a query as it is, as a block between two fences, or directly between them (`Framing`). Fences are taken
out together with the letters that follow them directly, which are meant to be the name of a language
(`stripFences_answer`). So a query without backticks is found whole, apart from blanks around it, exactly if these
letters are such a name and nothing else (`trim_rest_eq_iff`). Behind a fence on the line of a query they are its first
keyword, and what follows that can be accepted (`keyword_lost`).

What is accepted and kept as a rendering, and what is taken for a correction, is what is left of the answer, the whole
query or not (`given_query_whole_iff`).
-/

namespace CardTransfer

namespace Text

/-- Trimming takes nothing but blanks. -/
theorem countP_trim (cs : List Char) : (trim cs).countP (!isBlank ·) = cs.countP (!isBlank ·) := by
  obtain ⟨left, right, heq, hleft, hright⟩ := exists_blanks cs
  have hnone {x : List Char} (hx : ∀ c ∈ x, isBlank c = true) : x.countP (!isBlank ·) = 0 :=
    List.countP_eq_zero.2 fun c hc => by simp [hx c hc]
  conv_rhs => rw [heq]
  rw [List.countP_append, List.countP_append, hnone hleft, hnone hright, Nat.zero_add, Nat.add_zero]

/-- What stands before a text is seen behind trimming, unless it is blank. -/
theorem trim_append_ne {c : Char} (hc : isBlank c = false) (x y : List Char) : trim (c :: x ++ y) ≠ trim y := by
  intro heq
  have hcount := congrArg (List.countP (!isBlank ·)) heq
  rw [countP_trim, countP_trim, List.countP_append, List.countP_cons_of_pos (by rw [hc]; rfl)] at hcount
  omega

end Text

namespace Oracle

open Text (isBlank)

variable {query x y : List Char} {before : Option Char}

/-! ### Answers -/

/-- Three backticks. -/
def fence : List Char := ['\x60', '\x60', '\x60']

/-- How a query is framed in an answer. -/
inductive Framing where
  /-- As it is. -/
  | bare
  /-- Between two fences, of which the first stands on a line of its own, perhaps with the name of a language. -/
  | block (tag gap close : List Char) (htag : ∀ c ∈ tag, c ≠ '\x60' ∧ isBlank c = false)
    (hgap : gap ≠ [] ∧ ∀ c ∈ gap, isBlank c = true) (hclose : ∀ c ∈ close, isBlank c = true)
  /-- Directly between two fences. -/
  | inline

namespace Framing

/-- The answer. -/
def answer (query : List Char) : Framing → List Char
  | bare => query
  | block tag gap close .. => fence ++ (tag ++ gap ++ query ++ close) ++ fence
  | inline => fence ++ query ++ fence

/-- What is left of the answer when the fences are taken out, with the letters directly behind the first of them. -/
def rest (query : List Char) : Framing → List Char
  | bare => query
  | block tag gap close .. => (tag ++ gap ++ query ++ close).dropWhile Char.isAlpha
  | inline => query.dropWhile Char.isAlpha

/-- The letters behind the first fence are the name of a language and nothing else. -/
def Fits (query : List Char) : Framing → Prop
  | bare => True
  | block tag .. => ∀ c ∈ tag, c.isAlpha = true
  | inline => ∀ c, query.head? = some c → c.isAlpha = false

end Framing

/-! ### What is left of them -/

theorem isBlank_of_isAlpha {c : Char} (h : c.isAlpha = true) : isBlank c = false := by
  have hall : ∀ c ∈ Text.blanks, c.isAlpha = false := by decide +kernel
  by_contra hblank
  rw [hall c (Text.mem_blanks (by simpa using hblank))] at h
  cases h

theorem fenceRule_of_ne {c : Char} (hc : c ≠ '\x60') (cs : List Char) : fenceRule before (c :: cs) = none := by
  unfold fenceRule
  split
  · rename_i heq
    exact absurd (List.cons.inj heq).1 hc
  · rfl

theorem clear_fenceRule (hx : '\x60' ∉ x) : Text.Clear (Text.isMatch fenceRule) before x y := by
  induction x generalizing before with
  | nil => trivial
  | cons c x ih =>
    rw [List.mem_cons, not_or] at hx
    exact ⟨Text.isMatch_eq_false.2 (fenceRule_of_ne (Ne.symm hx.1) _), ih hx.2⟩

/-- Without backticks nothing is taken out. -/
theorem replaceFrom_fenceRule (hx : '\x60' ∉ x) :
    Text.replaceFrom fenceRule (fun _ => some []) 0 before (x ++ y) =
      x ++ Text.replaceFrom fenceRule (fun _ => some []) 0 (Text.lastOr before x) y :=
  Text.replaceFrom_append (clear_fenceRule hx)

/-- A fence takes the letters behind it along. -/
theorem replaceFrom_fence (hx : '\x60' ∉ x) (hy : ∀ c, y.head? = some c → c.isAlpha = false) :
    Text.replaceFrom fenceRule (fun _ => some []) 0 before (fence ++ x ++ y) = x.dropWhile Char.isAlpha ++
      Text.replaceFrom fenceRule (fun _ => some []) 0 (Text.lastOr before (fence ++ x)) y := by
  have hsplit := List.takeWhile_append_dropWhile (p := Char.isAlpha) (l := x)
  generalize hletters : x.takeWhile Char.isAlpha = letters at hsplit
  generalize hlater : x.dropWhile Char.isAlpha = later at hsplit ⊢
  have hhead : ∀ c, (later ++ y).head? = some c → c.isAlpha = false := by
    cases later with
    | nil => exact hy
    | cons d later =>
      rintro c ⟨⟩
      have hnot := List.head?_dropWhile_not Char.isAlpha x
      rwa [hlater] at hnot
  have htaken : (letters ++ (later ++ y)).takeWhile Char.isAlpha = letters :=
    Text.takeWhile_append_of_head (fun c hc => List.mem_takeWhile_imp (hletters ▸ hc)) hhead
  have hrule : fenceRule before (fence ++ letters ++ (later ++ y)) = some ((fence ++ letters).length, ()) := by
    have hlength : (fence ++ letters).length = 3 + letters.length := by
      rw [List.length_append]
      rfl
    rw [List.append_assoc, hlength]
    simp [fence, fenceRule, htaken]
  have hlast : '\x60' ∉ later := fun hmem => hx (hsplit ▸ List.mem_append_right _ hmem)
  have hall : fence ++ x ++ y = fence ++ letters ++ (later ++ y) := by simp [← hsplit]
  rw [hall, Text.replaceFrom_append_some hrule (by simp [fence]), replaceFrom_fenceRule hlast, ← Text.lastOr_append,
    List.append_assoc, hsplit]
  rfl

/-- **Of an answer is left what stands in it without the fences** and the letters behind the first of them. -/
theorem stripFences_answer (hquery : '\x60' ∉ query) (framing : Framing) :
    stripFences (String.ofList (framing.answer query)) = String.ofList (Text.trim (framing.rest query)) := by
  have hfenced {x : List Char} (hx : '\x60' ∉ x) :
      Text.replace fenceRule (fun _ => some []) (fence ++ x ++ fence) = x.dropWhile Char.isAlpha := by
    have hclose : Text.replaceFrom fenceRule (fun _ => some []) 0 (Text.lastOr none (fence ++ x)) fence = [] := rfl
    rw [Text.replace_eq, replaceFrom_fence hx (by rintro c ⟨⟩; rfl), hclose, List.append_nil]
  unfold stripFences
  rw [String.toList_ofList]
  cases framing with
  | bare =>
    have hrun : Text.replaceFrom fenceRule (fun _ => some []) 0 none (query ++ []) = query ++ [] :=
      replaceFrom_fenceRule hquery
    rw [List.append_nil] at hrun
    rw [Text.replace_eq, Framing.answer, hrun]
    rfl
  | block tag gap close htag hgap hclose =>
    have hblank {x : List Char} (hx : ∀ c ∈ x, isBlank c = true) : '\x60' ∉ x := fun hmem =>
      absurd (hx _ hmem) (by decide)
    have hbetween : '\x60' ∉ tag ++ gap ++ query ++ close := by
      simp only [List.mem_append, not_or]
      exact ⟨⟨⟨fun hmem => (htag _ hmem).1 rfl, hblank hgap.2⟩, hquery⟩, hblank hclose⟩
    rw [Framing.answer, hfenced hbetween]
    rfl
  | inline =>
    rw [Framing.answer, hfenced hquery]
    rfl

/-- **The whole query is left exactly if no letters but the name of a language follow the fence directly.** -/
theorem trim_rest_eq_iff (query : List Char) (framing : Framing) :
    Text.trim (framing.rest query) = Text.trim query ↔ framing.Fits query := by
  cases framing with
  | bare => exact iff_of_true rfl trivial
  | block tag gap close htag hgap hclose =>
    obtain ⟨g, gap, rfl⟩ := List.exists_cons_of_ne_nil hgap.1
    have hg : g.isAlpha = false := by
      by_contra hletter
      have hblank := hgap.2 g (List.mem_cons_self ..)
      rw [isBlank_of_isAlpha (by simpa using hletter)] at hblank
      cases hblank
    have htrim : Text.trim (g :: gap ++ query ++ close) = Text.trim query :=
      Text.trim_append_blanks hgap.2 hclose
    have hsplit : tag ++ g :: gap ++ query ++ close = tag ++ (g :: gap ++ query ++ close) := by simp
    unfold Framing.rest Framing.Fits
    dsimp only
    rw [hsplit]
    constructor
    · intro heq c hc
      by_contra hletter
      obtain ⟨d, left, hleft⟩ := List.exists_cons_of_ne_nil
        fun hnil : tag.dropWhile Char.isAlpha = [] => hletter (List.dropWhile_eq_nil_iff.1 hnil c hc)
      have hd : d ∈ tag := (List.dropWhile_sublist _).subset (hleft ▸ List.mem_cons_self ..)
      rw [List.dropWhile_append, hleft, ← htrim] at heq
      exact Text.trim_append_ne (htag d hd).2 left _ heq
    · intro hletters
      rw [List.dropWhile_append_of_pos hletters, List.cons_append, List.cons_append,
        List.dropWhile_cons_of_neg (by rw [hg]; exact Bool.false_ne_true)]
      exact htrim
  | inline =>
    unfold Framing.rest Framing.Fits
    dsimp only
    cases query with
    | nil => simp
    | cons c query =>
      by_cases hc : c.isAlpha = true
      · -- the first word of the query goes with the fence
        have hsplit : c :: query = c :: query.takeWhile Char.isAlpha ++ query.dropWhile Char.isAlpha := by
          rw [List.cons_append, List.takeWhile_append_dropWhile]
        have hne := Text.trim_append_ne (isBlank_of_isAlpha hc) (query.takeWhile Char.isAlpha)
          (query.dropWhile Char.isAlpha)
        rw [← hsplit] at hne
        rw [List.dropWhile_cons_of_pos hc]
        exact iff_of_false (Ne.symm hne) fun hfits => by simp [hfits c rfl] at hc
      · rw [List.dropWhile_cons_of_neg hc]
        refine iff_of_true rfl ?_
        rintro d ⟨⟩
        simpa using hc

/-- **A keyword directly behind a fence is lost,** and what is left can be accepted. -/
theorem keyword_lost : '\x60' ∉ "SELECT 1".toList ∧
    stripFences (String.ofList (Framing.inline.answer "SELECT 1".toList)) = "1" ∧
    acceptRendering "SELECT 1" (String.ofList (Framing.inline.answer "SELECT 1".toList)) = .ok "1" ∧
    Text.strip "SELECT 1" ≠ "1" :=
  ⟨by decide, by decide +kernel, eq_ok_of_toOption (by decide +kernel), by decide +kernel⟩

end Oracle

namespace Session

open Steps (Ensures ensures_pure ensures_throw)

variable {s : Session} {query source current error context fixed : String} {script : List Oracle.Answer}

/-- What a correction is given for is in the script. -/
theorem ensures_correct : Ensures (Scripted script)
    (fun found => ∀ fixed, found = some fixed → ∃ answer, .text answer ∈ script ∧
      Oracle.acceptCorrection? current answer = some fixed) (correct source current error context) := by
  refine Steps.ensures_get.bind fun s _ => ?_
  split
  · exact ensures_pure (by simp)
  refine (ensures_consult _).outcome.bind fun r hr => ?_
  cases r with
  | ok answer =>
    refine ensures_pure fun fixed hfixed => ⟨answer, ?_, hfixed⟩
    rcases hr answer rfl with rfl | hanswer
    · -- an empty answer corrects nothing
      cases hfixed
    · exact hanswer
  | error f =>
    dsimp only
    split
    · exact ensures_pure (by simp)
    · exact ensures_throw f

theorem eq_of_acceptCorrection? {answer : String} (h : Oracle.acceptCorrection? current answer = some fixed) :
    fixed = Oracle.stripFences answer := by
  unfold Oracle.acceptCorrection? at h
  dsimp only at h
  split_ifs at h
  exact (Option.some.inj h).symm

/-- **What is accepted and kept, and what is taken for a correction, is the whole query** that the oracle framed
in its answer, exactly if no letters but the name of a language follow the fence directly. -/
theorem given_query_whole_iff (hquery : '\x60' ∉ query.toList) (framing : Oracle.Framing)
    (hanswers : ∀ a, .text a ∈ s.oracle.getD [] → a = String.ofList (framing.answer query.toList)) :
    (Oracle.stripFences (String.ofList (framing.answer query.toList)) = Text.strip query ↔
      framing.Fits query.toList) ∧
    (∀ source context text t, Works s (Oracle.cacheKey source context) →
      Store.cached? s.directory (Oracle.cacheKey source context) = .ok none →
      (render source context).run s = (.ok text, t) →
        Store.putCached s.directory (Oracle.cacheKey source context) text = .ok t.directory ∧
          (text = Text.strip query ↔ framing.Fits query.toList)) ∧
    ∀ source current error context fixed t,
      (correct source current error context).run s = (.ok (some fixed), t) →
        (fixed = Text.strip query ↔ framing.Fits query.toList) := by
  have hstrip : Oracle.stripFences (String.ofList (framing.answer query.toList)) = Text.strip query ↔
      framing.Fits query.toList := by
    rw [Oracle.stripFences_answer hquery, Text.strip, String.ofList_inj]
    exact Oracle.trim_rest_eq_iff ..
  refine ⟨hstrip, ?_, ?_⟩
  · intro source context text t hworks hnone hrun
    have hrenders := renders_render hworks
    rw [hrun] at hrenders
    cases hrenders with
    | found hfound =>
      rw [hnone] at hfound
      cases hfound
    | given _ hasked hanswer haccepted hput =>
      cases hanswers _ hanswer
      obtain ⟨rfl, -⟩ := Oracle.acceptRendering_eq_ok.1 haccepted
      exact ⟨hput, hstrip⟩
  · intro source current error context fixed t hrun
    have hcorrect : Ensures (Scripted (s.oracle.getD [])) _ (correct source current error context) := ensures_correct
    obtain ⟨answer, hanswer, hfixed⟩ := (hcorrect s (List.suffix_refl _)).2 (some fixed) (by rw [hrun]) fixed rfl
    cases hanswers answer hanswer
    rw [eq_of_acceptCorrection? hfixed]
    exact hstrip

/-- A session of which the oracle gives a rendering directly between two fences. -/
def fencedSession : Session :=
  { (default : Session) with oracle := some [.text (String.ofList (Oracle.Framing.inline.answer shownQuery.toList))] }

/-- The rendering is accepted and kept without its first keyword, and so is it taken for a correction. -/
theorem given_query_whole_iff_inline :
    (∃ t, (render formattedQuery "").run fencedSession = (.ok "toString(\x7b\x7bn\x7d\x7d) FROM t", t) ∧
      Store.putCached .empty (Oracle.cacheKey formattedQuery "") "toString(\x7b\x7bn\x7d\x7d) FROM t" =
        .ok t.directory) ∧
    (∃ t, (correct formattedQuery formattedQuery "" "").run fencedSession =
      (.ok (some "toString(\x7b\x7bn\x7d\x7d) FROM t"), t)) ∧
    Text.strip shownQuery ≠ "toString(\x7b\x7bn\x7d\x7d) FROM t" := by
  have hanswers : ∀ a, .text a ∈ fencedSession.oracle.getD [] →
      a = String.ofList (Oracle.Framing.inline.answer shownQuery.toList) := by
    intro a ha
    cases List.mem_singleton.1 ha
    rfl
  obtain ⟨-, hrender, hcorrect⟩ := given_query_whole_iff (by decide) Oracle.Framing.inline hanswers
  have hfits : ¬Oracle.Framing.inline.Fits shownQuery.toList := fun h => absurd (h 'S' (by decide)) (by decide)
  have hrun : ((render formattedQuery "").run fencedSession).1 = .ok "toString(\x7b\x7bn\x7d\x7d) FROM t" := by
    rw [render, cacheKey_formattedQuery]
    exact eq_ok_of_toOption (by decide +kernel)
  have hworks : Works fencedSession (Oracle.cacheKey formattedQuery "") := works_of_empty rfl rfl rfl _ _
  have hnone : Store.cached? fencedSession.directory (Oracle.cacheKey formattedQuery "") = .ok none := by
    rw [hworks.takes.cached?]
    rfl
  obtain ⟨hput, -⟩ := hrender formattedQuery "" _ _ hworks hnone (Prod.ext hrun rfl)
  have hfixed : ((correct formattedQuery formattedQuery "" "").run fencedSession).1 =
      .ok (some "toString(\x7b\x7bn\x7d\x7d) FROM t") := eq_ok_of_toOption (by decide +kernel)
  have hwhole := hcorrect formattedQuery formattedQuery "" "" _ _ (Prod.ext hfixed rfl)
  exact ⟨⟨_, Prod.ext hrun rfl, hput⟩, ⟨_, Prod.ext hfixed rfl⟩, fun heq => hfits (hwhole.1 heq.symm)⟩

end Session
end CardTransfer
