import CardTransfer.Proofs.Sql.QuotedName
import CardTransfer.Proofs.Sql.Rename

/-!
# The rules a second time

The rules that follow those of casts are eight passes over a text, four for calls and four for names. Each leaves
nothing for itself, and none brings anything for one before it (`keeps_passes`): what it writes is a series of
edits. So they do nothing the second time (`finish_finish`).

Casts come first, and a later pass can let one be converted that was not: blanks around an argument are dropped, also
a line end in the size of a type. Every conversion takes a colon or a letter of `cast` out of the text, and no rule
brings one in (`weight`); so all rules do nothing the second time exactly if no such cast is left
(`applyRules_applyRules_iff`).
-/

namespace CardTransfer
namespace Sql

open Text (breaksBefore lastOr isBlank isWord)

variable {x y inner text operand word : List Char} {function : String}
  {handler : List Char → Option (List Char)} {before : Option Char} {quoted : Bool}

/-! ### Passes -/

/-- A change of texts, and the texts in which it finds nothing to change. -/
structure Pass where
  run : List Char → List Char
  Settled : List Char → Prop

namespace Pass

/-- The replacement of the calls of a function. -/
def call (function : String) (handler : List Char → Option (List Char)) : Pass :=
  ⟨replaceCalls function handler, Exhausted function handler⟩

/-- The exchange of a name. -/
def name (rule : Text.Rule Unit) (text : String) : Pass := ⟨rename rule text, Free rule⟩

/-- A pass by edits, which finds nothing in what it has changed, nor in a settled text. -/
structure Sound (p : Pass) : Prop where
  edits : ∀ x, Edits none false x (p.run x)
  settles : ∀ x, p.Settled (p.run x)
  stays : ∀ x, p.Settled x → p.run x = x

/-- What is settled for one pass stays so under another. -/
def Keeps (p q : Pass) : Prop := ∀ x, Tame x → q.Settled x → q.Settled (p.run x)

end Pass

theorem Edits.tame (h : Edits before quoted x y) (hx : Tame x) : Tame y := by
  induction h with
  | refl => exact hx
  | tail _ hstep ih => exact hstep.tame ih

theorem Edits.exhausted (h : Edits none false x y) (hf : function ∈ dateCalls) (hsteady : Steady handler)
    (htame : Tame x) (hx : Exhausted function handler x) : Exhausted function handler y := by
  induction h with
  | refl => exact hx
  | tail hsteps hstep ih => exact hstep.exhausted hf hsteady (Edits.tame hsteps htame) ih

/-- Passes one after the other. -/
def runAll (passes : List Pass) (x : List Char) : List Char := passes.foldl (fun text p => p.run text) x

/-- **Passes that settle their own matter and keep that of those before them settle all.** -/
theorem settled_runAll {passes : List Pass} (hsound : ∀ p ∈ passes, p.Sound)
    (hkeeps : passes.Pairwise fun q p => p.Keeps q) (hx : Tame x) : ∀ p ∈ passes, p.Settled (runAll passes x) := by
  have hkept {q : Pass} {later : List Pass} (hsound : ∀ p ∈ later, p.Sound) (hkeeps : ∀ p ∈ later, p.Keeps q)
      {x : List Char} (hx : Tame x) (hq : q.Settled x) : q.Settled (runAll later x) := by
    induction later generalizing x with
    | nil => exact hq
    | cons p later ih =>
      rw [List.forall_mem_cons] at hsound hkeeps
      exact ih hsound.2 hkeeps.2 ((hsound.1.edits x).tame hx) (hkeeps.1 x hx hq)
  induction passes generalizing x with
  | nil => exact fun p hp => nomatch hp
  | cons p passes ih =>
    rw [List.forall_mem_cons] at hsound ⊢
    rw [List.pairwise_cons] at hkeeps
    have hx' := (hsound.1.edits x).tame hx
    exact ⟨hkept hsound.2 hkeeps.1 hx' (hsound.1.settles x), ih hsound.2 hkeeps.2 hx'⟩

theorem runAll_eq_self {passes : List Pass} (hsound : ∀ p ∈ passes, p.Sound) (h : ∀ p ∈ passes, p.Settled x) :
    runAll passes x = x := by
  induction passes with
  | nil => rfl
  | cons p passes ih =>
    rw [List.forall_mem_cons] at hsound h
    rw [runAll, List.foldl_cons, hsound.1.stays x h.1]
    exact ih hsound.2 h.2

/-- The functions whose calls are replaced, with what is written for them. -/
def handlers : List (String × (List Char → Option (List Char))) :=
  [("date_trunc", truncCall?), ("date_part", partCall?), ("extract", extractCall?), ("btrim", trimCall?)]

theorem handlers_facts : ∀ h ∈ handlers, h.1 ∈ dateCalls ∧ Rewrites h.2 ∧ Steady h.2 := by
  simp only [handlers, List.forall_mem_cons]
  exact ⟨⟨by simp [dateCalls], rewrites_truncCall?, steady_truncCall?⟩,
    ⟨by simp [dateCalls], rewrites_partCall?, steady_partCall?⟩,
    ⟨by simp [dateCalls], rewrites_extractCall?, steady_extractCall?⟩,
    ⟨by simp [dateCalls], rewrites_trimCall?, steady_trimCall?⟩, List.forall_mem_nil _⟩

/-- The passes that follow those of casts. -/
def passes : List Pass := handlers.map (fun h => .call h.1 h.2) ++ renames.map fun r => .name r.1 r.2

theorem finish_eq (x : List Char) : finish x = runAll passes x := rfl

theorem sound_passes : ∀ p ∈ passes, p.Sound := by
  simp only [passes, List.forall_mem_append, List.forall_mem_map]
  refine ⟨fun h hh => ?_, fun r hr => ?_⟩
  · obtain ⟨hf, hrewrites, -⟩ := handlers_facts h hh
    exact ⟨fun x => edits_replaceCallsFrom hf hrewrites, exhausted_replaceCalls hf hrewrites,
      fun x => Exhausted.replaceCalls_eq⟩
  · exact ⟨edits_rename hr, free_rename_self hr, fun x hfree => hfree.rename_eq (separated_renames r hr) _⟩

/-- **No pass brings anything for one before it.** -/
theorem keeps_passes : passes.Pairwise fun q p => p.Keeps q := by
  have hcall (p : Pass) (hp : p ∈ passes) (q : Pass) (hq : q ∈ handlers.map fun h => .call h.1 h.2) : p.Keeps q := by
    obtain ⟨h, hh, rfl⟩ := List.mem_map.1 hq
    obtain ⟨hf, -, hsteady⟩ := handlers_facts h hh
    exact fun x hx => ((sound_passes p hp).edits x).exhausted hf hsteady hx
  have hname (p q : Pass) (hp : p ∈ renames.map fun r => .name r.1 r.2) (hq : q ∈ renames.map fun r => .name r.1 r.2) :
      p.Keeps q := by
    obtain ⟨r, hr, rfl⟩ := List.mem_map.1 hp
    obtain ⟨r', hr', rfl⟩ := List.mem_map.1 hq
    exact fun x _ hfree => Free.rename hr hr' hfree
  unfold passes at hcall ⊢
  refine List.pairwise_append.2 ⟨List.pairwise_of_forall_mem_list fun q hq p hp => ?_,
    List.pairwise_of_forall_mem_list fun q hq p hp => hname p q hp hq, fun q hq p hp => ?_⟩
  · exact hcall p (List.mem_append_left _ hp) q hq
  · exact hcall p (List.mem_append_right _ hp) q hq

/-- **The rules that follow those of casts do nothing the second time.** -/
theorem finish_finish (hx : Tame x) : finish (finish x) = finish x :=
  runAll_eq_self sound_passes (settled_runAll sound_passes keeps_passes hx)

/-! ### What a conversion costs -/

/-- Colons, the letter c in both cases, and underscores: that of `date_part` pays for the c in `toSecond`. -/
def weighs (c : Char) : Bool := c == ':' || c == '_' || c.toLower == 'c'

/-- What a text weighs. -/
def weight (x : List Char) : Nat := x.countP weighs

theorem weight_append (x y : List Char) : weight (x ++ y) = weight x + weight y := List.countP_append

theorem weight_cons_of_light {c : Char} (h : weighs c = false) (x : List Char) : weight (c :: x) = weight x :=
  List.countP_cons_of_neg (by simp [h])

theorem weight_trim_le (x : List Char) : weight (Text.trim x) ≤ weight x := by
  obtain ⟨left, right, h, -⟩ := Text.exists_blanks x
  have hweight := congrArg weight h
  rw [weight_append, weight_append] at hweight
  omega

theorem weight_argument_le (l₁ l₂ : List (List Char)) (h : arguments inner = l₁ ++ operand :: l₂) :
    weight operand ≤ weight inner := by
  obtain ⟨left, piece, right, heq, rfl, -⟩ := exists_pieces_around l₁ l₂ h
  have hweight := congrArg weight heq
  have hcomma : weight [','] = 0 := by decide
  rw [weight_append, weight_append, weight_append, weight_append, hcomma] at hweight
  have htrim := weight_trim_le piece
  omega

/-- A word weighs in any case what it weighs in lower case. -/
theorem Folds.weight_le (h : Folds word x) (hword : ∀ l ∈ word, weighs l = true → l = 'c' ∨ l = '_') :
    weight word ≤ weight x := by
  induction h with
  | nil => exact Nat.le_refl _
  | @cons l c word x hfold _ ih =>
    rw [List.forall_mem_cons] at hword
    have hlater := ih hword.2
    have hhere : weighs l = true → weighs c = true := by
      intro hl
      rcases hword.1 hl with rfl | rfl
      · have hc : c = 'c' ∨ c.toLower = 'c' := by simpa [Text.foldsTo] using hfold
        rcases hc with rfl | hc <;> simp [weighs, *]
      · have hc : c = '_' ∨ c.toLower = '_' := by simpa [Text.foldsTo] using hfold
        rcases hc with rfl | hc
        · decide
        · -- only letters become others in lower case
          rcases Text.toLower_cases c with heq | hrange
          · rw [heq] at hc
            rw [hc]
            decide
          · rw [hc] at hrange
            exact absurd hrange.1 (by decide)
    unfold weight at hlater ⊢
    rw [List.countP_cons, List.countP_cons]
    split
    · rename_i hl
      rw [if_pos (hhere hl)]
      omega
    · omega

theorem weight_head_le {n : Nat} (hletters : ∀ l ∈ word, weighs l = true → l = 'c' ∨ l = '_')
    (h : callHead? word before x = some n) : weight word ≤ weight (x.take n) := by
  obtain ⟨-, name, gap, rest, rfl, rfl, hname, -⟩ := callHead?_eq_some_iff.1 h
  rw [Nat.add_assoc, List.take_length_add_append, weight_append]
  exact (hname.weight_le hletters).trans (Nat.le_add_right _ _)

/-- **Every call that is replaced costs** what the handler saves, and if none is the handler takes no argument
list. -/
theorem weight_replaceCallsFrom {k : Nat} (before : Option Char) (quoted : Bool) (x : List Char)
    (hletters : ∀ l ∈ word, weighs l = true → l = 'c' ∨ l = '_')
    (h : ∀ inner text, handler inner = some text → weight text + k ≤ weight word + weight inner) :
    weight (replaceCallsFrom word handler before quoted x) + k ≤ weight x ∨
      ∀ l ∈ argumentListsFrom word before quoted x, handler l = none := by
  have hle {before : Option Char} {quoted : Bool} {x : List Char}
      (h : weight (replaceCallsFrom word handler before quoted x) + k ≤ weight x ∨
        ∀ l ∈ argumentListsFrom word before quoted x, handler l = none) :
      weight (replaceCallsFrom word handler before quoted x) ≤ weight x := by
    rcases h with h | h
    · exact (Nat.le_add_right _ _).trans h
    · rw [replaceCallsFrom_eq_self h]
  fun_induction replaceCallsFrom word handler before quoted x with
  | case1 => simp [argumentListsFrom_nil]
  | case2 before quoted c rest hn ih =>
    simp only [dite_eq_ite] at ih
    rw [argumentListsFrom_cons_none hn]
    refine ih.imp_left fun hless => ?_
    unfold weight at hless ⊢
    rw [List.countP_cons, List.countP_cons]
    omega
  | case3 before c rest n hn head ih =>
    rw [argumentListsFrom_quoted hn]
    refine ih.imp_left fun hless => ?_
    have hsplit := congrArg weight (List.take_append_drop n (c :: rest))
    simp only [head]
    rw [weight_append] at hsplit ⊢
    omega
  | case4 before quoted c rest n hn hquoted hsplit =>
    obtain rfl : quoted = false := Bool.eq_false_iff.2 hquoted
    rw [argumentListsFrom_unquoted hn, hsplit]
    exact .inr (List.forall_mem_nil _)
  | case5 before quoted c rest n hn head hquoted inner after hsplit arguments ih₁ ih₂ =>
    obtain rfl : quoted = false := Bool.eq_false_iff.2 hquoted
    have hhead : weight word ≤ weight head := weight_head_le hletters hn
    have hwhole : weight (c :: rest) = weight head + (weight inner + weight after) := by
      rw [← List.take_append_drop n (c :: rest), weight_append, splitPartner_eq hsplit, weight_append,
        weight_cons_of_light (by decide)]
    have hinner : weight arguments ≤ weight inner := hle ih₁
    have hafter := hle ih₂
    cases htext : handler arguments with
    | some text =>
      have hcost := h _ _ htext
      rw [Option.getD_some, weight_append]
      exact .inl (by omega)
    | none =>
      have hclose : weight [')'] = 0 := by decide
      rw [Option.getD_none, weight_append, weight_append, weight_append, hclose]
      rcases ih₁ with hless | hinner
      · have hless : weight arguments + k ≤ weight inner := hless
        exact .inl (by omega)
      rcases ih₂ with hless | hlater
      · exact .inl (by omega)
      have hsame : arguments = inner := replaceCallsFrom_eq_self hinner
      rw [argumentListsFrom_unquoted hn, hsplit]
      dsimp only
      rw [List.cons_append, List.forall_mem_cons, List.forall_mem_append, ← hsame]
      exact .inr ⟨htext, hsame ▸ hinner, hlater⟩

theorem weight_replaceCalls_le (hletters : ∀ l ∈ function.toList, weighs l = true → l = 'c' ∨ l = '_')
    (h : ∀ inner text, handler inner = some text → weight text ≤ weight function.toList + weight inner)
    (x : List Char) : weight (replaceCalls function handler x) ≤ weight x := by
  rcases weight_replaceCallsFrom (k := 0) none false x hletters h with hle | hnone
  · exact hle
  · rw [replaceCalls, replaceCallsFrom_eq_self hnone]

theorem weight_callOf (function argument : List Char) :
    weight (callOf function argument) = weight function + weight argument := by
  have hclose : weight [')'] = 0 := by decide
  rw [callOf, weight_append, weight_append, weight_cons_of_light (by decide), hclose, Nat.add_zero]

/-! ### The rules -/

theorem weight_castCall? (h : castCall? inner = some text) : weight text + 1 ≤ weight "cast".toList + weight inner := by
  simp only [castCall?, Option.bind_eq_bind, Option.bind_eq_some_iff] at h
  obtain ⟨⟨operand, type⟩, hsplit, name, hname, h⟩ := h
  cases h
  obtain ⟨mid, heq, -⟩ := exists_splitAs hsplit
  have hweight := congrArg weight heq
  rw [List.reverse_nil, List.nil_append, weight_append] at hweight
  have hlight : ∀ f ∈ functions, weight f = 0 := by decide
  have hcast : weight "cast".toList = 1 := by decide
  have htrim := weight_trim_le operand
  rw [weight_callOf, hlight name (mem_functions hname), hcast]
  dsimp only
  omega

theorem weight_unitAndOperand?_le {unit : String} (h : unitAndOperand? inner = some (unit, operand)) :
    weight operand ≤ weight inner := by
  unfold unitAndOperand? at h
  split at h
  case h_2 => cases h
  rename_i quotedUnit _ harguments
  split at h
  case isFalse => cases h
  cases h
  exact weight_argument_le [quotedUnit] [] harguments

theorem weight_partFunctions_le {part name : String} (h : partFunctions.lookup part = some name) :
    weight name.toList ≤ 1 := by
  have hall : ∀ p ∈ partFunctions, weight p.2.toList ≤ 1 := by decide
  exact hall _ (mem_of_lookup h)

/-- No handler writes more than it takes. -/
theorem weight_handlers : ∀ h ∈ handlers, (∀ l ∈ h.1.toList, weighs l = true → l = 'c' ∨ l = '_') ∧
    ∀ inner text, h.2 inner = some text → weight text ≤ weight h.1.toList + weight inner := by
  simp only [handlers, List.forall_mem_cons]
  refine ⟨⟨by decide, fun inner text h => ?_⟩, ⟨by decide, fun inner text h => ?_⟩,
    ⟨by decide, fun inner text h => ?_⟩, ⟨by decide, fun inner text h => ?_⟩, List.forall_mem_nil _⟩
  · simp only [truncCall?, Option.bind_eq_bind, Option.bind_eq_some_iff] at h
    obtain ⟨⟨unit, operand⟩, hoperand, ⟨opening, closing⟩, hunit, h⟩ := h
    cases h
    have hlight : ∀ p ∈ unitStarts, weight p.2.1.toList = 0 ∧ weight p.2.2.toList = 0 := by decide
    obtain ⟨hopening, hclosing⟩ := hlight _ (mem_of_lookup hunit)
    have hle := weight_unitAndOperand?_le hoperand
    dsimp only at hopening hclosing ⊢
    rw [weight_append, weight_append, hopening, hclosing]
    omega
  · simp only [partCall?, Option.bind_eq_bind, Option.bind_eq_some_iff] at h
    obtain ⟨⟨unit, operand⟩, hoperand, name, hpart, h⟩ := h
    cases h
    have hword : weight "date_part".toList = 1 := by decide
    rw [weight_callOf, hword]
    exact Nat.add_le_add (weight_partFunctions_le hpart) (weight_unitAndOperand?_le hoperand)
  · simp only [extractCall?, Option.bind_eq_bind, Option.bind_eq_some_iff] at h
    obtain ⟨⟨part, operand⟩, hoperand, name, hpart, h⟩ := h
    cases h
    obtain ⟨start, gap, word, rfl, -⟩ := partFrom?_eq_some_iff.1 hoperand
    have hword : weight "extract".toList = 1 := by decide
    have htrim := weight_trim_le operand
    have hname := weight_partFunctions_le hpart
    simp only [weight_callOf, weight_append, hword]
    omega
  · unfold trimCall? at h
    split at h
    case h_2 => cases h
    rename_i operand harguments
    cases h
    have hname : weight "trimBoth".toList = 0 := by decide
    rw [weight_callOf, hname]
    exact Nat.add_le_add (Nat.zero_le _) (weight_argument_le [] [] harguments)

theorem Renaming.weight_le {odd : Bool} {r : Text.Rule Unit × String} (hr : r ∈ renames)
    (h : Renaming odd r before x y) : weight y ≤ weight x := by
  have hlight : ∀ r ∈ renames, weight r.2.toList = 0 := by
    simp only [renames, List.forall_mem_cons]
    exact ⟨by decide, by decide, by decide, by decide, List.forall_mem_nil _⟩
  induction h with
  | nil => exact Nat.le_refl _
  | stays _ _ ih =>
    unfold weight at ih ⊢
    rw [List.countP_cons, List.countP_cons]
    exact Nat.add_le_add_right ih _
  | exchanged _ _ _ ih =>
    rw [weight_append, weight_append, hlight r hr]
    exact Nat.add_le_add (Nat.zero_le _) ih

/-- **The rules that follow those of casts bring in nothing that weighs.** -/
theorem weight_finish_le (x : List Char) : weight (finish x) ≤ weight x := by
  have hpass : ∀ p ∈ passes, ∀ x, weight (p.run x) ≤ weight x := by
    simp only [passes, List.forall_mem_append, List.forall_mem_map]
    refine ⟨fun h hh x => ?_, fun r hr x => ?_⟩
    · obtain ⟨hletters, hcost⟩ := weight_handlers h hh
      exact weight_replaceCalls_le hletters hcost x
    · change weight (rename r.1 r.2 x) ≤ weight x
      rw [rename_eq (separated_renames r hr)]
      exact (renaming_replaceFrom hr _ none x).weight_le hr
  rw [finish_eq]
  generalize passes = list at hpass
  induction list generalizing x with
  | nil => exact Nat.le_refl _
  | cons p list ih =>
    rw [List.forall_mem_cons] at hpass
    exact (ih _ hpass.2).trans (hpass.1 x)

/-- **A conversion of a postfix cast costs its colons.** -/
theorem weight_convertPostfixFrom (left right : List Char) :
    weight (convertPostfixFrom left right) ≤ weight left + weight right ∧
      (nextCast? left right = none ∨ weight (convertPostfixFrom left right) < weight left + weight right) := by
  fun_induction convertPostfixFrom left right with
  | case1 left right h => exact ⟨by simp [weight], .inl h⟩
  | case2 left right earlier later h ih =>
    have hcost := countP_nextCast? (p := weighs) (by decide) (by decide) h
    have hle : weight earlier + weight later + 2 ≤ weight left + weight right := hcost
    exact ⟨by omega, .inr (by omega)⟩

/-- **The rules do nothing the second time** exactly if they leave no cast that they convert. -/
theorem applyRules_applyRules_iff {s : List Char} (h : Tame (convertPostfixCasts (convertCasts s))) :
    applyRules (applyRules s) = applyRules s ↔
      Exhausted "cast" castCall? (applyRules s) ∧ nextCast? [] (applyRules s) = none := by
  have hletters : ∀ l ∈ "cast".toList, weighs l = true → l = 'c' ∨ l = '_' := by decide
  constructor
  · intro hsame
    -- each conversion left would take weight that nothing brings back
    have hfinish := weight_finish_le (convertPostfixCasts (convertCasts (applyRules s)))
    rw [← applyRules_eq, hsame, convertPostfixCasts] at hfinish
    obtain ⟨hle, hnext⟩ := weight_convertPostfixFrom [] (convertCasts (applyRules s))
    have hnil : weight [] = 0 := rfl
    rw [hnil, Nat.zero_add] at hle hnext
    rcases weight_replaceCallsFrom none false (applyRules s) hletters fun _ _ => weight_castCall? with hless | hcasts
    · have hless : weight (convertCasts (applyRules s)) + 1 ≤ weight (applyRules s) := hless
      omega
    · have hcalls : convertCasts (applyRules s) = applyRules s := replaceCallsFrom_eq_self hcasts
      rw [hcalls] at hfinish hnext
      exact ⟨hcasts, hnext.resolve_right (by omega)⟩
  · rintro ⟨hcasts, hnext⟩
    have hcalls : convertCasts (applyRules s) = applyRules s := hcasts.replaceCalls_eq
    have hpostfix : convertPostfixCasts (applyRules s) = applyRules s := by
      rw [convertPostfixCasts, convertPostfixFrom_eq, hnext]
      rfl
    rw [applyRules_eq (applyRules s), hcalls, hpostfix, applyRules_eq, finish_finish h]

theorem applyRules_applyRules_iff_year :
    Tame (convertPostfixCasts (convertCasts "extract(year from current_date)::int".toList)) ∧
      (applyRules (applyRules "extract(year from current_date)::int".toList) =
          applyRules "extract(year from current_date)::int".toList ↔
        Exhausted "cast" castCall? (applyRules "extract(year from current_date)::int".toList) ∧
          nextCast? [] (applyRules "extract(year from current_date)::int".toList) = none) :=
  ⟨by decide +kernel, applyRules_applyRules_iff (by decide +kernel)⟩

/-- A line end hides what is in parentheses behind a type until it is trimmed. -/
theorem not_forall_applyRules_applyRules : ¬∀ s, applyRules (applyRules s) = applyRules s := fun h => by
  have hsame := h "cast(x as int(btrim(\ny)))".toList
  revert hsame
  decide +kernel

end Sql
end CardTransfer
