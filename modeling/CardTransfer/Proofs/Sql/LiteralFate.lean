import CardTransfer.Proofs.Sql.Nested
import CardTransfer.Proofs.Sql.Separation
import CardTransfer.Proofs.Sql.Spacing

/-!
# What becomes of literals in calls

Where calls are replaced, a literal is lost only with the part of an argument list that its handler drops: the
unit of `date_trunc` and `date_part`, the type of a `CAST`. `callFates` tells for each literal of a text whether
it is left. It reads the calls of a text as their replacement does, from the inside out, and what a handler
leaves of its argument list is given by the parts of the list (`Spares`).

The literals of the replaced text are those that are left, character for character and in order
(`literals_replaceCalls`). The quotes up to the head of a call are even in number, and so are those of its
argument list, so that no literal reaches over either end of a call.
-/

namespace CardTransfer
namespace Sql

open Text (isBlank isWord)

variable {cs x y z run inner text operand word : List Char} {before : Option Char} {quoted : Bool}
  {handler : List Char → Option (List Char)} {parts : List Char → List (List Char × Bool)}

/-! ### Fates -/

/-- The literals of a text in order, each with whether it is left. -/
abbrev Fates := List (List Char × Bool)

namespace Fates

/-- All literals of a text have the same fate. -/
def all (left : Bool) (cs : List Char) : Fates := (literals cs).map (·, left)

/-- The literals of which a fate is told. -/
def told (f : Fates) : List (List Char) := f.map (·.1)

/-- The literals that are left. -/
def left (f : Fates) : List (List Char) := (f.filter (·.2)).map (·.1)

/-- The fates of the literals of a list of parts. -/
def ofParts (parts : List (List Char × Bool)) : Fates := parts.flatMap fun p => all p.2 p.1

/-- The fates in two steps, `second` being those of the literals that the first step leaves. -/
def andThen : (first second : Fates) → Fates
  | [], _ => []
  | (l, false) :: first, second => (l, false) :: andThen first second
  | (l, true) :: first, [] => (l, true) :: andThen first []
  | (l, true) :: first, (_, left) :: second => (l, left) :: andThen first second

variable {f g : Fates}

@[simp] theorem told_append (f g : Fates) : told (f ++ g) = told f ++ told g := List.map_append

@[simp] theorem left_append (f g : Fates) : left (f ++ g) = left f ++ left g := by
  simp [left, List.filter_append]

@[simp] theorem told_all (b : Bool) (cs : List Char) : told (all b cs) = literals cs := by
  simp [told, all, Function.comp_def]

@[simp] theorem left_all_true (cs : List Char) : left (all true cs) = literals cs := by
  simp [left, all, List.filter_map, Function.comp_def]

@[simp] theorem left_all_false (cs : List Char) : left (all false cs) = [] := by
  simp [left, all, List.filter_map, Function.comp_def]

theorem told_andThen (f g : Fates) : told (f.andThen g) = told f := by
  fun_induction andThen f g with
  | case1 => rfl
  | case2 l first second ih => exact congrArg (l :: ·) ih
  | case3 l first ih => exact congrArg (l :: ·) ih
  | case4 l first _ b second ih => exact congrArg (l :: ·) ih

/-- What is left after both steps is what the second leaves. -/
theorem left_andThen (h : told g = left f) : left (f.andThen g) = left g := by
  fun_induction andThen f g with
  | case1 g =>
    cases g with
    | nil => rfl
    | cons => cases h
  | case2 l first second ih => exact ih h
  | case3 => cases h
  | case4 l first l' b second ih =>
    obtain ⟨rfl, hlater⟩ := List.cons.inj h
    cases b with
    | false => exact ih hlater
    | true => exact congrArg (l' :: ·) (ih hlater)

theorem mem_all {p : List Char × Bool} {b : Bool} (h : p ∈ all b cs) : p.2 = b := by
  obtain ⟨l, -, rfl⟩ := List.mem_map.1 h
  rfl

theorem left_eq_told (h : ∀ p ∈ f, p.2 = true) : left f = told f := by
  rw [left, List.filter_eq_self.2 h, told]

/-- Where each step leaves all literals, both together do. -/
theorem whole_andThen (hf : ∀ p ∈ f, p.2 = true) (hg : ∀ p ∈ g, p.2 = true) : ∀ p ∈ f.andThen g, p.2 = true := by
  fun_induction andThen f g with
  | case1 => exact List.forall_mem_nil _
  | case2 => exact absurd (hf _ (List.mem_cons_self ..)) Bool.false_ne_true
  | case3 l first ih =>
    exact List.forall_mem_cons.2 ⟨rfl, ih (List.forall_mem_cons.1 hf).2 hg⟩
  | case4 l first _ b second ih =>
    rw [List.forall_mem_cons] at hf hg
    exact List.forall_mem_cons.2 ⟨hg.1, ih hf.2 hg.2⟩

end Fates

/-! ### Handlers -/

/-- A text that has something other than a quote at both ends. -/
structure Fenced (x : List Char) : Prop where
  nonempty : x ≠ []
  head : x.head? ≠ some '\''
  last : x.getLast? ≠ some '\''

/-- A handler leaves of an argument list the literals of the parts that are marked, and what it writes stands
apart from what is around the call. -/
structure Spares (handler : List Char → Option (List Char)) (parts : List Char → List (List Char × Bool)) :
    Prop where
  closed : ∀ inner text, handler inner = some text → Closed nothing inner → Closed nothing text
  spared : ∀ inner text, handler inner = some text → Closed nothing inner → Fenced text ∧
    (Fates.ofParts (parts inner)).told = literals inner ∧ (Fates.ofParts (parts inner)).left = literals text

/-- The fates of the literals of a text in which the calls of a function are replaced. `before` is the character
before the text, `quoted` says whether it starts inside quotes; `run` is what has been read of a stretch without
calls, last character first. -/
def callFatesFrom (word : List Char) (handler : List Char → Option (List Char))
    (parts : List Char → List (List Char × Bool)) (before : Option Char) (quoted : Bool) (run cs : List Char) :
    Fates :=
  match cs with
  | [] => Fates.all true run.reverse
  | c :: rest =>
    match _hn : callHead? word before (c :: rest) with
    | none =>
      callFatesFrom word handler parts (some c) (if c == '\'' then !quoted else quoted) (c :: run) rest
    | some n =>
      if quoted then
        callFatesFrom word handler parts (some '(') quoted (((c :: rest).take n).reverse ++ run)
          ((c :: rest).drop n)
      else
        match _hs : splitClosing ((c :: rest).drop n) with
        | none => Fates.all true (run.reverse ++ c :: rest)
        | some (inner, after) =>
          let arguments := replaceCallsFrom word handler none false inner
          let fates := callFatesFrom word handler parts none false [] inner
          let call :=
            if (handler arguments).isSome then fates.andThen (.ofParts (parts arguments)) else fates
          Fates.all true run.reverse ++ call ++ callFatesFrom word handler parts (some ')') false [] after
termination_by cs.length
decreasing_by
  · simp
  · have := callHead?_pos _hn
    simp only [List.length_drop, List.length_cons]
    omega
  · have := callHead?_pos _hn
    have := length_splitClosing _hs
    simp only [List.length_drop, List.length_cons] at this ⊢
    omega
  · have := callHead?_pos _hn
    have := length_splitClosing _hs
    simp only [List.length_drop, List.length_cons] at this ⊢
    omega

/-- The fates of the literals of a text in which the calls of a function are replaced. -/
def callFates (name : String) (handler : List Char → Option (List Char))
    (parts : List Char → List (List Char × Bool)) (cs : List Char) : Fates :=
  callFatesFrom name.toList handler parts none false [] cs

/-! ### Literals of a text in pieces -/

theorem literals_of_quoteless (h : '\'' ∉ x) : literals x = [] := by
  simp [literals, scan_of_quoteless h]

/-- Blanks around a text hold no literal. -/
theorem literals_trim (heven : oddQuotes cs = false) : literals (Text.trim cs) = literals cs := by
  rw [literals_eq, visible_trim heven, ← literals_eq]

/-- No literal reaches into a text between whose ends there are others. -/
theorem Fenced.literals_append (h : Fenced x) (hx : oddQuotes x = false) (hrun : oddQuotes y = false)
    (z : List Char) : literals (y ++ (x ++ z)) = literals y ++ (literals x ++ literals z) := by
  have hhead : (x ++ z).head? ≠ some '\'' := by
    rw [List.head?_append_of_ne_nil _ h.nonempty]
    exact h.head
  rw [Sql.literals_append hrun (.inr hhead), Sql.literals_append hx (.inl h.last)]

/-- A text without quotes between others holds no literal, unless it is empty. -/
theorem literals_quoteless (hx : '\'' ∉ x) (hne : x ≠ []) (hy : oddQuotes y = false) (z : List Char) :
    literals (y ++ (x ++ z)) = literals y ++ literals z := by
  have hfenced : Fenced x := ⟨hne, fun h => hx (List.mem_of_head? h), fun h => hx (List.mem_of_getLast? h)⟩
  rw [hfenced.literals_append (oddQuotes_of_quoteless hx) hy, literals_of_quoteless hx, List.nil_append]

/-- A text without quotes in front of another holds no literal. -/
theorem literals_quoteless_append (hx : '\'' ∉ x) (z : List Char) : literals (x ++ z) = literals z := by
  rw [literals_append (oddQuotes_of_quoteless hx) (.inl fun h => hx (List.mem_of_getLast? h)),
    literals_of_quoteless hx, List.nil_append]

/-! ### Calls -/

theorem exists_nesting_nothing (x : List Char) (depth : Nat) (quoted : Bool) : ∃ s,
    nesting nothing (depth + x.length) quoted x = some s := by
  induction x generalizing depth quoted with
  | nil => exact ⟨_, rfl⟩
  | cons c x ih =>
    have hlength : depth + (c :: x).length = depth + 1 + x.length := by
      rw [List.length_cons]
      omega
    rw [hlength]
    unfold nesting
    split_ifs with hbad hquote hquoted hopen hclose hdepth
    · cases hbad
    · exact ih _ _
    · exact ih _ _
    · rw [show depth + 1 + x.length + 1 = depth + 2 + x.length by omega]
      exact ih _ _
    · omega
    · rw [show depth + 1 + x.length - 1 = depth + x.length by omega]
      exact ih _ _
    · exact ih _ _

/-- An argument list is closed, whatever stands around the call. -/
theorem closed_of_splitClosing (h : splitClosing x = some (inner, z)) : Closed nothing inner := by
  obtain ⟨s, hs⟩ := exists_nesting_nothing x 1 false
  have hs' : nesting nothing (x.length + 0 + 1) false x = some s := by
    rw [← hs]
    congr 1
    omega
  exact (nesting_of_splitPartner h hs').1

theorem replaceCallsFrom_unclosed {n : Nat} (h : callHead? word before x = some n)
    (hsplit : splitClosing (x.drop n) = none) : replaceCallsFrom word handler before false x = x := by
  obtain ⟨c, rest, rfl⟩ := exists_cons_of_callHead? h
  rw [replaceCallsFrom]
  split
  · rename_i hn
    rw [h] at hn
    cases hn
  · rename_i hn
    rw [h] at hn
    cases hn
    simp only [Bool.false_eq_true, ↓reduceIte]
    split
    · rfl
    · rename_i hs
      rw [hsplit] at hs
      cases hs

/-- The head of a call holds no quote. -/
theorem exists_callHead? {n : Nat} (hword : ∀ l ∈ word, isWord l = true)
    (h : callHead? word before x = some n) : ∃ head tail, x = head ++ tail ∧ n = head.length ∧ head ≠ [] ∧
      '\'' ∉ head := by
  obtain ⟨head, rest, rfl, rfl, hchars⟩ := exists_head hword h
  refine ⟨head ++ ['('], rest, List.append_cons .., by simp, by simp, fun hmem => ?_⟩
  rcases List.mem_append.1 hmem with hmem | hmem
  · exact absurd (List.mem_cons_self ..)
      ((hchars _ hmem).elim still_of_isWord still_of_isBlank)
  · cases List.mem_singleton.1 hmem

/-- What is written around a text keeps its literals and stands apart from what is around it. -/
theorem literals_around {head close : List Char} (hhead : head ≠ [] ∧ '\'' ∉ head)
    (hclose : close ≠ [] ∧ '\'' ∉ close) (heven : oddQuotes inner = false) :
    Fenced (head ++ inner ++ close) ∧ oddQuotes (head ++ inner ++ close) = false ∧
      literals (head ++ inner ++ close) = literals inner := by
  refine ⟨⟨List.append_ne_nil_of_right_ne_nil _ hclose.1, ?_, ?_⟩, ?_, ?_⟩
  · rw [List.append_assoc, List.head?_append_of_ne_nil _ hhead.1]
    exact fun h => hhead.2 (List.mem_of_head? h)
  · rw [List.getLast?_append_of_ne_nil _ hclose.1]
    exact fun h => hclose.2 (List.mem_of_getLast? h)
  · rw [oddQuotes_append, oddQuotes_append, oddQuotes_of_quoteless hhead.2, heven, oddQuotes_of_quoteless hclose.2]
    rfl
  · rw [List.append_assoc, literals_quoteless_append hhead.2,
      literals_append heven (.inr fun h => hclose.2 (List.mem_of_head? h)), literals_of_quoteless hclose.2,
      List.append_nil]

theorem isClose : [')'] ≠ [] ∧ '\'' ∉ [')'] := by decide

/-- **One call,** given what is left in its argument list. -/
theorem literals_call {head arguments : List Char} {fates : Fates} (hspares : Spares handler parts)
    (hhead : head ≠ [] ∧ '\'' ∉ head) (hclosed : Closed nothing arguments)
    (hleft : literals arguments = fates.left) :
    let text := (handler arguments).getD (head ++ arguments ++ [')'])
    let call := if (handler arguments).isSome then fates.andThen (.ofParts (parts arguments)) else fates
    Fenced text ∧ oddQuotes text = false ∧ call.told = fates.told ∧ literals text = call.left := by
  cases hr : handler arguments with
  | some text =>
    obtain ⟨hfenced, htold, hkept⟩ := hspares.spared _ _ hr hclosed
    refine ⟨hfenced, (hspares.closed _ _ hr hclosed).even, Fates.told_andThen .., ?_⟩
    exact hkept.symm.trans (Fates.left_andThen (htold.trans hleft)).symm
  | none =>
    obtain ⟨hfenced, heven, hliterals⟩ := literals_around hhead isClose hclosed.even
    exact ⟨hfenced, heven, rfl, hliterals.trans hleft⟩

/-- **What is left of the literals when calls are replaced,** from a place on. -/
theorem literals_replaceCallsFrom (hword : ∀ l ∈ word, isWord l = true) (hspares : Spares handler parts)
    (hrun : oddQuotes run = quoted) (heven : oddQuotes (run.reverse ++ cs) = false) :
    (callFatesFrom word handler parts before quoted run cs).told = literals (run.reverse ++ cs) ∧
      literals (run.reverse ++ replaceCallsFrom word handler before quoted cs) =
        (callFatesFrom word handler parts before quoted run cs).left ∧
      oddQuotes (run.reverse ++ replaceCallsFrom word handler before quoted cs) = false := by
  fun_induction callFatesFrom word handler parts before quoted run cs with
  | case1 before quoted run =>
    rw [List.append_nil] at heven ⊢
    rw [replaceCallsFrom, List.append_nil]
    exact ⟨Fates.told_all .., (Fates.left_all_true _).symm, heven⟩
  | case2 before quoted run c rest hn ih =>
    simp only [dite_eq_ite] at ih
    have hread (v : List Char) : run.reverse ++ c :: v = (c :: run).reverse ++ v := by simp
    rw [replaceCallsFrom_cons_none hn, hread, hread]
    rw [hread] at heven
    refine ih ?_ heven
    rw [oddQuotes_cons, hrun]
    split <;> rename_i hquote <;> simp [hquote]
  | case3 before run c rest n hn ih =>
    obtain ⟨head, tail, hcs, rfl, -, hquoteless⟩ := exists_callHead? hword hn
    have hread (v : List Char) : run.reverse ++ (head ++ v) = (head.reverse ++ run).reverse ++ v := by simp
    rw [replaceCallsFrom_quoted hn]
    rw [hcs] at heven ih ⊢
    rw [List.take_left, List.drop_left] at ih ⊢
    rw [hread] at heven
    rw [hread, hread]
    refine ih ?_ heven
    rw [oddQuotes_append, hrun, oddQuotes_of_quoteless (by simpa using hquoteless)]
    rfl
  | case4 before quoted run c rest n hn hquoted hsplit =>
    obtain rfl : quoted = false := Bool.eq_false_iff.2 hquoted
    rw [replaceCallsFrom_unclosed hn hsplit]
    exact ⟨Fates.told_all .., (Fates.left_all_true _).symm, heven⟩
  | case5 before quoted run c rest n hn hquoted inner after hsplit arguments fates call ih₁ ih₂ =>
    obtain rfl : quoted = false := Bool.eq_false_iff.2 hquoted
    have hinner : Closed nothing inner := closed_of_splitClosing hsplit
    have hclosed : Closed nothing arguments := nesting_replaceCallsFrom hword hspares.closed hinner
    obtain ⟨head, tail, hcs, rfl, hhead⟩ := exists_callHead? hword hn
    obtain ⟨htold, hleft, -⟩ := ih₁ rfl hinner.even
    have hfound := hsplit
    rw [hcs, List.drop_left] at hsplit
    obtain ⟨hfenced, htext, hcall, hkept⟩ := literals_call hspares hhead hclosed hleft
    have hrun' : oddQuotes run.reverse = false := by rwa [oddQuotes, List.count_reverse]
    obtain ⟨hsource, heven', hliterals⟩ := literals_around hhead isClose hinner.even
    have hcall' : run.reverse ++ c :: rest = run.reverse ++ ((head ++ inner ++ [')']) ++ after) := by
      rw [hcs, splitPartner_eq hsplit]
      simp
    have hafter : oddQuotes after = false := by
      rw [hcall', oddQuotes_append, oddQuotes_append, hrun', heven'] at heven
      simpa using heven
    obtain ⟨htold', hleft', hlater⟩ := ih₂ rfl hafter
    rw [List.reverse_nil, List.nil_append] at htold' hleft' hlater
    have hreplaced : replaceCallsFrom word handler before false (c :: rest) =
        (handler arguments).getD (head ++ arguments ++ [')']) ++
          replaceCallsFrom word handler (some ')') false after := by
      rw [replaceCallsFrom_call hn hfound, hcs, List.take_left]
    rw [hcall', hreplaced, hsource.literals_append heven' hrun', hfenced.literals_append htext hrun',
      oddQuotes_append, oddQuotes_append, Fates.told_append, Fates.told_append, Fates.left_append,
      Fates.left_append, Fates.told_all, Fates.left_all_true, hliterals, hkept, htold', hleft', hrun', htext, hlater]
    have hcallTold : call.told = literals inner := by
      simp only [call, dite_eq_ite]
      exact hcall.trans htold
    rw [hcallTold, List.append_assoc, List.append_assoc]
    exact ⟨rfl, rfl, rfl⟩

/-- **The literals of a text in which calls are replaced** are those that are left, in order. -/
theorem literals_replaceCalls (name : String) (hword : ∀ l ∈ name.toList, isWord l = true)
    (hspares : Spares handler parts) (heven : oddQuotes cs = false) :
    (callFates name handler parts cs).told = literals cs ∧
      literals (replaceCalls name handler cs) = (callFates name handler parts cs).left ∧
      oddQuotes (replaceCalls name handler cs) = false :=
  literals_replaceCallsFrom hword hspares rfl heven

/-- An argument list of which nothing is dropped. -/
def wholeParts (inner : List Char) : List (List Char × Bool) := [(inner, true)]

/-- Where handlers drop nothing, all literals are left. -/
theorem whole_callFatesFrom : ∀ p ∈ callFatesFrom word handler wholeParts before quoted run cs, p.2 = true := by
  fun_induction callFatesFrom word handler wholeParts before quoted run cs with
  | case1 => exact fun _ => Fates.mem_all
  | case2 before quoted run c rest hn ih => simpa only [dite_eq_ite] using ih
  | case3 before run c rest n hn ih => exact ih
  | case4 => exact fun _ => Fates.mem_all
  | case5 before quoted run c rest n hn hquoted inner after hsplit arguments fates call ih₁ ih₂ =>
    have hparts : ∀ p ∈ Fates.ofParts (wholeParts arguments), p.2 = true := by
      rw [Fates.ofParts, wholeParts, List.flatMap_singleton]
      exact fun _ => Fates.mem_all
    have hcall : ∀ p ∈ call, p.2 = true := by
      simp only [call, dite_eq_ite]
      split
      · exact Fates.whole_andThen ih₁ hparts
      · exact ih₁
    simp only [List.forall_mem_append]
    exact ⟨⟨fun _ => Fates.mem_all, hcall⟩, ih₂⟩

/-- **A handler that drops nothing keeps the literals.** -/
theorem literals_replaceCalls_whole (name : String) (hword : ∀ l ∈ name.toList, isWord l = true)
    (hspares : Spares handler wholeParts) (heven : oddQuotes cs = false) :
    literals (replaceCalls name handler cs) = literals cs ∧ oddQuotes (replaceCalls name handler cs) = false := by
  obtain ⟨htold, hleft, heven'⟩ := literals_replaceCalls name hword hspares heven
  rw [callFates, Fates.left_eq_told whole_callFatesFrom] at hleft
  exact ⟨hleft.trans htold, heven'⟩

/-! ### The handlers -/

/-- The parts of the argument list of a `CAST`: the operand, and the type, which is dropped. -/
def castParts (inner : List Char) : List (List Char × Bool) :=
  match splitAs 0 0 false [] inner with
  | some (operand, type) => [(operand, true), (type, false)]
  | none => [(inner, true)]

/-- The parts of the argument list of `date_trunc` and `date_part`: the unit, which is dropped, and the rest. -/
def unitParts (inner : List Char) : List (List Char × Bool) :=
  match arguments inner with
  | [unit, operand] => [(unit, false), (operand, true)]
  | _ => [(inner, true)]

/-- A written call keeps the literals of its argument. -/
theorem literals_callOf {f : List Char} (hquote : '\'' ∉ f) (heven : oddQuotes x = false) :
    Fenced (callOf f x) ∧ oddQuotes (callOf f x) = false ∧ literals (callOf f x) = literals x := by
  have hhead : f ++ ['('] ≠ [] ∧ '\'' ∉ f ++ ['('] :=
    ⟨by simp, by simpa using hquote⟩
  have hwritten := literals_around hhead isClose heven
  rwa [← List.append_cons] at hwritten

/-- What an `AS` takes is not empty and holds no quote. -/
theorem exists_splitAs {skip : Nat} {depth : Int} {quoted : Bool} {before operand type : List Char}
    (h : splitAs skip depth quoted before cs = some (operand, type)) :
    ∃ mid, before.reverse ++ cs = operand ++ (mid ++ type) ∧ mid ≠ [] ∧ '\'' ∉ mid := by
  obtain ⟨rest, n, heq, hn, rfl⟩ := exists_of_splitAs h
  have hpos := asLength?_pos hn
  refine ⟨rest.take n, by rw [heq, List.take_append_drop], fun hnil => ?_, fun hquote => ?_⟩
  · rcases List.take_eq_nil_iff.1 hnil with hzero | rfl
    · omega
    · cases hn
  · exact still_of_asLength? hn _ hquote (List.mem_cons_self ..)

/-- Blanks around a text hold no quote. -/
theorem oddQuotes_trim (x : List Char) : oddQuotes (Text.trim x) = oddQuotes x := by
  obtain ⟨left, right, heq, hleft, hright⟩ := Text.exists_blanks x
  have hl := oddQuotes_of_quoteless (quote_notMem_of_isBlank hleft)
  have hr := oddQuotes_of_quoteless (quote_notMem_of_isBlank hright)
  conv_rhs => rw [heq, oddQuotes_append, oddQuotes_append, hl, hr, Bool.xor_false, Bool.false_xor]

/-- A `CAST` leaves the literals of its operand. -/
theorem spares_castCall? : Spares castCall? castParts where
  closed _ _ := closed_castCall? fair_nothing
  spared inner text h hinner := by
    simp only [castCall?, Option.bind_eq_bind, Option.bind_eq_some_iff] at h
    obtain ⟨⟨operand, type⟩, hsplit, function, hfunction, h⟩ := h
    cases h
    have hoperand : Closed nothing operand := closed_of_splitAs (n := 0) hsplit rfl (List.forall_mem_nil _) hinner
    have hfunction : '\'' ∉ function := fun hquote =>
      still_of_mem_functions (mem_functions hfunction) _ hquote (List.mem_cons_self ..)
    obtain ⟨hfenced, -, hliterals⟩ := literals_callOf hfunction ((oddQuotes_trim operand).trans hoperand.even)
    obtain ⟨mid, heq, hne, hmid⟩ := exists_splitAs hsplit
    rw [List.reverse_nil, List.nil_append] at heq
    refine ⟨hfenced, ?_, ?_⟩
    · rw [castParts, hsplit, heq, literals_quoteless hmid hne hoperand.even]
      simp [Fates.ofParts]
    · rw [castParts, hsplit, hliterals, literals_trim hoperand.even]
      simp [Fates.ofParts]

/-! ### Arguments -/

/-- **The literals of an argument list are those of its arguments.** -/
theorem literals_arguments (h : ∀ a ∈ arguments cs, oddQuotes a = false) :
    literals cs = (arguments cs).flatMap literals := by
  obtain ⟨pieces, hcs, hpieces⟩ := exists_pieces cs
  have hcomma : [','] ≠ [] ∧ '\'' ∉ [','] := by decide
  have heven : ∀ p ∈ pieces, oddQuotes p = false := fun p hp => by
    rw [← oddQuotes_trim]
    by_cases hblank : Text.trim p = []
    · rw [hblank]
      rfl
    · refine h _ ?_
      rw [hpieces, List.mem_filter]
      exact ⟨List.mem_map_of_mem hp, by simpa using hblank⟩
  clear h
  -- the commas between the pieces keep literals apart
  have hlist : oddQuotes (pieces.flatMap (· ++ [','])) = false ∧
      literals (pieces.flatMap (· ++ [','])) = (pieces.map Text.trim).flatMap literals := by
    clear hcs hpieces
    induction pieces with
    | nil => exact ⟨rfl, rfl⟩
    | cons p pieces ih =>
      rw [List.forall_mem_cons] at heven
      obtain ⟨hlater, hliterals⟩ := ih heven.2
      rw [List.flatMap_cons, oddQuotes_append, oddQuotes_append, heven.1, hlater, List.append_assoc,
        literals_quoteless hcomma.2 hcomma.1 heven.1, hliterals, List.map_cons, List.flatMap_cons,
        literals_trim heven.1]
      exact ⟨rfl, rfl⟩
  have hfilter (l : List (List Char)) : (l.filter (!·.isEmpty)).flatMap literals = l.flatMap literals := by
    induction l with
    | nil => rfl
    | cons a l ih => cases a <;> simp [ih]; rfl
  rw [← hcs] at hlist
  have hwhole : oddQuotes cs = false := by
    rw [oddQuotes_append] at hlist
    simpa [oddQuotes] using hlist.1
  rw [hpieces, hfilter, ← hlist.2, literals_append hwhole (.inr (by simp)), literals_of_quoteless hcomma.2,
    List.append_nil]

/-- A handler that drops nothing leaves all literals. -/
theorem Spares.of_whole (hclosed : ∀ inner text, handler inner = some text → Closed nothing inner →
      Closed nothing text)
    (h : ∀ inner text, handler inner = some text → Closed nothing inner →
      Fenced text ∧ literals text = literals inner) : Spares handler wholeParts where
  closed := hclosed
  spared inner text hr hinner := by
    obtain ⟨hfenced, hliterals⟩ := h inner text hr hinner
    exact ⟨hfenced, by simp [wholeParts, Fates.ofParts], by simp [wholeParts, Fates.ofParts, hliterals]⟩

/-- `btrim` leaves its argument. -/
theorem spares_trimCall? : Spares trimCall? wholeParts := by
  refine .of_whole (fun _ _ => closed_trimCall?) fun inner text h hinner => ?_
  unfold trimCall? at h
  split at h
  case h_2 => cases h
  rename_i operand harguments
  cases h
  have hoperand := (closed_argument [] [] harguments (fun _ h => nomatch h) hinner).even
  obtain ⟨hfenced, -, hliterals⟩ := literals_callOf (f := "trimBoth".toList) (by decide) hoperand
  have hwhole : literals inner = (arguments inner).flatMap literals :=
    literals_arguments (by simpa [harguments] using hoperand)
  rw [harguments, List.flatMap_singleton] at hwhole
  exact ⟨hfenced, hliterals.trans hwhole.symm⟩

/-- The literals of a unit and of the argument besides it. -/
theorem literals_unitAndOperand? {α : Type} {table : List (String × α)} {v : α} {unit : String}
    (htable : ∀ p ∈ table, ∀ c ∈ ['\'', '"', '(', ')'], c ∉ p.1.toList)
    (hoperand : unitAndOperand? inner = some (unit, operand)) (hunit : table.lookup unit = some v)
    (hinner : Closed nothing inner) : oddQuotes operand = false ∧
      (Fates.ofParts (unitParts inner)).told = literals inner ∧
      (Fates.ofParts (unitParts inner)).left = literals operand := by
  obtain ⟨name, harguments, hname, hclosed⟩ := closed_unitAndOperand? htable hoperand hunit hinner
  have hquoted := (closed_quoted (hname '\'' (by simp))).even
  have hwhole : literals inner = (arguments inner).flatMap literals :=
    literals_arguments (by rw [harguments]; simpa using ⟨hquoted, hclosed.even⟩)
  rw [hwhole, unitParts, harguments]
  exact ⟨hclosed.even, by simp [Fates.ofParts], by simp [Fates.ofParts]⟩

/-- `date_trunc` drops its unit. -/
theorem spares_truncCall? : Spares truncCall? unitParts where
  closed _ _ := closed_truncCall?
  spared inner text h hinner := by
    simp only [truncCall?, Option.bind_eq_bind, Option.bind_eq_some_iff] at h
    obtain ⟨⟨unit, operand⟩, hoperand, ⟨left, right⟩, hunit, h⟩ := h
    cases h
    obtain ⟨heven, htold, hleft⟩ := literals_unitAndOperand? (by decide) hoperand hunit hinner
    have hstarts : ∀ p ∈ unitStarts, (p.2.1.toList ≠ [] ∧ '\'' ∉ p.2.1.toList) ∧
        p.2.2.toList ≠ [] ∧ '\'' ∉ p.2.2.toList := by
      decide
    obtain ⟨hbefore, hafter⟩ := hstarts _ (mem_of_lookup hunit)
    obtain ⟨hfenced, -, hliterals⟩ := literals_around hbefore hafter heven
    exact ⟨hfenced, htold, hleft.trans hliterals.symm⟩

/-- `date_part` drops its unit. -/
theorem spares_partCall? : Spares partCall? unitParts where
  closed _ _ := closed_partCall?
  spared inner text h hinner := by
    simp only [partCall?, Option.bind_eq_bind, Option.bind_eq_some_iff] at h
    obtain ⟨⟨part, operand⟩, hoperand, function, hpart, h⟩ := h
    cases h
    obtain ⟨heven, htold, hleft⟩ := literals_unitAndOperand? (by decide) hoperand hpart hinner
    have hquote : '\'' ∉ function.toList := fun hquote =>
      (still_of_partFunctions hpart _ hquote).2 (List.mem_cons_self ..)
    obtain ⟨hfenced, -, hliterals⟩ := literals_callOf hquote heven
    exact ⟨hfenced, htold, hleft.trans hliterals.symm⟩

/-- `extract` leaves what follows `from`. -/
theorem spares_extractCall? : Spares extractCall? wholeParts := by
  refine .of_whole (fun _ _ => closed_extractCall?) fun inner text h hinner => ?_
  simp only [extractCall?, Option.bind_eq_bind, Option.bind_eq_some_iff] at h
  obtain ⟨⟨part, operand⟩, hoperand, function, hpart, h⟩ := h
  cases h
  have hquote : '\'' ∉ function.toList := fun hquote =>
    (still_of_partFunctions hpart _ hquote).2 (List.mem_cons_self ..)
  have heven := (closed_of_partFrom? hoperand hinner).even
  obtain ⟨hfenced, -, hliterals⟩ := literals_callOf hquote ((oddQuotes_trim operand).trans heven)
  obtain ⟨front, rfl, hfront⟩ := exists_of_partFrom? hoperand
  have hquoteless : '\'' ∉ front := fun hquote => hfront _ hquote (List.mem_cons_self ..)
  refine ⟨hfenced, ?_⟩
  rw [hliterals, literals_trim heven, literals_quoteless_append hquoteless]

end Sql
end CardTransfer
