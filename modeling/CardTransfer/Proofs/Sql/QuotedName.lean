import CardTransfer.Proofs.Sql.CallEdit

/-!
# Names in double quotes

Arguments are separated with double quotes in mind, and argument lists are closed without them. The two agree on
a text if its names in double quotes hold no single quotes and their parentheses match (`Tame`). Such a text is
read here with one state (`quotation`): inside of a literal, inside of a name, or in neither. Edits keep what is
read (`Edit.quotation_eq`), and an argument list is read by itself as it is in the text
(`tame_of_mem_argumentLists`).

An edit in an argument list of a tame text lies in one argument (`exists_arguments_edit`), and a unit of a date
or a `from` does not come in with it. So a handler that takes no list of a text takes none of the edited text
(`Edit.exhausted`).
-/

namespace CardTransfer
namespace Sql

open Text (breaksBefore Clear isMatch lastOr isBlank isWord)

variable {a b u v x y head left right inner : List Char} {before : Option Char} {quoted : Bool} {n m : Nat}
  {function : String}

/-- What a place in a text lies in. In a name the parentheses are counted that are open there. -/
inductive Quotation
  | text
  | literal
  | name (depth : Nat)
deriving DecidableEq

namespace Quotation

/-- Reads a character; no single quote may stand in a name, and no parenthesis without its partner. -/
def step : Quotation → Char → Option Quotation
  | text, c => if c == '\'' then some literal else if c == '"' then some (name 0) else some text
  | literal, c => if c == '\'' then some text else some literal
  | name depth, c =>
    if c == '\'' then none
    else if c == '"' then if depth = 0 then some text else none
    else if c == '(' then some (name (depth + 1))
    else if c == ')' then if depth = 0 then none else some (name (depth - 1))
    else some (name depth)

/-- Behind an opening parenthesis. -/
def opened : Quotation → Quotation
  | name depth => name (depth + 1)
  | s => s

/-- The number of parentheses that are open in a name. -/
def weight : Quotation → Nat
  | name depth => depth
  | _ => 0

/-- Whether the place lies in a literal. -/
def isLiteral : Quotation → Bool
  | literal => true
  | _ => false

/-- Whether the place lies in a name. -/
def isName : Quotation → Bool
  | name _ => true
  | _ => false

end Quotation

/-- Reads a text. -/
def quotation : Quotation → List Char → Option Quotation
  | s, [] => some s
  | s, c :: cs => (s.step c).bind fun t => quotation t cs

/-- Names in double quotes hold no single quotes, and their parentheses match. -/
def Tame (x : List Char) : Prop := (quotation .text x).isSome = true

instance : Decidable (Tame x) := inferInstanceAs (Decidable (_ = _))

variable {s t : Quotation}

theorem quotation_append (x y : List Char) :
    quotation s (x ++ y) = (quotation s x).bind fun t => quotation t y := by
  induction x generalizing s with
  | nil => rfl
  | cons c x ih =>
    rw [List.cons_append, quotation, quotation, Option.bind_assoc]
    exact Option.bind_congr fun t _ => ih

theorem exists_quotation_of_append (h : quotation s (x ++ y) = some t) : ∃ r, quotation s x = some r ∧
    quotation r y = some t := by
  rw [quotation_append] at h
  exact Option.bind_eq_some_iff.1 h

/-- Other characters do not count. -/
theorem quotation_of_still (h : ∀ c ∈ x, c ∉ ['\'', '"', '(', ')']) : quotation s x = some s := by
  induction x with
  | nil => rfl
  | cons c x ih =>
    rw [List.forall_mem_cons] at h
    have hc := h.1
    simp only [List.mem_cons, List.not_mem_nil, or_false, not_or] at hc
    have hstep : s.step c = some s := by cases s <;> simp [Quotation.step, hc]
    rw [quotation, hstep]
    exact ih h.2

/-- A text without double quotes is tame. -/
theorem tame_of_notMem (h : '"' ∉ x) : Tame x := by
  have hall (s : Quotation) (hs : s.isName = false) : (quotation s x).isSome = true := by
    induction x generalizing s with
    | nil => rfl
    | cons c x ih =>
      rw [List.mem_cons, not_or] at h
      obtain ⟨t, ht, hname⟩ : ∃ t, s.step c = some t ∧ t.isName = false := by
        cases s with
        | name => cases hs
        | text => by_cases hc : c = '\'' <;> simp [Quotation.step, hc, Ne.symm h.1, Quotation.isName]
        | literal => by_cases hc : c = '\'' <;> simp [Quotation.step, hc, Quotation.isName]
      rw [quotation, ht]
      exact ih h.2 t hname
  exact hall .text rfl

/-- Parts of words and blanks do not count. -/
theorem quotation_of_words (h : ∀ c ∈ x, isWord c = true ∨ isBlank c = true) : quotation s x = some s := by
  have hmarks : ∀ c ∈ ['\'', '"', '(', ')'], isWord c = false ∧ isBlank c = false := by decide
  refine quotation_of_still fun c hc hmem => ?_
  rcases h c hc with hword | hblank
  · rw [(hmarks c hmem).1] at hword
    cases hword
  · rw [(hmarks c hmem).2] at hblank
    cases hblank

/-- In a tame text the single quotes tell whether a place lies in a literal. -/
theorem isLiteral_of_quotation (h : quotation s x = some t) : t.isLiteral = (s.isLiteral ^^ oddQuotes x) := by
  induction x generalizing s with
  | nil =>
    cases h
    exact (Bool.xor_false _).symm
  | cons c x ih =>
    rw [quotation] at h
    obtain ⟨r, hr, h⟩ := Option.bind_eq_some_iff.1 h
    have hstep : r.isLiteral = (s.isLiteral ^^ (c == '\'')) := by
      cases s <;> simp only [Quotation.step] at hr <;> split_ifs at hr <;> cases hr <;>
        simp_all [Quotation.isLiteral]
    rw [ih h, hstep, oddQuotes_cons, Bool.xor_assoc, Bool.xor_comm (c == '\'')]

/-- In the parentheses of a name there are no quotes. -/
theorem notMem_of_quotation_name {p : Nat × Bool} (h : quotation (.name (n + 1)) x = some t)
    (hn : nesting nothing n false x = some p) : '"' ∉ x := by
  induction x generalizing n with
  | nil => exact List.not_mem_nil
  | cons c x ih =>
    rw [quotation] at h
    obtain ⟨r, hr, h⟩ := Option.bind_eq_some_iff.1 h
    simp only [Quotation.step, Nat.add_one_ne_zero, if_false] at hr
    simp only [nesting, nothing, Bool.false_eq_true, if_false] at hn
    rw [List.mem_cons, not_or]
    split_ifs at hr with hquote hdouble hopen hclose
    · cases hr
      rw [if_neg hquote, if_pos hopen] at hn
      exact ⟨fun hc => hdouble (beq_iff_eq.2 hc.symm), ih h hn⟩
    · cases hr
      rw [if_neg hquote, if_neg hopen, if_pos hclose] at hn
      split_ifs at hn with hzero
      obtain ⟨k, rfl⟩ := Nat.exists_eq_succ_of_ne_zero hzero
      exact ⟨fun hc => hdouble (beq_iff_eq.2 hc.symm), ih h hn⟩
    · cases hr
      rw [if_neg hquote, if_neg hopen, if_neg hclose] at hn
      exact ⟨fun hc => hdouble (beq_iff_eq.2 hc.symm), ih h hn⟩

/-! ### Edits -/

theorem IsHead.quotation_eq (h : IsHead head) : quotation s head = some s.opened := by
  obtain ⟨start, rfl, hstart⟩ := h.eq_concat
  rw [quotation_append, quotation_of_words hstart]
  cases s <;> rfl

/-- What stands in front of an argument leaves the reading where it was. -/
theorem Aside.quotation_left (h : Aside left right) (hs : quotation s left = some t) : t = s := by
  have hliteral := isLiteral_of_quotation hs
  rw [h.even, Bool.xor_false] at hliteral
  have hname : t.isName = s.isName ∧ t.weight = s.weight := by
    have hplain := h.plain
    clear hliteral h
    induction left generalizing s with
    | nil =>
      cases hs
      exact ⟨rfl, rfl⟩
    | cons c left ih =>
      rw [List.forall_mem_cons] at hplain
      have hc := hplain.1
      simp only [List.mem_cons, List.not_mem_nil, or_false, not_or] at hc
      rw [quotation] at hs
      obtain ⟨r, hr, hs⟩ := Option.bind_eq_some_iff.1 hs
      obtain ⟨hname, hweight⟩ := ih hs hplain.2
      rw [hname, hweight]
      cases s <;> simp only [Quotation.step] at hr <;> split_ifs at hr <;> cases hr <;>
        simp_all [Quotation.isName, Quotation.weight]
  cases s <;> cases t <;> simp_all [Quotation.isLiteral, Quotation.isName, Quotation.weight]

theorem Aside.quotation_right (h : Aside left right) : quotation s right = some s := by
  refine quotation_of_still fun c hc hmem => ?_
  rcases h.right c hc with hblank | rfl
  · have hmarks : ∀ c ∈ ['\'', '"', '(', ')'], isBlank c = false := by decide
    rw [hmarks c hmem] at hblank
    cases hblank
  · exact absurd hmem (by decide)

/-- **What is written is read like what it is written for.** -/
theorem Written.quotation_eq (h : Written v a b) (ha : quotation s a = some t) : quotation s b = some t := by
  cases h with
  | call hhead htext =>
    obtain ⟨haside, -, hopening, hextra⟩ := htext
    rename_i left operand right opening extra
    have hclose (s : Quotation) : quotation s (extra ++ [')']) = quotation s [')'] := by
      have hall : ∀ e ∈ extras, ∀ c ∈ e, c ∉ ['\'', '"', '(', ')'] := by decide
      rw [quotation_append, quotation_of_still (hall extra hextra), Option.bind_some]
    obtain ⟨r, hr, ha⟩ := exists_quotation_of_append ha
    rw [hhead.quotation_eq] at hr
    cases hr
    obtain ⟨r, hlist, hend⟩ := exists_quotation_of_append ha
    obtain ⟨r', hleft, hlist⟩ := exists_quotation_of_append hlist
    obtain rfl := haside.quotation_left hleft
    obtain ⟨r', hoperand, hright⟩ := exists_quotation_of_append hlist
    rw [haside.quotation_right] at hright
    cases hright
    rw [quotation_append, (isHead_openings hopening).quotation_eq, Option.bind_some, quotation_append, hoperand,
      Option.bind_some, hclose]
    exact hend
  | name hhead _ hopening =>
    rw [hhead.quotation_eq] at ha
    rw [(isHead_openings hopening).quotation_eq, ha]
  | today _ hname =>
    rw [quotation_of_words fun c hc => .inl (hname c hc)] at ha
    cases ha
    cases s <;> rfl

theorem Edit.quotation_eq (h : Edit before quoted x y) (hx : quotation s x = some t) : quotation s y = some t := by
  obtain ⟨hwritten, -, -⟩ := h
  obtain ⟨r, hu, hx⟩ := exists_quotation_of_append hx
  obtain ⟨r', ha, hv⟩ := exists_quotation_of_append hx
  rw [quotation_append, hu, Option.bind_some, quotation_append, hwritten.quotation_eq ha]
  exact hv

theorem Edit.tame (h : Edit before quoted x y) (hx : Tame x) : Tame y := by
  obtain ⟨t, ht⟩ := Option.isSome_iff_exists.1 hx
  exact Option.isSome_iff_exists.2 ⟨t, h.quotation_eq ht⟩

/-! ### Argument lists are tame by themselves -/

variable {word l : List Char}

/-- **An argument list of a tame text is tame by itself.** -/
theorem tame_of_mem_argumentLists (hword : ∀ l ∈ word, isWord l = true) (hne : word ≠ [])
    (h : l ∈ argumentListsFrom word before quoted x) (hx : quotation s x = some t) (hs : s.isLiteral = quoted) :
    Tame l := by
  have hopened (s : Quotation) : s.opened.isLiteral = s.isLiteral := by cases s <;> rfl
  fun_induction argumentListsFrom word before quoted x generalizing s t with
  | case1 => cases h
  | case2 before quoted c rest hn ih =>
    obtain ⟨r, hr, hrest⟩ := exists_quotation_of_append (x := [c]) hx
    refine ih (by simpa using h) hrest ?_
    rw [isLiteral_of_quotation hr, hs, oddQuotes_cons]
    cases c == '\'' <;> cases quoted <;> rfl
  | case3 before c rest n hn ih =>
    obtain ⟨head, tail, hcs, rfl, hhead, -⟩ := exists_isHead hword hne hn
    rw [hcs] at hx ih h
    rw [List.drop_left] at h ih
    obtain ⟨r, hr, htail⟩ := exists_quotation_of_append hx
    rw [hhead.quotation_eq] at hr
    cases hr
    exact ih h htail ((hopened s).trans hs)
  | case4 => cases h
  | case5 before quoted c rest n hn hq inner after hsplit ih₁ ih₂ =>
    obtain rfl : quoted = false := Bool.eq_false_iff.2 hq
    have hclosed := closed_of_splitClosing hsplit
    obtain ⟨head, tail, hcs, rfl, hhead, -⟩ := exists_isHead hword hne hn
    rw [hcs, List.drop_left] at hsplit
    rw [hcs, splitPartner_eq hsplit] at hx
    obtain ⟨r, hr, htail⟩ := exists_quotation_of_append hx
    rw [hhead.quotation_eq] at hr
    cases hr
    obtain ⟨r, hinner, hafter⟩ := exists_quotation_of_append htail
    obtain ⟨r', hclose, hafter⟩ := exists_quotation_of_append (x := [')']) hafter
    have hopen : s.opened.isLiteral = false := (hopened s).trans hs
    rw [List.cons_append, List.mem_cons, List.mem_append] at h
    rcases h with rfl | h | h
    · cases s with
      | text => exact Option.isSome_iff_exists.2 ⟨r, hinner⟩
      | literal => cases hs
      | name depth => exact tame_of_notMem (notMem_of_quotation_name hinner (hclosed.nesting_eq depth))
    · exact ih₁ h hinner hopen
    · refine ih₂ h hafter ?_
      rw [isLiteral_of_quotation hclose, isLiteral_of_quotation hinner, hopen, hclosed.even]
      rfl

/-! ### Arguments -/

namespace ArgumentState

/-- Where the reading of an argument list stands at a place of a tame text: in a name the parentheses are not
counted. -/
def reading (depth : Nat) (s : Quotation) (current : List Char) (done : List (List Char)) : ArgumentState :=
  ⟨depth - s.weight, s.isLiteral, s.isName, current, done⟩

variable {current : List Char} {done : List (List Char)} {o : Bool}

theorem step_reading {c : Char} (hs : s.step c = some t) (hn : nesting nothing n s.isLiteral [c] = some (m, o))
    (hsplit : ¬(c = ',' ∧ s = .text ∧ n = 0)) :
    (reading n s current done).step c = reading m t (c :: current) done := by
  cases s <;> simp only [Quotation.step] at hs <;> simp only [nesting, nothing, Quotation.isLiteral] at hn <;>
    split_ifs at hs hn <;> cases hs <;> cases hn <;>
    simp_all [step, reading, Quotation.isLiteral, Quotation.isName, Quotation.weight] <;> omega

/-- Somewhere in a tame text the reading stands. -/
theorem exists_reading (hs : quotation s x = some t) (hn : nesting nothing n s.isLiteral x = some (m, o)) :
    ∃ current' done', x.foldl step (reading n s current done) = reading m t current' done' := by
  induction x generalizing n s current done with
  | nil =>
    cases hs
    cases hn
    exact ⟨current, done, rfl⟩
  | cons c x ih =>
    obtain ⟨r, hr, hx⟩ := exists_quotation_of_append (x := [c]) hs
    obtain ⟨⟨k, q⟩, hk, hnx⟩ := exists_nesting_of_append (x := [c]) hn
    have hr' : s.step c = some r := by simpa [quotation] using hr
    obtain rfl : q = r.isLiteral := by rw [isLiteral_of_quotation hr]; exact quoted_of_nesting hk
    rw [List.foldl_cons]
    by_cases hsplit : c = ',' ∧ s = .text ∧ n = 0
    · obtain ⟨rfl, rfl, rfl⟩ := hsplit
      cases hr'
      cases hk
      exact ih hx hnx
    · rw [step_reading hr' hk hsplit]
      exact ih hx hnx

/-- **A text in which no comma separates arguments goes on with the argument that is read:** it has no commas, or
a literal goes on through it, or it lies in parentheses. -/
theorem foldl_reading (hs : quotation s x = some t) (hn : nesting nothing n s.isLiteral x = some (m, o))
    (hwhole : ',' ∉ x ∨ (s = .literal ∧ '\'' ∉ x) ∨ ∃ k p, n = k + 1 ∧ nesting nothing k s.isLiteral x = some p) :
    x.foldl step (reading n s current done) = reading m t (x.reverse ++ current) done := by
  induction x generalizing n s current with
  | nil =>
    cases hs
    cases hn
    rfl
  | cons c x ih =>
    obtain ⟨r, hr, hx⟩ := exists_quotation_of_append (x := [c]) hs
    obtain ⟨⟨k, q⟩, hk, hnx⟩ := exists_nesting_of_append (x := [c]) hn
    have hr' : s.step c = some r := by simpa [quotation] using hr
    obtain rfl : q = r.isLiteral := by rw [isLiteral_of_quotation hr]; exact quoted_of_nesting hk
    have hsplit : ¬(c = ',' ∧ s = .text ∧ n = 0) := by
      rintro ⟨rfl, rfl, rfl⟩
      rcases hwhole with hcomma | ⟨hliteral, -⟩ | ⟨k, p, hzero, -⟩
      · exact hcomma (List.mem_cons_self ..)
      · cases hliteral
      · omega
    rw [List.foldl_cons, step_reading hr' hk hsplit, ih hx hnx, List.reverse_cons, List.append_assoc]
    · rfl
    refine hwhole.imp (fun hcomma hmem => hcomma (List.mem_cons_of_mem _ hmem)) (Or.imp ?_ ?_)
    · rintro ⟨rfl, hquote⟩
      rw [List.mem_cons, not_or] at hquote
      simp only [Quotation.step, beq_iff_eq, Ne.symm hquote.1, if_false] at hr'
      cases hr'
      exact ⟨rfl, hquote.2⟩
    · rintro ⟨k', p, rfl, hp⟩
      obtain ⟨⟨j, q⟩, hj, hp⟩ := exists_nesting_of_append (x := [c]) hp
      have hshift := nesting_shift 1 hj
      rw [hk] at hshift
      cases hshift
      exact ⟨j, p, rfl, hp⟩

/-- The pieces of an argument list as they have been read. -/
def pieces (s : ArgumentState) : List (List Char) := s.done.reverse ++ [s.current.reverse]

/-- A character goes on with the piece that is read or ends it, whatever the piece is. -/
theorem exists_step (depth : Int) (single double : Bool) (c : Char) : ∃ depth' single' double',
    (∀ current done, step ⟨depth, single, double, current, done⟩ c = ⟨depth', single', double', c :: current, done⟩) ∨
      ∀ current done,
        step ⟨depth, single, double, current, done⟩ c = ⟨depth', single', double', [], current.reverse :: done⟩ := by
  dsimp only [step]
  split_ifs
  pick_goal 6
  · -- a comma between arguments
    exact ⟨depth, single, double, .inr fun _ _ => rfl⟩
  all_goals exact ⟨_, _, _, .inl fun _ _ => rfl⟩

/-- What follows goes on with the piece that is read, whatever the piece is. -/
theorem exists_pieces_foldl (v : List Char) (depth : Int) (single double : Bool) : ∃ first later, ∀ current done,
    pieces (v.foldl step ⟨depth, single, double, current, done⟩) =
      done.reverse ++ (current.reverse ++ first) :: later := by
  induction v generalizing depth single double with
  | nil => exact ⟨[], [], fun current done => by simp [pieces]⟩
  | cons c v ih =>
    obtain ⟨depth', single', double', hstep | hstep⟩ := exists_step depth single double c
    · obtain ⟨first, later, hpieces⟩ := ih depth' single' double'
      refine ⟨c :: first, later, fun current done => ?_⟩
      rw [List.foldl_cons, hstep, hpieces, List.reverse_cons, List.append_assoc]
      rfl
    · obtain ⟨first, later, hpieces⟩ := ih depth' single' double'
      refine ⟨[], first :: later, fun current done => ?_⟩
      rw [List.foldl_cons, hstep, hpieces, List.reverse_cons, List.append_assoc]
      simp

end ArgumentState

theorem IsHead.comma_notMem (h : IsHead head) : ',' ∉ head := fun hmem => by
  obtain ⟨start, rfl, hstart⟩ := h.eq_concat
  rcases List.mem_append.1 hmem with hmem | hmem
  · exact (hstart _ hmem).elim (by decide) (by decide)
  · exact absurd hmem (by decide)

/-- A call goes on with the argument that is read. -/
theorem foldl_reading_call (hhead : IsHead head) (hinner : Closed nothing inner) (hs : s.isLiteral = false)
    (h : quotation s (head ++ (inner ++ [')'])) = some t) (current : List Char) (done : List (List Char)) :
    (head ++ (inner ++ [')'])).foldl ArgumentState.step (.reading n s current done) =
      .reading n t ((head ++ (inner ++ [')'])).reverse ++ current) done := by
  obtain ⟨r, hr, h⟩ := exists_quotation_of_append h
  rw [hhead.quotation_eq] at hr
  cases hr
  obtain ⟨r, hr, hclose⟩ := exists_quotation_of_append h
  have hopened : s.opened.isLiteral = false := by rw [← hs]; cases s <;> rfl
  have hr' : r.isLiteral = false := by rw [isLiteral_of_quotation hr, hopened, hinner.even]; rfl
  have hnhead : nesting nothing n s.isLiteral head = some (n + 1, false) := by
    rw [hs, Nat.add_comm]
    simpa using nesting_shift n hhead.nesting
  have hninner (n : Nat) : nesting nothing n s.opened.isLiteral inner = some (n, false) := by
    rw [hopened]
    exact hinner.nesting_eq n
  have hnclose : nesting nothing (n + 1) r.isLiteral [')'] = some (n, false) := by
    rw [hr']
    rfl
  rw [List.foldl_append, ArgumentState.foldl_reading hhead.quotation_eq hnhead (.inl hhead.comma_notMem),
    List.foldl_append, ArgumentState.foldl_reading hr (hninner _) (.inr (.inr ⟨n, _, rfl, hninner n⟩)),
    ArgumentState.foldl_reading hclose hnclose (.inl (by decide))]
  simp

/-- **What is written goes on with the argument that is read,** as what it is written for does. -/
theorem foldl_reading_written {o : Bool} (h : Written v a b) (hquote : s.isLiteral = false ∨ '\'' ∉ a)
    (ha : quotation s a = some t) (hn : nesting nothing n s.isLiteral a = some (m, o))
    (current : List Char) (done : List (List Char)) :
    a.foldl ArgumentState.step (.reading n s current done) = .reading m t (a.reverse ++ current) done ∧
      b.foldl ArgumentState.step (.reading n s current done) = .reading m t (b.reverse ++ current) done := by
  have hb := h.quotation_eq ha
  cases hs : s.isLiteral with
  | true =>
    obtain rfl : s = .literal := by
      cases s <;> cases hs
      rfl
    have haq := hquote.resolve_left (by decide)
    have hbq := h.quote_notMem haq
    have hna : nesting nothing n Quotation.literal.isLiteral a = some (n, true) := nesting_of_quoteless haq
    rw [hna] at hn
    cases hn
    exact ⟨ArgumentState.foldl_reading ha hna (.inr (.inl ⟨rfl, haq⟩)),
      ArgumentState.foldl_reading hb (nesting_of_quoteless hbq) (.inr (.inl ⟨rfl, hbq⟩))⟩
  | false =>
    rw [hs] at hn
    obtain ⟨k, hka, hkb⟩ := h.nesting
    have hna := nesting_shift n hka
    have hnb := nesting_shift n hkb
    rw [Nat.zero_add, ← hs] at hna hnb
    obtain rfl : k + n = m := by
      rw [hs] at hna
      exact congrArg Prod.fst (Option.some.inj (hna.symm.trans hn))
    have hwords (hacomma : ',' ∉ a) (hbcomma : ',' ∉ b) :
        a.foldl ArgumentState.step (.reading n s current done) = .reading (k + n) t (a.reverse ++ current) done ∧
          b.foldl ArgumentState.step (.reading n s current done) = .reading (k + n) t (b.reverse ++ current) done :=
      ⟨ArgumentState.foldl_reading ha hna (.inl hacomma), ArgumentState.foldl_reading hb hnb (.inl hbcomma)⟩
    cases h with
    | @call head inner text hhead htext =>
      obtain rfl : k = 0 := by
        have hcall : nesting nothing 0 false (head ++ (inner ++ [')'])) = some (0, false) := by
          rw [nesting_append, hhead.nesting, Option.bind_some, nesting_append, htext.closed.1.nesting_eq]
          rfl
        exact congrArg Prod.fst (Option.some.inj (hka.symm.trans hcall))
      rw [Nat.zero_add]
      refine ⟨foldl_reading_call hhead htext.closed.1 hs ha current done, ?_⟩
      obtain ⟨-, hoperand, hopening, hextra⟩ := htext
      rename_i left operand right opening extra
      have hextras : ∀ e ∈ extras, Closed nothing e := by decide
      have hcall := foldl_reading_call (n := n) (isHead_openings hopening) (hoperand.append (hextras extra hextra)) hs
        (by simpa using hb) current done
      simpa using hcall
    | name hhead _ hopening => exact hwords hhead.comma_notMem (isHead_openings hopening).comma_notMem
    | today _ hname => exact hwords (fun hmem => absurd (hname _ hmem) (by decide)) (by decide)

/-- **An edit in an argument list lies in one argument,** and the others stay. -/
theorem exists_arguments_edit (h : Edit none false x y) (hclosed : Closed nothing x) (htame : Tame x) :
    ∃ l₁ l₂ p a b q, arguments x = l₁ ++ Text.trim (p ++ (a ++ q)) :: l₂ ∧
      arguments y = l₁ ++ Text.trim (p ++ (b ++ q)) :: l₂ ∧ ∃ v, Written v a b := by
  obtain ⟨hwritten, -, hquotes⟩ := h
  rename_i u a b v
  obtain ⟨t, ht⟩ := Option.isSome_iff_exists.1 htame
  obtain ⟨s, hu, ht⟩ := exists_quotation_of_append ht
  obtain ⟨r, ha, hv⟩ := exists_quotation_of_append ht
  obtain ⟨⟨n, o⟩, hnu, hnav⟩ := exists_nesting_of_append hclosed
  obtain ⟨⟨m, q⟩, hna, -⟩ := exists_nesting_of_append hnav
  have hliteral := isLiteral_of_quotation hu
  obtain rfl : o = s.isLiteral := (quoted_of_nesting hnu).trans hliteral.symm
  have hquote : s.isLiteral = false ∨ '\'' ∉ a := by
    refine hquotes.imp (fun heven => ?_) fun hmem => (not_or.1 (List.mem_append.not.1 hmem)).1
    rw [hliteral, heven]
    rfl
  obtain ⟨current, done, hread⟩ : ∃ current done,
      u.foldl ArgumentState.step (.reading 0 .text [] []) = .reading n s current done :=
    ArgumentState.exists_reading hu hnu
  obtain ⟨hreada, hreadb⟩ := foldl_reading_written hwritten hquote ha hna current done
  obtain ⟨first, later, hpieces⟩ := ArgumentState.exists_pieces_foldl v (m - r.weight) r.isLiteral r.isName
  -- the piece with the edit is not blank
  have harguments {c : List Char} (hword : ∃ d w, c = d :: w ∧ isWord d = true)
      (hread' : c.foldl ArgumentState.step (.reading n s current done) = .reading m r (c.reverse ++ current) done) :
      arguments (u ++ (c ++ v)) = (done.reverse.map Text.trim).filter (!·.isEmpty) ++
        Text.trim (current.reverse ++ (c ++ first)) :: (later.map Text.trim).filter (!·.isEmpty) := by
    have hne : (!(Text.trim (current.reverse ++ (c ++ first))).isEmpty) = true := by
      obtain ⟨d, w, rfl, hd⟩ := hword
      rw [Bool.not_eq_true', List.isEmpty_eq_false_iff]
      exact List.ne_nil_of_mem (mem_trim (isBlank_of_isWord hd) (by simp))
    have hstate : (u ++ (c ++ v)).foldl ArgumentState.step ⟨0, false, false, [], []⟩ =
        v.foldl ArgumentState.step (.reading m r (c.reverse ++ current) done) := by
      rw [List.foldl_append, List.foldl_append, ← hread', ← hread]
      rfl
    have hlist : arguments (u ++ (c ++ v)) = ((ArgumentState.pieces ((u ++ (c ++ v)).foldl ArgumentState.step
        ⟨0, false, false, [], []⟩)).map Text.trim).filter (!·.isEmpty) := by
      rw [arguments, ArgumentState.pieces, List.reverse_cons]
    rw [hlist, hstate, ArgumentState.reading, hpieces, List.map_append, List.filter_append, List.map_cons,
      List.reverse_append, List.reverse_reverse, List.append_assoc, List.filter_cons, if_pos hne]
  exact ⟨_, _, _, a, b, first, harguments hwritten.starts.1 hreada, harguments hwritten.starts.2 hreadb, v, hwritten⟩

/-! ### Handlers that edits do not wake -/

/-- An edit in an argument list that the handler leaves makes no list of it that the handler takes. -/
def Steady (handler : List Char → Option (List Char)) : Prop :=
  ∀ x y, Edit none false x y → Closed nothing x → Tame x → handler x = none → handler y = none

theorem Written.paren_mem (h : Written v a b) : '(' ∈ b := by
  have hopen {opening : List Char} (hopening : opening ∈ openings) : '(' ∈ opening := by
    obtain ⟨start, rfl, -⟩ := (isHead_openings hopening).eq_concat
    simp
  cases h with
  | call _ htext =>
    obtain ⟨-, -, hopening, -⟩ := htext
    exact List.mem_append_left _ (hopen hopening)
  | name _ _ hopening => exact hopen hopening
  | today => decide

theorem steady_trimCall? : Steady trimCall? := by
  intro x y h hclosed htame hnone
  obtain ⟨l₁, l₂, p, a, b, q, hx, hy, -⟩ := exists_arguments_edit h hclosed htame
  unfold trimCall? at hnone ⊢
  rw [hx] at hnone
  rw [hy]
  rcases l₁ with _ | ⟨o, l₁⟩
  · rcases l₂ with _ | ⟨o, l₂⟩
    · cases hnone
    · rfl
  · rcases l₁ with _ | ⟨o', l₁⟩ <;> rfl

/-- The unit of an edited list was there before the edit. -/
theorem exists_unitAndOperand? {α : Type} {table : List (String × α)} {r : α} {unit : String} {operand : List Char}
    (htable : ∀ p ∈ table, ∀ c ∈ ['\'', '"', '(', ')'], c ∉ p.1.toList) (h : Edit none false x y)
    (hclosed : Closed nothing x) (htame : Tame x) (hoperand : unitAndOperand? y = some (unit, operand))
    (hunit : table.lookup unit = some r) : ∃ operand', unitAndOperand? x = some (unit, operand') := by
  obtain ⟨l₁, l₂, p, a, b, q, hx, hy, v, hwritten⟩ := exists_arguments_edit h hclosed htame
  unfold unitAndOperand? at hoperand ⊢
  rw [hy] at hoperand
  rw [hx]
  split at hoperand
  case h_2 => cases hoperand
  rename_i quotedUnit _ harguments
  split at hoperand
  case isFalse => cases hoperand
  rename_i hquote
  cases hoperand
  cases l₁ with
  | nil =>
    -- a unit holds no parenthesis
    obtain ⟨rfl, -⟩ := List.cons.inj harguments
    obtain ⟨name, hname, hplain⟩ := exists_of_unit htable (beq_iff_eq.1 hquote) (Text.trim_trim _) hunit
    have hmem : '(' ∈ Text.trim (p ++ (b ++ q)) := mem_trim (by decide) (by simp [hwritten.paren_mem])
    rw [hname] at hmem
    simp [hplain] at hmem
  | cons o l₁ =>
    obtain ⟨rfl, hlater⟩ := List.cons.inj harguments
    cases l₁ with
    | nil =>
      obtain ⟨-, rfl⟩ := List.cons.inj hlater
      exact ⟨_, if_pos hquote⟩
    | cons o' l₁ => cases l₁ <;> cases hlater

theorem steady_truncCall? : Steady truncCall? := by
  intro x y h hclosed htame hnone
  rw [Option.eq_none_iff_forall_ne_some] at hnone ⊢
  intro text htext
  simp only [truncCall?, Option.bind_eq_bind, Option.bind_eq_some_iff] at htext
  obtain ⟨⟨unit, operand⟩, hoperand, ⟨opening, closing⟩, hunit, -⟩ := htext
  obtain ⟨operand', hoperand'⟩ := exists_unitAndOperand? (by decide) h hclosed htame hoperand hunit
  refine hnone (opening.toList ++ operand' ++ closing.toList) ?_
  simp only [truncCall?, hoperand', hunit, Option.bind_eq_bind, Option.bind_some]

theorem steady_partCall? : Steady partCall? := by
  intro x y h hclosed htame hnone
  rw [Option.eq_none_iff_forall_ne_some] at hnone ⊢
  intro text htext
  simp only [partCall?, Option.bind_eq_bind, Option.bind_eq_some_iff] at htext
  obtain ⟨⟨unit, operand⟩, hoperand, name, hunit, -⟩ := htext
  obtain ⟨operand', hoperand'⟩ := exists_unitAndOperand? (by decide) h hclosed htame hoperand hunit
  refine hnone (callOf name.toList operand') ?_
  simp only [partCall?, hoperand', hunit, Option.bind_eq_bind, Option.bind_some]

/-- What is written starts with a name and its parenthesis. -/
theorem Written.exists_opening (h : Written v a b) : ∃ name rest, b = name ++ '(' :: rest ∧
    ∀ c ∈ name, isWord c = true := by
  cases h with
  | call _ htext =>
    obtain ⟨-, -, hopening, -⟩ := htext
    obtain ⟨name, rfl, -, hname⟩ := exists_of_openings hopening
    exact ⟨name, _, (List.append_cons ..).symm, hname⟩
  | name _ _ hopening =>
    obtain ⟨name, rfl, -, hname⟩ := exists_of_openings hopening
    exact ⟨name, [], rfl, hname⟩
  | today => exact ⟨"today".toList, [')'], rfl, by decide⟩

/-- What is written does not start in a text without parentheses that a blank ends. -/
theorem Written.exists_append {start rest : List Char} {blank : Char} (h : Written v a b)
    (heq : u ++ (b ++ v) = start ++ [blank] ++ rest) (hstart : '(' ∉ start) (hblank : isBlank blank = true) :
    ∃ w, u = start ++ [blank] ++ w := by
  have hparen : '(' ∉ start ++ [blank] := by
    rw [List.mem_append, List.mem_singleton, not_or]
    exact ⟨hstart, by rintro rfl; exact absurd hblank (by decide)⟩
  rcases List.append_eq_append_iff.1 heq with ⟨w, hw, hrest⟩ | ⟨w, hw, -⟩
  case inr => exact ⟨w, hw⟩
  rcases List.eq_nil_or_concat' w with rfl | ⟨w, c, rfl⟩
  · exact ⟨[], by rw [hw, List.append_nil, List.append_nil]⟩
  obtain ⟨name, later, rfl, hname⟩ := h.exists_opening
  rw [← List.append_assoc] at hw
  obtain ⟨-, hc⟩ := List.append_inj' hw rfl
  cases hc
  have hword : blank ∉ name := fun hmem => by
    rw [isBlank_of_isWord (hname _ hmem)] at hblank
    cases hblank
  rw [List.append_assoc] at hrest
  rcases List.append_eq_append_iff.1 hrest with ⟨e, he, hlater⟩ | ⟨e, he, -⟩
  · cases e with
    | nil =>
      rw [List.append_nil] at he
      exact absurd (by rw [← he]; simp) hword
    | cons d e =>
      obtain ⟨rfl, -⟩ := List.cons.inj hlater
      refine absurd ?_ hparen
      rw [hw, List.append_assoc, he]
      simp
  · exact absurd (by rw [he]; simp) hword

theorem steady_extractCall? : Steady extractCall? := by
  rintro x y h - - hnone
  rw [Option.eq_none_iff_forall_ne_some] at hnone ⊢
  intro text htext
  simp only [extractCall?, Option.bind_eq_bind, Option.bind_eq_some_iff] at htext
  obtain ⟨⟨part, operand⟩, hoperand, name, hpart, -⟩ := htext
  obtain ⟨hwritten, -, -⟩ := h
  rename_i u a b v
  obtain ⟨start, gap, word, heq, hstart, hletters, hgap, hword, blank, rest, rfl, hblank⟩ :=
    partFrom?_eq_some_iff.1 hoperand
  -- the edit lies behind the blank that follows the word `from`
  obtain ⟨w, rfl⟩ : ∃ w, u = start ++ (part ++ (gap ++ word)) ++ [blank] ++ w := by
    have heq' : u ++ (b ++ v) = start ++ (part ++ (gap ++ word)) ++ [blank] ++ rest := by simpa using heq
    refine hwritten.exists_append heq' (fun hmem => ?_) hblank
    have haside : Aside (start ++ (part ++ gap) ++ (word ++ [blank])) [] :=
      aside_of_from hstart hletters.2 hgap hword (List.cons_ne_nil _ _) (by simpa using hblank) (List.forall_mem_nil _)
    refine haside.plain '(' ?_ (by simp)
    simp only [List.mem_append, or_assoc] at hmem ⊢
    exact hmem.imp_right (Or.imp_right (Or.imp_right .inl))
  refine hnone (callOf name.toList (Text.trim (blank :: (w ++ (a ++ v))))) ?_
  have hoperand' : partFrom? (start ++ (part ++ (gap ++ word)) ++ [blank] ++ w ++ (a ++ v)) =
      some (part, blank :: (w ++ (a ++ v))) :=
    partFrom?_eq_some_iff.2 ⟨start, gap, word, by simp, hstart, hletters, hgap, hword, blank, _, rfl, hblank⟩
  simp only [extractCall?, hoperand', hpart, Option.bind_eq_bind, Option.bind_some]

/-! ### Exhausted texts under edits -/

/-- **An edit of a tame text leaves a steady handler nothing to take** where there was nothing before. -/
theorem Edit.exhausted {handler : List Char → Option (List Char)} (h : Edit none false x y)
    (hf : function ∈ dateCalls) (hsteady : Steady handler) (htame : Tame x) (hx : Exhausted function handler x) :
    Exhausted function handler y := by
  intro l hl
  rcases mem_argumentLists_of_edit hf h hl with hmem | ⟨l', hmem, hedit⟩
  · exact hx l hmem
  · obtain ⟨t, ht⟩ := Option.isSome_iff_exists.1 htame
    exact hsteady l' l hedit (closed_of_mem_argumentLists hmem)
      (tame_of_mem_argumentLists (isWord_dateCalls hf) (ne_nil_of_mem_dateCalls hf) hmem ht rfl) (hx l' hmem)

end Sql
end CardTransfer
