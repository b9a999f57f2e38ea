import CardTransfer.Proofs.Sql.Balance
import CardTransfer.Proofs.Sql.PostfixCast

/-!
# What the handlers of calls leave closed

A handler writes a function name, parentheses and a part of the argument list. The part is closed where the
list is: it ends where a comma, an `AS` or a `from` stands outside of parentheses and quotes
(`closed_of_splitAs`, `closed_argument`, `closed_of_partFrom?`).
-/

namespace CardTransfer
namespace Sql

variable {bad : Bool → Char → Bool} {x cs operand : List Char}

/-- Nothing is bad. -/
def nothing : Bool → Char → Bool := fun _ _ => false

/-- The functions that casts are converted to. -/
def functions : List (List Char) := conversions.map (·.2.toList)

theorem mem_of_lookup {α : Type} {table : List (String × α)} {key : String} {v : α}
    (h : table.lookup key = some v) : (key, v) ∈ table := by
  obtain ⟨l₁, l₂, rfl, -⟩ := List.lookup_eq_some_iff.1 h
  exact List.mem_append_right _ (List.mem_cons_self ..)

theorem mem_functions {type function : List Char} (h : conversion? type = some function) :
    function ∈ functions := by
  obtain ⟨f, hf, rfl⟩ := exists_mem_conversions h
  exact List.mem_map_of_mem hf

/-- What is taken away and what is written in the conversion of a cast is not bad outside of quotes. -/
structure Fair (bad : Bool → Char → Bool) : Prop where
  blank : ∀ c, Text.isBlank c = true → bad false c = false
  function : ∀ f ∈ functions, ∀ c ∈ f, bad false c = false
  parens : bad false '(' = false ∧ bad false ')' = false

theorem fair_nothing : Fair nothing := ⟨fun _ _ => rfl, fun _ _ _ _ => rfl, rfl, rfl⟩

/-! ### Parts of a closed text -/

theorem closed_of_blank (h : ∀ c ∈ x, Text.isBlank c = true ∧ bad false c = false) : Closed bad x :=
  nesting_of_still fun c hc => ⟨(h c hc).2, still_of_isBlank (h c hc).1⟩

/-- Blanks around a closed text do not count. -/
theorem closed_trim_iff (hbad : Fair bad) :
    Closed bad (Text.trim x) ↔ Closed bad x := by
  obtain ⟨left, right, heq, hleft, hright⟩ := Text.exists_blanks x
  have hl : Closed bad left := closed_of_blank fun c hc => ⟨hleft c hc, hbad.blank c (hleft c hc)⟩
  have hr : Closed bad right := closed_of_blank fun c hc => ⟨hright c hc, hbad.blank c (hright c hc)⟩
  constructor
  · intro h
    rw [heq]
    exact (hl.append h).append hr
  · intro h
    rw [heq] at h
    exact h.of_append hl hr

/-- A call of a function with a closed argument is closed. -/
theorem closed_callOf {function : List Char}
    (hfunction : ∀ c ∈ function, bad false c = false ∧ c ∉ ['\'', '(', ')']) (hbad : Fair bad)
    (h : Closed bad x) : Closed bad (callOf function x) := by
  have hname : nesting bad 0 false function = some (0, false) := nesting_of_still hfunction
  have hargument : nesting bad 1 false x = some (1, false) := h.nesting_eq 1
  simp [Closed, callOf, nesting_append, nesting, hname, hargument, hbad.parens]

/-! ### Casts -/

/-- `AS` between blanks opens and closes nothing. -/
theorem still_of_asLength? {n : Nat} (h : asLength? cs = some n) : ∀ c ∈ cs.take n, c ∉ ['\'', '(', ')'] := by
  have hword : ∀ l ∈ "as".toList, Text.isWord l = true := by decide
  unfold asLength? at h
  dsimp only at h
  split at h
  case isTrue => cases h
  split at h
  case isFalse => cases h
  rename_i hstart
  split at h
  case isTrue => cases h
  cases h
  intro c hc
  rw [List.take_add, List.take_add, List.mem_append, List.mem_append] at hc
  rcases hc with (hc | hc) | hc
  · exact still_of_isBlank (Text.isBlank_of_mem_take hc)
  · obtain ⟨l, hl, hfold⟩ := Text.exists_foldsTo_of_mem_take hstart hc
    exact still_of_isWord (isWord_of_foldsTo (hword l hl) hfold)
  · exact still_of_isBlank (Text.isBlank_of_mem_take hc)

theorem asLength?_pos {n : Nat} (h : asLength? cs = some n) : 0 < n := by
  unfold asLength? at h
  dsimp only at h
  split_ifs at h
  cases h
  omega

/-- **What is read before an `AS` is closed where the whole is.** -/
theorem closed_of_splitAs {skip n : Nat} {quoted : Bool} {before type : List Char} {s : Nat × Bool}
    (h : splitAs skip n quoted before cs = some (operand, type))
    (hbefore : nesting bad 0 false before.reverse = some (n, quoted))
    (hskip : ∀ c ∈ cs.take skip, c ∉ ['\'', '(', ')']) (hall : nesting bad n quoted cs = some s) :
    Closed bad operand := by
  induction cs generalizing skip n quoted before with
  | nil => cases h
  | cons c cs ih =>
    obtain ⟨t, ht, hrest⟩ : ∃ t : Nat × Bool, nesting bad n quoted [c] = some t ∧
      nesting bad t.1 t.2 cs = some s := exists_nesting_of_append (x := [c]) hall
    have hnext : nesting bad 0 false (c :: before).reverse = some t := by
      rw [List.reverse_cons, nesting_append, hbefore]
      exact ht
    have hstill {skip : Nat} (hc : c ∉ ['\'', '(', ')']) (hskip : ∀ c ∈ cs.take skip, c ∉ ['\'', '(', ')'])
        (h : splitAs skip n quoted (c :: before) cs = some (operand, type)) : Closed bad operand := by
      cases eq_of_nesting_of_still (by simpa using hc) ht
      exact ih h hnext hskip hrest
    unfold splitAs at h
    split at h
    · rw [List.take_succ_cons] at hskip
      exact hstill (hskip c (List.mem_cons_self ..)) (fun d hd => hskip d (List.mem_cons_of_mem _ hd)) h
    · split at h
      · rename_i n' hn
        have htaken := still_of_asLength? hn
        have hpos := asLength?_pos hn
        obtain ⟨m, rfl⟩ : ∃ m, n' = m + 1 := ⟨n' - 1, by omega⟩
        rw [List.take_succ_cons, List.forall_mem_cons] at htaken
        dsimp only at h
        rw [Nat.add_sub_cancel] at h
        split at h
        · exact hstill htaken.1 htaken.2 h
        · rename_i hplace
          simp only [Bool.or_eq_true, bne_iff_ne, ne_eq, not_or, Bool.not_eq_true, not_not] at hplace
          cases hl : splitAs m n quoted (c :: before) cs with
          | none =>
            rw [hl] at h
            cases h
            obtain ⟨rfl, hn⟩ := hplace
            obtain rfl : n = 0 := by omega
            exact hbefore
          | some p =>
            rw [hl] at h
            cases h
            exact hstill htaken.1 htaken.2 hl
      · have hread {m : Nat} {quoted : Bool} (h : splitAs 0 m quoted (c :: before) cs = some (operand, type))
            (ht : t = (m, quoted)) : Closed bad operand := by
          subst ht
          exact ih h hnext (List.forall_mem_nil _) hrest
        unfold nesting at ht
        split at ht
        case isTrue => cases ht
        split_ifs at h ht with hquote hquoted hopen hclose hdepth
        · exact hread h (Option.some.inj ht).symm
        · exact hread h (Option.some.inj ht).symm
        · exact hread h (Option.some.inj ht).symm
        · have hless : (n : Int) - 1 = (n - 1 : Nat) := by omega
          rw [hless] at h
          exact hread h (Option.some.inj ht).symm
        · exact hread h (Option.some.inj ht).symm

theorem still_of_mem_functions {function : List Char} (h : function ∈ functions) :
    ∀ c ∈ function, c ∉ ['\'', '(', ')'] := by
  have hall : ∀ f ∈ functions, ∀ c ∈ f, c ∉ ['\'', '(', ')'] := by decide
  exact hall function h

/-- A cast of a closed text is closed. -/
theorem closed_convert {type function : List Char} (hbad : Fair bad) (h : conversion? type = some function)
    (hx : Closed bad x) : Closed bad (callOf function x) := by
  have hmem := mem_functions h
  exact closed_callOf (fun c hc => ⟨hbad.function _ hmem c hc, still_of_mem_functions hmem c hc⟩) hbad hx

/-- `CAST` keeps closed texts closed. -/
theorem closed_castCall? (hbad : Fair bad) {text : List Char} (h : castCall? cs = some text)
    (hcs : Closed bad cs) : Closed bad text := by
  simp only [castCall?, Option.bind_eq_bind, Option.bind_eq_some_iff] at h
  obtain ⟨⟨operand, type⟩, hsplit, function, hfunction, h⟩ := h
  cases h
  have hoperand : Closed bad operand :=
    closed_of_splitAs (n := 0) hsplit rfl (List.forall_mem_nil _) hcs
  exact closed_convert hbad hfunction ((closed_trim_iff hbad).2 hoperand)

/-- The conversion of `CAST` calls keeps closed texts closed. -/
theorem closed_convertCasts (hbad : Fair bad) (h : Closed bad x) : Closed bad (convertCasts x) :=
  nesting_replaceCallsFrom (by decide) (fun _ _ => closed_castCall? hbad) h

/-! ### Arguments -/

/-- **An argument of a closed list is closed** if the others are. -/
theorem closed_argument (l₁ l₂ : List (List Char)) (harguments : arguments cs = l₁ ++ operand :: l₂)
    (hothers : ∀ a ∈ l₁ ++ l₂, Closed nothing a) (hcs : Closed nothing cs) : Closed nothing operand := by
  obtain ⟨left, piece, right, heq, rfl, hleft, hright⟩ := exists_pieces_around l₁ l₂ harguments
  have hother {l kept : List (List Char)} (hl : ∀ q ∈ l, Text.trim q = [] ∨ Text.trim q ∈ kept)
      (hkept : ∀ a ∈ kept, Closed nothing a) : Closed nothing (l.flatMap (· ++ [','])) := by
    induction l with
    | nil => rfl
    | cons q l ih =>
      have hq : Closed nothing q := (closed_trim_iff fair_nothing).1 <| by
        rcases hl q (List.mem_cons_self ..) with hq | hq
        · rw [hq]
          rfl
        · exact hkept _ hq
      have hcomma : Closed nothing [','] := rfl
      rw [List.flatMap_cons]
      exact (hq.append hcomma).append (ih fun p hp => hl p (List.mem_cons_of_mem _ hp))
  have hcomma : Closed nothing [','] := rfl
  have hlist : Closed nothing (cs ++ [',']) := hcs.append hcomma
  rw [heq] at hlist
  have hpiece := hlist.of_append (hother hleft fun a ha => hothers a (List.mem_append_left _ ha))
    (hother hright fun a ha => hothers a (List.mem_append_right _ ha))
  exact (closed_trim_iff fair_nothing).2 (Closed.of_append (x := []) hpiece rfl hcomma)

/-- `btrim` keeps closed texts closed. -/
theorem closed_trimCall? {text : List Char} (h : trimCall? cs = some text) (hcs : Closed nothing cs) :
    Closed nothing text := by
  unfold trimCall? at h
  split at h
  case h_2 => cases h
  rename_i operand harguments
  cases h
  exact closed_callOf (by decide) fair_nothing (closed_argument [] [] harguments (fun _ h => nomatch h) hcs)

/-- Inside of quotes that do not end nothing is counted. -/
theorem nesting_of_quoteless {depth : Nat} (h : '\'' ∉ x) : nesting nothing depth true x = some (depth, true) := by
  induction x with
  | nil => rfl
  | cons c x ih =>
    rw [List.mem_cons, not_or] at h
    simp [nesting, nothing, Ne.symm h.1, ih h.2]

/-- Quotes around a text without quotes open and close nothing. -/
theorem closed_quoted (h : '\'' ∉ x) : Closed nothing ('\'' :: x ++ ['\'']) := by
  simp [Closed, nesting, nothing, nesting_append, nesting_of_quoteless h]

/-- A quoted unit of a table stands in one pair of quotes. -/
theorem exists_of_unit {α : Type} {table : List (String × α)} {v : α} {unit : List Char}
    (htable : ∀ p ∈ table, ∀ c ∈ ['\'', '"', '(', ')'], c ∉ p.1.toList) (hhead : unit.head? = some '\'')
    (htrim : Text.trim unit = unit) (h : table.lookup (unitKey (unquote unit)) = some v) :
    ∃ name, unit = '\'' :: name ++ ['\''] ∧ ∀ c ∈ ['\'', '"', '(', ')'], c ∉ name := by
  have hkey : ∀ c ∈ ['\'', '"', '(', ')'], c ∉ unquote unit := by
    intro c hc hmem
    have hlower : ∀ c ∈ ['\'', '"', '(', ')'], Text.lowerChar c = c ∧ (c == 'Σ') = false ∧ (c == 'İ') = false := by
      decide
    refine htable _ (mem_of_lookup h) c hc ?_
    rw [unitKey, String.toList_ofList]
    exact mem_lower (hlower c hc) hmem
  unfold unquote at hkey
  rw [htrim] at hkey
  obtain ⟨rest, rfl⟩ := List.head?_eq_some_iff.1 hhead
  cases rest with
  | nil => exact absurd (List.mem_singleton_self _) (hkey '\'' (by simp))
  | cons c rest =>
    dsimp only at hkey
    split at hkey
    case isFalse => exact absurd (List.mem_cons_self ..) (hkey '\'' (by simp))
    rename_i hquotes
    rw [Bool.and_eq_true, beq_iff_eq, List.getLast?_cons_cons] at hquotes
    obtain ⟨name, hname⟩ := List.getLast?_eq_some_iff.1 hquotes.2
    rw [List.drop_one, List.tail_cons, hname, List.dropLast_concat] at hkey
    exact ⟨name, by rw [hname, List.cons_append], hkey⟩

/-- A unit of a table and the argument besides it: the unit holds no marks between its quotes, and the argument is
closed. -/
theorem closed_unitAndOperand? {α : Type} {table : List (String × α)} {v : α} {unit : String}
    (htable : ∀ p ∈ table, ∀ c ∈ ['\'', '"', '(', ')'], c ∉ p.1.toList)
    (hoperand : unitAndOperand? cs = some (unit, operand)) (hunit : table.lookup unit = some v)
    (hcs : Closed nothing cs) : ∃ name, arguments cs = ['\'' :: name ++ ['\''], operand] ∧
      (∀ c ∈ ['\'', '"', '(', ')'], c ∉ name) ∧ Closed nothing operand := by
  unfold unitAndOperand? at hoperand
  split at hoperand
  case h_2 => cases hoperand
  rename_i quotedUnit _ harguments
  split at hoperand
  case isFalse => cases hoperand
  rename_i hquote
  cases hoperand
  obtain ⟨left, piece, right, -, htrim, -⟩ := exists_pieces_around [] [_] harguments
  obtain ⟨name, rfl, hname⟩ :=
    exists_of_unit htable (beq_iff_eq.1 hquote) (by rw [← htrim, Text.trim_trim]) hunit
  refine ⟨name, harguments, hname, closed_argument ['\'' :: name ++ ['\'']] [] harguments (fun a ha => ?_) hcs⟩
  rw [List.append_nil, List.mem_singleton] at ha
  exact ha ▸ closed_quoted (hname '\'' (by simp))

/-- `date_trunc` keeps closed texts closed. -/
theorem closed_truncCall? {text : List Char} (h : truncCall? cs = some text) (hcs : Closed nothing cs) :
    Closed nothing text := by
  simp only [truncCall?, Option.bind_eq_bind, Option.bind_eq_some_iff] at h
  obtain ⟨⟨unit, operand⟩, hoperand, ⟨left, right⟩, hunit, h⟩ := h
  cases h
  obtain ⟨-, -, -, hclosed⟩ := closed_unitAndOperand? (by decide) hoperand hunit hcs
  have hstarts : ∀ p ∈ unitStarts, nesting nothing 0 false p.2.1.toList = some (1, false) ∧
      nesting nothing 1 false p.2.2.toList = some (0, false) := by
    decide
  obtain ⟨hleft, hright⟩ := hstarts _ (mem_of_lookup hunit)
  rw [Closed, nesting_append, nesting_append, hleft, Option.bind_some, hclosed.nesting_eq 1]
  exact hright

theorem still_of_partFunctions {part function : String} (h : partFunctions.lookup part = some function) :
    ∀ c ∈ function.toList, nothing false c = false ∧ c ∉ ['\'', '(', ')'] := by
  have hall : ∀ p ∈ partFunctions, ∀ c ∈ p.2.toList, nothing false c = false ∧ c ∉ ['\'', '(', ')'] := by
    decide
  exact hall _ (mem_of_lookup h)

/-- `date_part` keeps closed texts closed. -/
theorem closed_partCall? {text : List Char} (h : partCall? cs = some text) (hcs : Closed nothing cs) :
    Closed nothing text := by
  simp only [partCall?, Option.bind_eq_bind, Option.bind_eq_some_iff] at h
  obtain ⟨⟨part, operand⟩, hoperand, function, hpart, h⟩ := h
  cases h
  obtain ⟨-, -, -, hclosed⟩ := closed_unitAndOperand? (by decide) hoperand hpart hcs
  exact closed_callOf (still_of_partFunctions hpart) fair_nothing hclosed

/-- What stands before the operand of `part from x` opens and closes nothing. -/
theorem exists_of_partFrom? {part : List Char} (h : partFrom? cs = some (part, operand)) :
    ∃ front, cs = front ++ operand ∧ ∀ c ∈ front, c ∉ ['\'', '(', ')'] := by
  unfold partFrom? at h
  dsimp only at h
  split at h
  case isTrue => cases h
  rename_i hparts
  simp only [Bool.or_eq_true, Bool.not_eq_true', not_or, Bool.not_eq_false] at hparts
  cases h
  have hblanks (x : List Char) : ∀ c ∈ x.take (Text.blankLength x), c ∉ ['\'', '(', ')'] := fun c hc =>
    still_of_isBlank (Text.isBlank_of_mem_take hc)
  generalize hstart : cs.drop (Text.blankLength cs) = start at hparts ⊢
  generalize hafter : start.dropWhile Text.isWord = after at hparts ⊢
  generalize hword : after.drop (Text.blankLength after) = word at hparts ⊢
  refine ⟨cs.take (Text.blankLength cs) ++ (start.takeWhile Text.isWord ++
    (after.take (Text.blankLength after) ++ word.take 4)), ?_, ?_⟩
  · rw [List.append_assoc, List.append_assoc, List.append_assoc, List.take_append_drop, ← hword,
      List.take_append_drop, ← hafter, List.takeWhile_append_dropWhile, ← hstart, List.take_append_drop]
  · intro c hc
    simp only [List.mem_append] at hc
    rcases hc with hc | hc | hc | hc
    · exact hblanks cs c hc
    · exact still_of_isWord (List.mem_takeWhile_imp hc)
    · exact hblanks after c hc
    · obtain ⟨l, hl, hfold⟩ := Text.exists_foldsTo_of_mem_take hparts.1.2 hc
      have hletters : ∀ l ∈ "from".toList, Text.isWord l = true := by decide
      exact still_of_isWord (isWord_of_foldsTo (hletters l hl) hfold)

/-- What follows `part from` is closed where the whole is. -/
theorem closed_of_partFrom? {part : List Char} (h : partFrom? cs = some (part, operand))
    (hcs : Closed nothing cs) : Closed nothing operand := by
  obtain ⟨front, rfl, hfront⟩ := exists_of_partFrom? h
  have hclosed : Closed nothing front := nesting_of_still fun c hc => ⟨rfl, hfront c hc⟩
  rw [← List.append_nil (front ++ operand)] at hcs
  exact hcs.of_append hclosed rfl

/-- `extract` keeps closed texts closed. -/
theorem closed_extractCall? {text : List Char} (h : extractCall? cs = some text) (hcs : Closed nothing cs) :
    Closed nothing text := by
  simp only [extractCall?, Option.bind_eq_bind, Option.bind_eq_some_iff] at h
  obtain ⟨⟨part, operand⟩, hoperand, function, hpart, h⟩ := h
  cases h
  refine closed_callOf (still_of_partFunctions hpart) fair_nothing ((closed_trim_iff fair_nothing).2 ?_)
  exact closed_of_partFrom? hoperand hcs

end Sql
end CardTransfer
