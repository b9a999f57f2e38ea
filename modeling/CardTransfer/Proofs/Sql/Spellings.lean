import CardTransfer.Proofs.Sql.CastOperand
import Mathlib.Data.List.DropRight

/-!
# The two spellings of a cast

`x::type` and `CAST(x AS type)` are recognised by unrelated rules. Each is followed through the two rules of casts
(`convertCasts_wordCast`, `convertPostfixCasts_colonCast`) and the other rules, which do to operand and type what
they do to each alone (`finish_callOf`, `finish_wordCast`, `finish_colonCast`).

They agree where the type name that is read behind the colons, with its size, is the whole of the type, blanks
apart (`ReadWhole`): then both become the same call of the same function, or both stay and are reported
(`spellings_agree`). Where something is left of the type, the cast is converted in the first spelling all the same,
and what is left stays behind the call: so it is with arrays (`array_half_converted`). And a name that stands before
its parenthesis with blanks between is an operand of `CAST` only (`convertPostfixCasts_gap`).
-/

namespace CardTransfer
namespace Sql

open Text (isBlank isWord lastOr)

variable {x y z e w type function rest before : List Char}

/-- `x::type` -/
def colonCast (operand type : List Char) : List Char := operand ++ ':' :: ':' :: type

/-- `CAST(x AS type)` -/
def wordCast (operand type : List Char) : List Char :=
  "CAST(".toList ++ (operand ++ (" AS ".toList ++ (type ++ [')'])))

theorem wordCast_eq (operand type : List Char) :
    wordCast operand type = "CAST(".toList ++ (operand ++ (" AS ".toList ++ (type ++ [')']))) := rfl

/-! ### Types without `AS` -/

/-- No `AS` stands between blanks in a text. -/
def NoAs (x : List Char) : Prop := ∀ y, y <:+ x → asLength? y = none

theorem isSome_asLength? : (asLength? x).isSome = true ↔
    Text.blankLength x ≠ 0 ∧ Text.startsWith "as".toList (x.drop (Text.blankLength x)) = true ∧
      Text.blankLength (x.drop (Text.blankLength x + 2)) ≠ 0 := by
  unfold asLength?
  dsimp only
  split_ifs <;> simp_all

/-- `AS` is seen as well with more text behind it. -/
theorem isSome_asLength?_append (h : (asLength? x).isSome = true) (z : List Char) :
    (asLength? (x ++ z)).isSome = true := by
  rw [isSome_asLength?] at h ⊢
  obtain ⟨hgap, hstart, hafter⟩ := h
  have hlong : Text.blankLength x + 2 ≤ x.length := by
    have hle := Text.length_le_of_startsWith hstart
    rw [List.length_drop] at hle
    simp only [String.reduceToList, List.length_cons, List.length_nil] at hle
    omega
  have hsame : Text.blankLength (x ++ z) = Text.blankLength x := by
    unfold Text.blankLength at hlong ⊢
    rw [List.takeWhile_append, if_neg (by omega)]
  have hmore {y : List Char} (hy : Text.blankLength y ≠ 0) : Text.blankLength (y ++ z) ≠ 0 := by
    unfold Text.blankLength at hy ⊢
    rw [List.takeWhile_append]
    split
    · rw [List.length_append]
      omega
    · exact hy
  rw [hsame, List.drop_append_of_le_length (by omega), List.drop_append_of_le_length hlong]
  refine ⟨hgap, ?_, hmore hafter⟩
  rw [← List.take_append_drop "as".toList.length (x.drop (Text.blankLength x)), List.append_assoc]
  exact startsWith_of_folds (folds_of_startsWith hstart) _

theorem NoAs.of_append (h : NoAs (x ++ (y ++ z))) : NoAs y := by
  intro u hu
  by_contra hsome
  have hlonger : u ++ z <:+ x ++ (y ++ z) := by
    obtain ⟨v, rfl⟩ := hu
    exact ⟨x ++ v, by simp⟩
  have hagain := isSome_asLength?_append (Option.isSome_iff_ne_none.2 hsome) z
  rw [h _ hlonger] at hagain
  cases hagain

/-- Nothing is split at an `AS` that is not there. -/
theorem splitAs_eq_none {skip : Nat} {depth : Int} {quoted : Bool} (h : NoAs (x.drop skip)) :
    splitAs skip depth quoted before x = none := by
  induction x generalizing skip depth quoted before with
  | nil => rfl
  | cons c x ih =>
    cases skip with
    | succ skip =>
      rw [splitAs]
      exact ih h
    | zero =>
      have hlater : NoAs (x.drop 0) := fun y hy => h y (hy.trans (List.suffix_cons c x))
      have hnone : asLength? (c :: x) = none := h _ (List.suffix_refl _)
      rw [splitAs, hnone]
      dsimp only
      split_ifs <;> exact ih hlater

/-- Without `AS` no `CAST` is converted. -/
theorem replaceCallsFrom_of_noAs {previous : Option Char} {quoted : Bool} (h : NoAs x) :
    replaceCallsFrom "cast".toList castCall? previous quoted x = x := by
  fun_induction replaceCallsFrom "cast".toList castCall? previous quoted x with
  | case1 => rfl
  | case2 previous quoted c rest hn ih =>
    simp only [dite_eq_ite] at ih
    rw [ih fun y hy => h y (hy.trans (List.suffix_cons c rest))]
  | case3 =>
    rename_i previous c rest n hn head ih
    rw [ih fun y hy => h y (hy.trans (List.drop_suffix n _)), List.take_append_drop]
  | case4 => rfl
  | case5 =>
    rename_i previous quoted c rest n hn head hq inner after hs arguments ih₁ ih₂
    have hsplit := splitPartner_eq hs
    have htext := List.take_append_drop n (c :: rest)
    rw [hsplit] at htext
    have hinner : NoAs inner := NoAs.of_append (by rw [htext]; exact h)
    have hafter : NoAs after := fun y hy => h y (hy.trans ⟨(c :: rest).take n ++ (inner ++ [')']), by
      simpa using htext⟩)
    have harguments : arguments = inner := ih₁ hinner
    have hnone : splitAs 0 0 false [] inner = none := splitAs_eq_none hinner
    have hhandler : castCall? inner = none := by simp [castCall?, hnone]
    rw [harguments, hhandler, ih₂ hafter]
    simpa [head] using htext

/-! ### `CAST` -/

theorem asLength?_as (x : List Char) : asLength? (" AS ".toList ++ x) = some (4 + Text.blankLength x) := by
  have hgap : Text.blankLength (" AS ".toList ++ x) = 1 := rfl
  have hafter : Text.blankLength ((" AS ".toList ++ x).drop 3) = Text.blankLength x + 1 := by
    simp [Text.blankLength, show isBlank ' ' = true by decide]
  have hstart : Text.startsWith "as".toList ((" AS ".toList ++ x).drop 1) = true := rfl
  unfold asLength?
  dsimp only
  rw [hgap, hafter, if_neg (by decide), if_pos hstart, if_neg (by simp)]
  congr 1
  omega

/-- What stands behind the last `AS` is the type. -/
theorem splitAs_as (he : IsOperand e) (h : NoAs type) :
    splitAs 0 0 false [] (e ++ (" AS ".toList ++ type)) = some (e, type.dropWhile isBlank) := by
  have hstart : splitAs 0 0 false e.reverse (" AS ".toList ++ type) =
      some ((splitAs (3 + Text.blankLength type) 0 false (' ' :: e.reverse) ("AS ".toList ++ type)).getD
        (e, (" AS ".toList ++ type).drop (4 + Text.blankLength type))) := by
    have hsees := asLength?_as type
    change splitAs 0 0 false e.reverse (' ' :: ("AS ".toList ++ type)) = _
    change asLength? (' ' :: ("AS ".toList ++ type)) = _ at hsees
    rw [splitAs, hsees]
    simp [show 4 + Text.blankLength type - 1 = 3 + Text.blankLength type by omega]
  have hdrop : (" AS ".toList ++ type).drop (4 + Text.blankLength type) = type.dropWhile isBlank := by
    rw [← List.drop_drop, ← Text.drop_blankLength]
    rfl
  have hrest : NoAs (("AS ".toList ++ type).drop (3 + Text.blankLength type)) := by
    rw [← List.drop_drop]
    exact fun y hy => h y (hy.trans (List.drop_suffix (Text.blankLength type) type))
  rw [splitAs_operand he, List.append_nil, hstart, splitAs_eq_none hrest, hdrop]
  rfl

/-- Blanks before a type do not count. -/
theorem conversion?_dropWhile (type : List Char) : conversion? (type.dropWhile isBlank) = conversion? type := by
  have htrim : Text.trim (type.dropWhile isBlank) = Text.trim type := by
    rw [Text.trim, Text.trim, Text.trimStart, Text.trimStart, List.dropWhile_idempotent]
  simp [conversion?, typeKey, htrim]

theorem castCall?_as (he : IsOperand e) (h : NoAs type) :
    castCall? (e ++ (" AS ".toList ++ type)) = (conversion? type).map fun function => callOf function e := by
  simp only [castCall?, splitAs_as he h, Option.bind_eq_bind, Option.bind_some, conversion?_dropWhile, he.trim_eq]
  cases conversion? type <;> rfl

/-- What a type may look like: it has no quotes, colons and line ends, its parentheses match, and there is no `AS`
in it. -/
structure IsType (type : List Char) : Prop where
  plain : ∀ c ∈ type, c ∉ ['\'', ':', '\n']
  closed : Closed nothing type
  noAs : NoAs type

/-- Where no letter can begin the name, no call of `CAST` does. -/
theorem replaceCallsFrom_pass {previous : Option Char} (h : ∀ c ∈ x, Text.foldsTo 'c' c = false ∧ c ≠ '\'')
    (v : List Char) : replaceCallsFrom "cast".toList castCall? previous false (x ++ v) =
      x ++ replaceCallsFrom "cast".toList castCall? (Text.lastOr previous x) false v := by
  induction x generalizing previous with
  | nil => rfl
  | cons c x ih =>
    rw [List.forall_mem_cons] at h
    have hnone : callHead? "cast".toList previous (c :: (x ++ v)) = none := by
      simp [callHead?, Text.wordThen?, Text.word?, Text.startsWith, h.1.1]
    rw [List.cons_append, replaceCallsFrom_cons_none hnone, if_neg (by simpa using h.1.2), ih h.2]
    rfl

/-- Calls of `CAST` before a type are replaced as if the type were not there. -/
theorem replaceCallsFrom_before_type {mark : List Char} (he : IsOperand e) (h : NoAs type)
    (hmark : ∀ c ∈ mark, Text.foldsTo 'c' c = false ∧ c ≠ '\'') (hends : EndsHead (mark ++ type)) :
    replaceCallsFrom "cast".toList castCall? none false (e ++ (mark ++ type)) =
      convertCasts e ++ (mark ++ type) := by
  rw [replaceCallsFrom_append_of_nesting isWord_cast hends he.closed, replaceCallsFrom_pass hmark,
    replaceCallsFrom_of_noAs h]
  rfl

theorem endsHead_as (type : List Char) : EndsHead (" AS ".toList ++ type) := by
  constructor
  · rfl
  · exact fun heq => absurd (Option.some.inj heq) (by decide)

/-- **`CAST` is converted, or only its operand is.** -/
theorem convertCasts_wordCast (he : IsOperand e) (h : IsType type) : convertCasts (wordCast e type) =
    match conversion? type with
    | some function => callOf function (convertCasts e)
    | none => wordCast (convertCasts e) type := by
  have hword (e : List Char) :
      wordCast e type = "CAST(".toList ++ ((e ++ (" AS ".toList ++ type)) ++ [')']) := by
    rw [wordCast_eq, List.append_assoc e, List.append_assoc " AS ".toList]
  have hclosed : Closed nothing (e ++ (" AS ".toList ++ type)) :=
    he.closed.append (Closed.append (x := " AS ".toList) rfl h.closed)
  have hsplit : splitClosing ((wordCast e type).drop 5) = some (e ++ (" AS ".toList ++ type), []) := by
    rw [hword]
    exact splitPartner_closed hclosed []
  have hhead : callHead? "cast".toList none (wordCast e type) = some 5 := by
    rw [hword]
    rfl
  have htake : (wordCast e type).take 5 = "CAST(".toList := by
    rw [hword]
    rfl
  have hinner := replaceCallsFrom_before_type he h.noAs (by decide) (endsHead_as type)
  rw [convertCasts, replaceCalls, replaceCallsFrom_call hhead hsplit, hinner, castCall?_as he.convertCasts h.noAs,
    replaceCallsFrom_of_parenless isWord_cast List.not_mem_nil, List.append_nil]
  cases conversion? type with
  | some function => rfl
  | none =>
    dsimp only [Option.map_none, Option.getD_none]
    rw [htake, hword (convertCasts e)]
    exact List.append_assoc ..

/-- Behind colons nothing is a call of `CAST`. -/
theorem convertCasts_colonCast (he : IsOperand e) (h : IsType type) :
    convertCasts (colonCast e type) = colonCast (convertCasts e) type := by
  have hends : EndsHead ("::".toList ++ type) := by
    constructor
    · rfl
    · exact fun heq => absurd (Option.some.inj heq) (by decide)
  exact replaceCallsFrom_before_type he h.noAs (by decide) hends

/-! ### Postfix casts -/

/-- What stands behind an operand and holds no colons stays. -/
theorem convertPostfixFrom_rest (h : ':' ∉ x) : convertPostfixFrom before x = before.reverse ++ x := by
  have hrun : convertPostfixFrom before (x ++ []) = convertPostfixFrom (x.reverse ++ before) [] :=
    convertPostfixFrom_of_colonless h []
  rw [List.append_nil, convertPostfixFrom_nil] at hrun
  rw [hrun]
  simp

theorem isFront_nil : IsFront [] := fun _ _ => List.not_mem_nil

theorem IsFront.append (hx : IsFront x) (hy : IsFront y) : IsFront (x ++ y) := fun c hc hmem =>
  (List.mem_append.1 hmem).elim (hx c hc) (hy c hc)

theorem isFront_of_functions (h : function ∈ functions) : IsFront (function ++ ['(']).reverse := by
  have hall : ∀ f ∈ functions, ∀ c ∈ ['\'', '"', '\x7b'], c ∉ (f ++ ['(']).reverse := by decide
  exact hall function h

theorem colon_notMem_functions (h : function ∈ functions) : ':' ∉ function ++ ['('] := by
  have hall : ∀ f ∈ functions, ':' ∉ f ++ ['('] := by decide
  exact hall function h

/-- In the call that is written for a cast, the casts of the operand are converted. -/
theorem convertPostfixFrom_call (h : Converts e x) (hfunction : function ∈ functions) (hrest : ':' ∉ rest)
    (hw : IsFront w) :
    convertPostfixFrom w (callOf function e ++ rest) = w.reverse ++ (callOf function x ++ rest) := by
  have hsplit (e : List Char) : callOf function e ++ rest = (function ++ ['(']) ++ (e ++ ')' :: rest) := by
    simp [callOf]
  have hfront : IsFront ((function ++ ['(']).reverse ++ w) := (isFront_of_functions hfunction).append hw
  have hrest' : ':' ∉ ')' :: rest := by simp [hrest]
  rw [hsplit, hsplit, convertPostfixFrom_of_colonless (colon_notMem_functions hfunction), h _ _ hfront,
    convertPostfixFrom_rest hrest']
  simp

/-- What is left behind a type is a part of the text. -/
theorem suffix_of_typeReading (h : typeReading type = some (function, rest)) : rest <:+ type := by
  obtain ⟨name, htype, -⟩ := typeReading_eq_some.1 h
  obtain ⟨-, -, gap, size, rfl, -⟩ := exists_of_castType? htype
  exact ⟨gap ++ name ++ size, by simp⟩

/-- **Behind colons the cast is converted as far as the type is read**, or only its operand is, whatever stands
before the operand and is not read with it. -/
theorem convertPostfixFrom_colonCast (he : IsOperand x) (hrun : Converts e x) (hagain : Converts x x)
    (h : IsType type) (hw : IsFront w) (hread : splitOperand (x.reverse ++ w) = some (x.reverse, w)) :
    convertPostfixFrom w (colonCast e type) = w.reverse ++
      match typeReading type with
      | some (function, rest) => callOf function x ++ rest
      | none => colonCast x type := by
  have hcolon : ':' ∉ type := fun hmem => h.plain _ hmem (by decide)
  have heven : oddQuotes (x.reverse ++ w) = false := by
    have hquotes : oddQuotes x.reverse = oddQuotes x := by rw [oddQuotes, List.count_reverse, oddQuotes]
    rw [oddQuotes_append, hw.even, hquotes, he.closed.even]
    rfl
  have hcast := castAt?_colons heven type
  rw [hread] at hcast
  rw [colonCast, hrun w _ hw]
  cases htype : typeReading type with
  | some p =>
    obtain ⟨function, rest⟩ := p
    rw [htype] at hcast
    obtain ⟨name, -, hfunction⟩ := typeReading_eq_some.1 htype
    have hrest : ':' ∉ rest := fun hmem => hcolon ((suffix_of_typeReading htype).subset hmem)
    rw [convertPostfixFrom_converted hcast, List.reverse_reverse]
    exact convertPostfixFrom_call hagain (mem_functions hfunction) hrest hw
  | none =>
    rw [htype] at hcast
    have hsecond : castAt? (':' :: (x.reverse ++ w)) (':' :: type) = none := castAt?_of_ne fun tail heq =>
      hcolon (by rw [(List.cons.inj heq).2]; exact List.mem_cons_self ..)
    rw [convertPostfixFrom_stays hcast, convertPostfixFrom_stays hsecond, convertPostfixFrom_rest hcolon]
    simp [colonCast]

theorem convertPostfixCasts_colonCast (he : IsOperand e) (h : IsType type) :
    convertPostfixCasts (colonCast e type) =
      match typeReading type with
      | some (function, rest) => callOf function (convertPostfixCasts e) ++ rest
      | none => colonCast (convertPostfixCasts e) type := by
  obtain ⟨he', hrun, hagain⟩ := he.convertPostfixCasts
  have hread : splitOperand ((convertPostfixCasts e).reverse ++ []) = _ :=
    (congrArg splitOperand (List.append_nil _)).trans (splitOperand_operand he')
  exact convertPostfixFrom_colonCast he' hrun hagain h isFront_nil hread

/-- **A name is no part of the operand if blanks stand between it and the parenthesis.** The call that is written
for the cast stands behind the name then, around the parenthesis alone. -/
theorem convertPostfixCasts_gap {name gap args : List Char} (hname : ∀ c ∈ name, isWord c = true)
    (hne : gap ≠ []) (hgap : ∀ c ∈ gap, isBlank c = true) (hargs : Regular args) (h : IsType type)
    (hfunction : typeReading type = some (function, rest)) :
    convertPostfixCasts (colonCast (name ++ gap ++ callOf [] args) type) =
      name ++ gap ++ (callOf function (callOf [] (convertPostfixCasts args)) ++ rest) := by
  have hchars : ∀ c ∈ name ++ gap, isWord c = true ∨ isBlank c = true := fun c hc =>
    (List.mem_append.1 hc).imp (hname c) (hgap c)
  have hplain : ∀ c ∈ ['\'', '"', '\x7b', ':'], isWord c = false ∧ isBlank c = false := by decide
  have hcolon : ':' ∉ name ++ gap := fun hmem => by
    have hchar := hchars _ hmem
    simp [hplain ':' (by simp)] at hchar
  have hw : IsFront (name ++ gap).reverse := fun c hc hmem => by
    have hchar := hchars c (List.mem_reverse.1 hmem)
    simp [hplain c (List.mem_append_left [':'] hc)] at hchar
  have hhead : ∀ c, (name ++ gap).reverse.head? = some c → isWord c = false ∧ c ≠ '.' := by
    obtain ⟨gap, d, rfl⟩ := (List.eq_nil_or_concat' gap).resolve_left hne
    have hd := hgap d (by simp)
    rw [← List.append_assoc, List.reverse_concat]
    rintro c ⟨⟩
    exact ⟨isWord_of_isBlank hd, by rintro rfl; exact absurd hd (by decide)⟩
  have hargs' := hargs.convertPostfixCasts
  have hname' : ∀ c ∈ ([] : List Char), isWord c = true := List.forall_mem_nil _
  have hrun : Converts (callOf [] args) (callOf [] (convertPostfixCasts args)) := fun w v hw =>
    convertPostfixFrom_callOf hname' hargs hw v
  have hagain : Converts (callOf [] (convertPostfixCasts args)) (callOf [] (convertPostfixCasts args)) := by
    intro w v hw
    rw [convertPostfixFrom_callOf hname' hargs' hw v, convertPostfixCasts_idem hargs]
  have hcast := convertPostfixFrom_colonCast (.call hname' hargs') hrun hagain h hw
    (splitOperand_callOf hname' hargs'.closed hhead)
  have hsplit : colonCast (name ++ gap ++ callOf [] args) type =
      (name ++ gap) ++ colonCast (callOf [] args) type := by
    simp [colonCast]
  rw [hfunction, List.reverse_reverse] at hcast
  rw [convertPostfixCasts, hsplit, convertPostfixFrom_of_colonless hcolon, List.append_nil, hcast]

/-- In a `CAST` that has been left, the casts of the operand are converted. -/
theorem convertPostfixCasts_wordCast (he : IsOperand e) (h : IsType type) :
    convertPostfixCasts (wordCast e type) = wordCast (convertPostfixCasts e) type := by
  obtain ⟨-, hrun, -⟩ := he.convertPostfixCasts
  have hcolon : ':' ∉ type := fun hmem => h.plain _ hmem (by decide)
  have hrest : ':' ∉ " AS ".toList ++ (type ++ [')']) := by simp [hcolon]
  have hcast : ':' ∉ "CAST(".toList := by decide
  have hfront : IsFront ("CAST(".toList.reverse) := by
    have hall : ∀ c ∈ ['\'', '"', '\x7b'], c ∉ "CAST(".toList.reverse := by decide
    exact hall
  rw [Sql.convertPostfixCasts, wordCast_eq, convertPostfixFrom_of_colonless hcast, List.append_nil, hrun _ _ hfront,
    convertPostfixFrom_rest hrest]
  simp [wordCast_eq]

/-! ### The other rules -/

/-- The other rules do to the argument of a call that is written for a cast what they do to it alone. -/
theorem finish_callOf (hfunction : function ∈ functions) (h : Closed nothing x) (rest : List Char) :
    finish (callOf function x ++ rest) = callOf function (finish x) ++ finish rest := by
  have hstart : IsStart (function ++ ['(']) :=
    .front (List.mem_cons_of_mem _ (List.mem_cons_of_mem _ (List.mem_map_of_mem hfunction)))
  have hmark : IsMark [')'] := .sign (by decide) (by decide) (by decide)
  have hsplit (x rest : List Char) :
      callOf function x ++ rest = (function ++ ['(']) ++ (x ++ ([')'] ++ rest)) := by
    simp [callOf]
  rw [hsplit, finish_start hstart, finish_mark hmark h, ← hsplit]

theorem finish_nil : finish [] = [] := by
  have hcalls (function : String) (handler : List Char → Option (List Char)) :
      replaceCalls function handler [] = [] := by
    rw [replaceCalls, replaceCallsFrom]
  simp only [finish, replaceDatePart, replaceDateTrunc, hcalls]
  rfl

/-- Blanks stay. -/
theorem finish_of_isBlank (h : ∀ c ∈ x, isBlank c = true) : finish x = x := by
  induction x with
  | nil => exact finish_nil
  | cons c x ih =>
    rw [List.forall_mem_cons] at h
    have hquote : c ≠ '\'' := by
      rintro rfl
      exact absurd h.1 (by decide)
    rw [← List.singleton_append, finish_start (.sign (isWord_of_isBlank h.1) hquote), ih h.2]

theorem finish_colonCast (h : Closed nothing x) (type : List Char) :
    finish (colonCast x type) = colonCast (finish x) (finish type) := by
  have hmark : IsMark [':'] := .sign (by decide) (by decide) (by decide)
  have hstart : IsStart [':'] := .sign (by decide) (by decide)
  have hcolons (x type : List Char) : colonCast x type = x ++ ([':'] ++ ([':'] ++ type)) := rfl
  rw [hcolons, hcolons, finish_mark hmark h, finish_start hstart]

theorem finish_wordCast (h : Closed nothing x) (htype : Closed nothing type) :
    finish (wordCast x type) = wordCast (finish x) (finish type) := by
  have hstart : IsStart "CAST(".toList := .front (List.mem_cons_self ..)
  have hmark : IsMark ([' '] ++ "AS ".toList) :=
    .front (List.cons_ne_nil _ _) (by decide) (List.mem_cons_of_mem _ (List.mem_cons_self ..))
  have hclose : IsMark [')'] := .sign (by decide) (by decide) (by decide)
  have has : " AS ".toList = [' '] ++ "AS ".toList := rfl
  have hend : type ++ [')'] = type ++ ([')'] ++ []) := rfl
  rw [wordCast_eq, finish_start hstart, has, finish_mark hmark h, hend, finish_mark hclose htype, finish_nil]
  rfl

/-! ### The report -/

theorem seen_of_append {sees : Sight} {before : Option Char} {c : Char} {v : List Char}
    (h : sees (lastOr before x) (c :: v) = true) : sees.seen before (x ++ c :: v) = true := by
  induction x generalizing before with
  | nil =>
    rw [List.nil_append, Sight.seen, Bool.or_eq_true]
    exact .inl h
  | cons d x ih =>
    rw [List.cons_append, Sight.seen, Bool.or_eq_true]
    exact .inr (ih h)

/-- What is seen behind a text without quotes that follows closed literals is reported. -/
theorem mem_residual {name : String} {sight : Sight} {mark : List Char} (hmem : (name, sight) ∈ constructs)
    (hmark : '\'' ∉ mark) (hne : mark ≠ []) (heven : oddQuotes x = false)
    (hsees : ∀ v, sight (lastOr none (emptyLiterals x)) (mark ++ v) = true) (y : List Char) :
    name ∈ residual (x ++ (mark ++ y)) := by
  obtain ⟨c, mark, rfl⟩ := List.exists_cons_of_ne_nil hne
  have hseen : sight.seen none (emptyLiterals x ++ c :: (mark ++ emptyLiterals y)) = true :=
    seen_of_append (hsees (emptyLiterals y))
  have hbare := emptyLiterals_quoteless hmark hne heven y
  rw [residual, List.mem_map]
  refine ⟨(name, sight), List.mem_filter.2 ⟨hmem, ?_⟩, rfl⟩
  rw [hbare]
  exact hseen

/-! ### The two spellings -/

/-- Nothing but blanks is left of a type when it has been read behind colons. -/
def ReadWhole (type : List Char) : Prop :=
  ∀ function rest, typeReading type = some (function, rest) → ∀ c ∈ rest, isBlank c = true

theorem applyRules_wordCast (he : IsOperand e) (h : IsType type) (hfunction : conversion? type = some function) :
    applyRules (wordCast e type) = callOf function (applyRules e) := by
  obtain ⟨he', hrun, -⟩ := he.convertCasts.convertPostfixCasts
  have hmem := mem_functions hfunction
  have hcall : convertPostfixCasts _ = _ := convertPostfixFrom_call hrun hmem List.not_mem_nil isFront_nil
  have hfinish := finish_callOf hmem he'.closed []
  rw [List.append_nil, List.append_nil, List.reverse_nil, List.nil_append] at hcall
  rw [List.append_nil, finish_nil, List.append_nil] at hfinish
  rw [applyRules_eq, convertCasts_wordCast he h, hfunction, applyRules_eq]
  dsimp only
  rw [hcall, hfinish]

theorem applyRules_wordCast_none (he : IsOperand e) (h : IsType type) (hnone : conversion? type = none) :
    applyRules (wordCast e type) = wordCast (applyRules e) (finish type) := by
  obtain ⟨he', -, -⟩ := he.convertCasts.convertPostfixCasts
  rw [applyRules_eq, convertCasts_wordCast he h, hnone, applyRules_eq]
  dsimp only
  rw [convertPostfixCasts_wordCast he.convertCasts h, finish_wordCast he'.closed h.closed]

theorem applyRules_colonCast (he : IsOperand e) (h : IsType type)
    (hfunction : typeReading type = some (function, rest)) :
    applyRules (colonCast e type) = callOf function (applyRules e) ++ finish rest := by
  obtain ⟨he', -, -⟩ := he.convertCasts.convertPostfixCasts
  obtain ⟨name, -, hname⟩ := typeReading_eq_some.1 hfunction
  rw [applyRules_eq, convertCasts_colonCast he h, convertPostfixCasts_colonCast he.convertCasts h, hfunction,
    applyRules_eq]
  exact finish_callOf (mem_functions hname) he'.closed rest

theorem applyRules_colonCast_none (he : IsOperand e) (h : IsType type) (hnone : typeReading type = none) :
    applyRules (colonCast e type) = colonCast (applyRules e) (finish type) := by
  obtain ⟨he', -, -⟩ := he.convertCasts.convertPostfixCasts
  rw [applyRules_eq, convertCasts_colonCast he h, convertPostfixCasts_colonCast he.convertCasts h, hnone,
    applyRules_eq]
  exact finish_colonCast he'.closed type

/-- A `CAST` is reported, and so are colons behind closed literals. -/
theorem wordCast_reported (x type : List Char) : "cast" ∈ residual (wordCast x type) := by
  have hmem : ("cast", called "cast") ∈ constructs := by simp [constructs]
  have hmark : '\'' ∉ "CAST(".toList := by decide
  have hsees (v : List Char) : called "cast" none ("CAST(".toList ++ v) = true := rfl
  exact mem_residual hmem hmark (by decide) (oddQuotes_of_quoteless List.not_mem_nil) hsees _

theorem colonCast_reported (heven : oddQuotes x = false) (type : List Char) :
    "postfix cast" ∈ residual (colonCast x type) := by
  have hmem : ("postfix cast", fixedText "::") ∈ constructs := by simp [constructs]
  have hmark : '\'' ∉ "::".toList := by decide
  have hsees (v : List Char) : fixedText "::" (lastOr none (emptyLiterals x)) ("::".toList ++ v) = true := rfl
  exact mem_residual hmem hmark (by decide) heven hsees type

theorem oddQuotes_applyRules (he : IsOperand e) : oddQuotes (applyRules e) = false :=
  oddQuotes_finish he.convertCasts.convertPostfixCasts.1.closed

/-- **The two spellings of a cast agree where the type is read as a whole behind colons.** Either both become a
call of the same function with the same argument, with nothing but blanks of the type left behind it, or both stay
casts of the same operand and are reported. Where the type is not read as a whole, the cast is converted behind
colons all the same, in front of what is left, whatever becomes of the `CAST`. -/
theorem spellings_agree (he : IsOperand e) (hT : IsType type) :
    (ReadWhole type →
      (∀ function, conversion? type = some function → ∃ rest, (∀ c ∈ rest, isBlank c = true) ∧ rest <:+ type ∧
        applyRules (colonCast e type) = callOf function (applyRules e) ++ rest ∧
        applyRules (wordCast e type) = callOf function (applyRules e)) ∧
      (conversion? type = none →
        applyRules (colonCast e type) = colonCast (applyRules e) (finish type) ∧
        "postfix cast" ∈ residual (applyRules (colonCast e type)) ∧
        applyRules (wordCast e type) = wordCast (applyRules e) (finish type) ∧
        "cast" ∈ residual (applyRules (wordCast e type)))) ∧
    (¬ReadWhole type → ∃ function ∈ functions, ∃ rest, rest <:+ type ∧ (∃ c ∈ rest, isBlank c = false) ∧
      applyRules (colonCast e type) = callOf function (applyRules e) ++ finish rest ∧
      (applyRules (wordCast e type) = callOf function (applyRules e) ∨
        applyRules (wordCast e type) = wordCast (applyRules e) (finish type))) := by
  refine ⟨fun hwhole => ⟨fun function hfunction => ?converted, fun hnone => ?stays⟩, fun hpart => ?part⟩
  case converted =>
    obtain ⟨rest, hreading⟩ := exists_typeReading hfunction
    have hblank := hwhole _ _ hreading
    have hcolon := applyRules_colonCast he hT hreading
    rw [finish_of_isBlank hblank] at hcolon
    exact ⟨rest, hblank, suffix_of_typeReading hreading, hcolon, applyRules_wordCast he hT hfunction⟩
  case stays =>
    have hline : '\n' ∉ type := fun hmem => hT.plain _ hmem (by decide)
    have hreading : typeReading type = none := by
      rw [Option.eq_none_iff_forall_ne_some]
      rintro ⟨function, rest⟩ hreading
      rw [conversion?_of_typeReading hline hreading (hwhole _ _ hreading)] at hnone
      cases hnone
    have hcolon := applyRules_colonCast_none he hT hreading
    have hword := applyRules_wordCast_none he hT hnone
    refine ⟨hcolon, ?_, hword, ?_⟩
    · rw [hcolon]
      exact colonCast_reported (oddQuotes_applyRules he) _
    · rw [hword]
      exact wordCast_reported ..
  case part =>
    simp only [ReadWhole, not_forall, Bool.not_eq_true] at hpart
    obtain ⟨function, rest, hreading, c, hc, hblank⟩ := hpart
    obtain ⟨name, -, hname⟩ := typeReading_eq_some.1 hreading
    refine ⟨function, mem_functions hname, rest, suffix_of_typeReading hreading, ⟨c, hc, hblank⟩,
      applyRules_colonCast he hT hreading, ?_⟩
    cases hconversion : conversion? type with
    | none => exact .inr (applyRules_wordCast_none he hT hconversion)
    | some other =>
      -- the type before its size is all that a `CAST` looks up, and it is read behind colons as well
      obtain ⟨rest', hreading'⟩ := exists_typeReading hconversion
      rw [hreading] at hreading'
      cases hreading'
      exact .inl (applyRules_wordCast he hT hconversion)

theorem noAs_of_tails (h : ∀ y ∈ x.tails, asLength? y = none) : NoAs x := fun y hy =>
  h y ((List.mem_tails y x).2 hy)

/-- A type with a size is read as a whole, and the two spellings become the same call. -/
theorem spellings_agree_varchar : ∃ rest, (∀ c ∈ rest, isBlank c = true) ∧ rest <:+ "varchar(10)".toList ∧
    applyRules (colonCast "lower(name)".toList "varchar(10)".toList) =
      callOf "toString".toList (applyRules "lower(name)".toList) ++ rest ∧
    applyRules (wordCast "lower(name)".toList "varchar(10)".toList) =
      callOf "toString".toList (applyRules "lower(name)".toList) := by
  have he : IsOperand (callOf "lower".toList "name".toList) := .call (by decide) ⟨⟨true, true⟩, by decide⟩
  have hT : IsType "varchar(10)".toList := ⟨by decide, by decide, noAs_of_tails (by decide)⟩
  have hreading : typeReading "varchar(10)".toList = some ("toString".toList, []) := by decide +kernel
  have hwhole : ReadWhole "varchar(10)".toList := by
    intro function rest h
    rw [hreading] at h
    cases h
    exact List.forall_mem_nil _
  exact ((spellings_agree he hT).1 hwhole).1 "toString".toList (by decide +kernel)

/-- An array behind colons is converted in half, and nothing is reported. -/
theorem array_half_converted : toClickHouse "x::date[]" = "toDate(x)[]" ∧
    residualConstructs (toClickHouse "x::date[]") = [] ∧
    toClickHouse "CAST(x AS date[])" = "CAST(x AS date[])" ∧
    residualConstructs (toClickHouse "CAST(x AS date[])") = ["cast"] := by
  decide +kernel

end Sql
end CardTransfer
