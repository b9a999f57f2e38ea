import CardTransfer.Json.Parser
import CardTransfer.Json.Printer
import Mathlib.Tactic.Common

/-!
# Texts read back

A written text is read as the same text, with one exception: two halves that stand next to each
other, a first and a second one, are written as the units of a pair and read as the character of
that pair. What is read back is `joinHalves` (`readText_writeText`); it is the text itself when no
half stands in it (`joinHalves_eq_self`).

| character | written as |
| --- | --- |
| quote, backslash, common control characters | a backslash and one character |
| `' '` – `'~'` otherwise | the character |
| up to 65535 otherwise, and halves | one unit |
| beyond 65535 | the two units of a pair |
-/

namespace CardTransfer
namespace Json

/-! ### Units -/

/-- The character of a pair of halves. -/
def pair? (a b : Char) : Option Char :=
  match Text.half? a, Text.half? b with
  | some m, some n =>
    if Text.isFirstHalf m && Text.isSecondHalf n then some (Text.charOfPair m n) else none
  | _, _ => none

/-- A text with each two neighbours that form a pair made one character. -/
def joinHalves : List Char → List Char
  | [] => []
  | [c] => [c]
  | a :: b :: cs =>
    match pair? a b with
    | some c => c :: joinHalves cs
    | none => a :: joinHalves (b :: cs)

/-- A text without halves has nothing to join. -/
theorem joinHalves_eq_self {cs : List Char} (h : ∀ c ∈ cs, Text.half? c = none) :
    joinHalves cs = cs := by
  fun_induction joinHalves cs with
  | case1 => rfl
  | case2 => rfl
  | case3 a b cs c hc =>
    unfold pair? at hc
    rw [h a (List.mem_cons_self ..)] at hc
    cases hc
  | case4 a b cs _ ih => rw [ih fun c hc => h c (List.mem_cons_of_mem _ hc)]

/-- What stands before a character that is no half and what stands behind it are joined apart. -/
theorem joinHalves_append_cons {c : Char} (hc : Text.half? c = none) (cs ds : List Char) :
    joinHalves (cs ++ c :: ds) = joinHalves cs ++ c :: joinHalves ds := by
  have hbehind : joinHalves (c :: ds) = c :: joinHalves ds := by
    cases ds with
    | nil => rfl
    | cons d ds =>
      have hpair : pair? c d = none := by
        unfold pair?
        rw [hc]
      rw [joinHalves, hpair]
  fun_induction joinHalves cs with
  | case1 => exact hbehind
  | case2 a =>
    have hpair : pair? a c = none := by
      unfold pair?
      rw [hc]
      cases Text.half? a <;> rfl
    rw [List.singleton_append, joinHalves, hpair, hbehind]
    rfl
  | case3 a b cs d hd ih =>
    rw [List.cons_append, List.cons_append, joinHalves, hd, ih]
    rfl
  | case4 a b cs hd ih =>
    rw [List.cons_append, List.cons_append, joinHalves, hd, ← List.cons_append, ih]
    rfl

/-- A hexadecimal digit is worth the number that it spells. -/
theorem hexValue?_digitChar {n : Nat} (h : n < 16) : hexValue? (Nat.digitChar n) = some n := by
  have all : ∀ n : Fin 16, hexValue? (Nat.digitChar n) = some n.val := by decide
  exact all ⟨n, h⟩

/-- The four digits of a unit. -/
theorem hex_four {n : Nat} (h : n < 65536) :
    Text.hex 4 n = [Nat.digitChar (n / 4096), Nat.digitChar (n / 256 % 16),
      Nat.digitChar (n / 16 % 16), Nat.digitChar (n % 16)] := by
  have one {m : Nat} (hm : m < 16) : Nat.toDigits 16 m = [Nat.digitChar m] :=
    Nat.toDigits_of_lt_base hm
  have more {m : Nat} (hm : 16 ≤ m) :
      Nat.toDigits 16 m = Nat.toDigits 16 (m / 16) ++ [Nat.digitChar (m % 16)] :=
    Nat.toDigits_of_base_le (by decide) hm
  unfold Text.hex
  rcases Nat.lt_or_ge n 16 with h₁ | h₁
  · rw [one h₁, show n / 4096 = 0 by omega, show n / 256 % 16 = 0 by omega,
      show n / 16 % 16 = 0 by omega, show n % 16 = n by omega]
    rfl
  rcases Nat.lt_or_ge n 256 with h₂ | h₂
  · rw [more h₁, one (m := n / 16) (by omega), show n / 4096 = 0 by omega,
      show n / 256 % 16 = 0 by omega, show n / 16 % 16 = n / 16 by omega]
    rfl
  rcases Nat.lt_or_ge n 4096 with h₃ | h₃
  · rw [more h₁, more (m := n / 16) (by omega), one (m := n / 16 / 16) (by omega),
      show n / 4096 = 0 by omega, show n / 256 % 16 = n / 16 / 16 by omega]
    rfl
  · rw [more h₁, more (m := n / 16) (by omega), more (m := n / 16 / 16) (by omega),
      one (m := n / 16 / 16 / 16) (by omega), show n / 4096 = n / 16 / 16 / 16 by omega,
      show n / 256 % 16 = n / 16 / 16 % 16 by omega]
    rfl

/-- A unit is read from its four digits. -/
theorem hexUnit?_hex {n : Nat} (h : n < 65536) (c : Char) (cs : List Char) :
    hexUnit? (Text.hex 4 n ++ c :: cs) = some (n, c :: cs) := by
  rw [hex_four h]
  simp only [List.cons_append, List.nil_append, hexUnit?, Option.bind_eq_bind,
    hexValue?_digitChar (show n / 4096 < 16 by omega),
    hexValue?_digitChar (Nat.mod_lt _ (by decide : 16 > 0)), Option.bind_some, Option.some.injEq,
    Prod.mk.injEq, and_true]
  omega

theorem isFirstHalf_iff (n : Nat) : Text.isFirstHalf n = true ↔ 55296 ≤ n ∧ n < 56320 := by
  simp [Text.isFirstHalf]

theorem isSecondHalf_iff (n : Nat) : Text.isSecondHalf n = true ↔ 56320 ≤ n ∧ n < 57344 := by
  simp [Text.isSecondHalf]

/-- The code point of a character is that of no half. -/
theorem toNat_lt_or_ge (c : Char) : c.toNat < 55296 ∨ 57344 ≤ c.toNat ∧ c.toNat < 1114112 := by
  have h : c.toNat.isValidChar := c.valid
  unfold Nat.isValidChar at h
  omega

/-- Characters below the last private plane stand for no half. -/
theorem half?_eq_none {c : Char} (h : c.toNat < Text.halfOffset) : Text.half? c = none := by
  cases hc : Text.half? c with
  | none => rfl
  | some n =>
    have := (Text.half?_eq_some_iff.1 hc).2.2
    omega

/-- What the units of a character are: a half, a code point, or a pair. -/
inductive UnitsOf (c : Char) : List Nat → Prop where
  | half {n : Nat} (h : Text.half? c = some n) (lt : n < 65536) (back : Text.charOfUnit n = c) :
    UnitsOf c [n]
  | whole (h : Text.half? c = none) (lt : c.toNat < 65536) (back : Text.charOfUnit c.toNat = c)
    (first : Text.isFirstHalf c.toNat = false) (second : Text.isSecondHalf c.toNat = false) :
    UnitsOf c [c.toNat]
  | pair {m n : Nat} (h : Text.half? c = none) (first : Text.isFirstHalf m = true)
    (second : Text.isSecondHalf n = true) (back : Text.charOfPair m n = c) : UnitsOf c [m, n]

/-- Every character is told by its units. -/
theorem unitsOf_spec (c : Char) : UnitsOf c (Text.unitsOf c) := by
  have hc := toNat_lt_or_ge c
  unfold Text.unitsOf
  cases h : Text.half? c with
  | some n =>
    obtain ⟨h₁, h₂, hv⟩ := Text.half?_eq_some_iff.1 h
    have hn : (Text.isFirstHalf n || Text.isSecondHalf n) = true := by
      rw [Bool.or_eq_true, isFirstHalf_iff, isSecondHalf_iff]
      omega
    refine .half h (by omega) ?_
    unfold Text.charOfUnit
    rw [if_pos hn, ← hv]
    exact Char.ofNat_toNat c
  | none =>
    simp only
    split
    · rename_i hlt
      have hf : Text.isFirstHalf c.toNat = false := by
        rw [Bool.eq_false_iff, Ne, isFirstHalf_iff]
        omega
      have hs : Text.isSecondHalf c.toNat = false := by
        rw [Bool.eq_false_iff, Ne, isSecondHalf_iff]
        omega
      refine .whole h hlt ?_ hf hs
      unfold Text.charOfUnit
      rw [hf, hs]
      exact Char.ofNat_toNat c
    · rename_i hge
      refine .pair h ((isFirstHalf_iff _).2 (by omega)) ((isSecondHalf_iff _).2 (by omega)) ?_
      unfold Text.charOfPair
      rw [show 65536 + (55296 + (c.toNat - 65536) / 1024 - 55296) * 1024 +
        (56320 + (c.toNat - 65536) % 1024 - 56320) = c.toNat by omega]
      exact Char.ofNat_toNat c

/-! ### Characters -/

/-- What a character is written as: a short escape, itself, or its units. -/
inductive Escaped (c : Char) : List Char → Prop where
  | short {e : Char} (h : escaped? e = some c) (ne : e ≠ 'u') (half : Text.half? c = none) :
    Escaped c ['\\', e]
  | plain (quote : c ≠ '"') (slash : c ≠ '\\') (ge : 32 ≤ c.toNat) (half : Text.half? c = none) :
    Escaped c [c]
  | units : Escaped c ((Text.unitsOf c).flatMap unitEscape)

/-- Every character is written in one of these ways. -/
theorem escapeChar_spec (c : Char) : Escaped c (escapeChar c) := by
  have short {e d : Char} (hc : c = d) (hd : escaped? e = some d) (he : e ≠ 'u')
      (lt : d.toNat < Text.halfOffset) : Escaped c ['\\', e] := by
    subst hc
    exact .short hd he (half?_eq_none lt)
  unfold escapeChar
  simp only [beq_iff_eq]
  split
  · exact short ‹_› rfl (by decide) (by decide)
  split
  · exact short ‹_› rfl (by decide) (by decide)
  split
  · exact short ‹_› rfl (by decide) (by decide)
  split
  · exact short ‹_› rfl (by decide) (by decide)
  split
  · exact short ‹_› rfl (by decide) (by decide)
  split
  · exact short ‹_› rfl (by decide) (by decide)
  split
  · exact short ‹_› rfl (by decide) (by decide)
  split
  · rename_i hq hb _ _ _ _ _ h
    rw [Bool.and_eq_true, decide_eq_true_eq, decide_eq_true_eq] at h
    exact .plain hq hb h.1 (half?_eq_none (Nat.lt_of_le_of_lt h.2 (by decide)))
  · exact .units

/-! ### Reading what was written -/

variable {start rest : List Char} {fuel : Nat} {acc : List Char}

theorem readText_short {e c : Char} (h : escaped? e = some c) (he : e ≠ 'u') :
    readText start (fuel + 1) acc ('\\' :: e :: rest) = readText start fuel (c :: acc) rest := by
  rw [readText]
  · simp only [h]
  · exact he

theorem readText_plain {c : Char} (quote : c ≠ '"') (slash : c ≠ '\\') (ge : 32 ≤ c.toNat) :
    readText start (fuel + 1) acc (c :: rest) = readText start fuel (c :: acc) rest := by
  rw [readText]
  · rw [if_neg (by omega)]
  · exact quote
  · exact fun h _ => slash h
  · exact fun _ h _ => slash h
  · exact fun _ _ h _ => slash h

theorem readText_unit {cs after : List Char} {c : Char} (h : unitChar? cs = some (c, after)) :
    readText start (fuel + 1) acc ('\\' :: 'u' :: cs) = readText start fuel (c :: acc) after := by
  conv => lhs; unfold readText
  simp only [h]

/-- A text that does not go on with the unit of a second half. -/
def Unpaired (cs : List Char) : Prop :=
  ∀ more n after, cs = '\\' :: 'u' :: more → hexUnit? more = some (n, after) →
    Text.isSecondHalf n = false

/-- A unit is read as its character, unless it is a first half before a second one. -/
theorem unitChar?_single {n : Nat} (h : n < 65536) (hne : rest ≠ [])
    (hpair : Text.isFirstHalf n = true → Unpaired rest) :
    unitChar? (Text.hex 4 n ++ rest) = some (Text.charOfUnit n, rest) := by
  obtain ⟨c, cs, rfl⟩ := List.exists_cons_of_ne_nil hne
  unfold unitChar?
  rw [hexUnit?_hex h, Option.bind_eq_bind, Option.bind_some]
  simp only
  split
  · rename_i hf
    split
    · rename_i more heq
      split
      · rename_i m after hm
        rw [hpair hf more m after heq hm]
        rfl
      · rfl
    · rfl
  · rfl

/-- Two units that form a pair are read as its character. -/
theorem unitChar?_pair {m n : Nat} (hm : Text.isFirstHalf m = true)
    (hn : Text.isSecondHalf n = true) (hne : rest ≠ []) :
    unitChar? (Text.hex 4 m ++ (unitEscape n ++ rest)) = some (Text.charOfPair m n, rest) := by
  obtain ⟨c, cs, rfl⟩ := List.exists_cons_of_ne_nil hne
  have hm' : m < 65536 := by
    have := (isFirstHalf_iff m).1 hm
    omega
  have hn' : n < 65536 := by
    have := (isSecondHalf_iff n).1 hn
    omega
  have happ : unitEscape n ++ c :: cs = '\\' :: 'u' :: (Text.hex 4 n ++ c :: cs) := rfl
  unfold unitChar?
  rw [happ, hexUnit?_hex hm', Option.bind_eq_bind, Option.bind_some]
  simp only [hm, ↓reduceIte]
  rw [hexUnit?_hex hn']
  simp only [hn, ↓reduceIte]

/-- A written character is read as itself, unless it is a first half before a second one. -/
theorem readText_escapeChar {c : Char} (hne : rest ≠ [])
    (hpair : ∀ m, Text.half? c = some m → Text.isFirstHalf m = true → Unpaired rest) :
    readText start (fuel + 1) acc (escapeChar c ++ rest) = readText start fuel (c :: acc) rest := by
  have hc := escapeChar_spec c
  generalize escapeChar c = cs at hc ⊢
  cases hc with
  | short h he _ => exact readText_short h he
  | plain hq hs hge _ => exact readText_plain hq hs hge
  | units =>
    have hu := unitsOf_spec c
    generalize Text.unitsOf c = us at hu ⊢
    cases hu with
    | half h hlt hback =>
      rw [List.flatMap_singleton]
      rw [← hback]
      exact readText_unit (unitChar?_single hlt hne (hpair _ h))
    | whole _ hlt hback hf _ =>
      have hread := unitChar?_single hlt hne fun h => absurd (hf.symm.trans h) (by decide)
      rw [hback] at hread
      rw [List.flatMap_singleton]
      exact readText_unit hread
    | pair _ hf hs hback =>
      rw [List.flatMap_cons, List.flatMap_singleton, List.append_assoc]
      rw [← hback]
      exact readText_unit (unitChar?_pair hf hs hne)

/-- A half is written as its unit. -/
theorem escapeChar_of_half {c : Char} {n : Nat} (h : Text.half? c = some n) :
    escapeChar c = unitEscape n := by
  have hc := escapeChar_spec c
  generalize escapeChar c = cs at hc ⊢
  cases hc with
  | short _ _ hn => exact absurd (h.symm.trans hn) (by simp)
  | plain _ _ _ hn => exact absurd (h.symm.trans hn) (by simp)
  | units =>
    unfold Text.unitsOf
    rw [h]
    exact List.flatMap_singleton ..

/-- The halves that form a pair. -/
theorem pair?_eq_some_iff {a b c : Char} :
    pair? a b = some c ↔ ∃ m n, Text.half? a = some m ∧ Text.half? b = some n ∧
      Text.isFirstHalf m = true ∧ Text.isSecondHalf n = true ∧ Text.charOfPair m n = c := by
  unfold pair?
  constructor
  · intro h
    split at h
    · rename_i m n ha hb
      rw [Option.ite_none_right_eq_some, Bool.and_eq_true, Option.some.injEq] at h
      exact ⟨m, n, ha, hb, h.1.1, h.1.2, h.2⟩
    · cases h
  · rintro ⟨m, n, ha, hb, hm, hn, rfl⟩
    rw [ha, hb]
    simp only [hm, hn, Bool.and_self, ↓reduceIte]

/-- Two written halves that form a pair are read as its character. -/
theorem readText_pair {a b c : Char} (hne : rest ≠ []) (h : pair? a b = some c) :
    readText start (fuel + 1) acc (escapeChar a ++ (escapeChar b ++ rest)) =
      readText start fuel (c :: acc) rest := by
  obtain ⟨m, n, ha, hb, hm, hn, rfl⟩ := pair?_eq_some_iff.1 h
  rw [escapeChar_of_half ha, escapeChar_of_half hb]
  exact readText_unit (unitChar?_pair hm hn hne)

/-- Before a character with which it forms no pair, a first half stands alone. -/
theorem unpaired_escapeChar {a b : Char} {m : Nat} (hne : rest ≠ []) (ha : Text.half? a = some m)
    (hm : Text.isFirstHalf m = true) (h : pair? a b = none) : Unpaired (escapeChar b ++ rest) := by
  obtain ⟨c, cs, rfl⟩ := List.exists_cons_of_ne_nil hne
  -- what is read of the first unit, and what the unit is
  have unit {k n : Nat} {more after : List Char} (hk : k < 65536) (d : Char) (ds : List Char)
      (heq : unitEscape k ++ d :: ds = '\\' :: 'u' :: more) (hn : hexUnit? more = some (n, after)) :
      n = k := by
    have hmore : Text.hex 4 k ++ d :: ds = more := by
      simpa [unitEscape] using heq
    rw [← hmore, hexUnit?_hex hk, Option.some.injEq, Prod.mk.injEq] at hn
    exact hn.1.symm
  intro more n after heq hn
  have hb := escapeChar_spec b
  generalize escapeChar b = bs at hb heq
  cases hb with
  | short _ he _ =>
    simp only [List.cons_append, List.cons.injEq] at heq
    exact absurd heq.2.1 he
  | plain _ hs _ _ =>
    simp only [List.cons_append, List.cons.injEq] at heq
    exact absurd heq.1 hs
  | units =>
    have hu := unitsOf_spec b
    generalize Text.unitsOf b = us at hu heq
    cases hu with
    | half hb hlt _ =>
      rw [List.flatMap_singleton] at heq
      obtain rfl := unit hlt c cs heq hn
      rw [Bool.eq_false_iff]
      intro hs
      exact absurd (h.symm.trans (pair?_eq_some_iff.2 ⟨m, n, ha, hb, hm, hs, rfl⟩)) (by simp)
    | whole _ hlt _ _ hs =>
      rw [List.flatMap_singleton] at heq
      obtain rfl := unit hlt c cs heq hn
      exact hs
    | pair _ hf _ _ =>
      rw [List.flatMap_cons, List.append_assoc, List.flatMap_singleton] at heq
      have hk := (isFirstHalf_iff _).1 hf
      obtain rfl := unit (by omega) _ _ heq hn
      rw [Bool.eq_false_iff, Ne, isSecondHalf_iff]
      omega

/-- **The characters of a written text are read up to its closing quote**, with each pair of halves
made one character. -/
theorem readText_escaped (cs : List Char) (h : cs.length < fuel) :
    readText start fuel acc (cs.flatMap escapeChar ++ '"' :: rest) =
      .ok (String.ofList (acc.reverse ++ joinHalves cs), rest) := by
  fun_induction joinHalves cs generalizing fuel acc with
  | case1 =>
    obtain ⟨fuel, rfl⟩ := Nat.exists_eq_succ_of_ne_zero (Nat.ne_zero_of_lt h)
    rw [List.append_nil]
    rfl
  | case2 c =>
    obtain ⟨fuel, rfl⟩ := Nat.exists_eq_succ_of_ne_zero (Nat.ne_zero_of_lt h)
    have hfuel : fuel ≠ 0 := by
      rw [List.length_singleton] at h
      omega
    obtain ⟨fuel, rfl⟩ := Nat.exists_eq_succ_of_ne_zero hfuel
    have halone : Unpaired ('"' :: rest) := by
      intro more n after heq
      simp at heq
    rw [List.flatMap_singleton, readText_escapeChar (by simp) fun _ _ _ => halone]
    simp only [readText, List.reverse_cons]
  | case3 a b cs c hc ih =>
    obtain ⟨fuel, rfl⟩ := Nat.exists_eq_succ_of_ne_zero (Nat.ne_zero_of_lt h)
    simp only [List.length_cons] at h
    rw [List.flatMap_cons, List.flatMap_cons, List.append_assoc, List.append_assoc,
      readText_pair (by simp) hc, ih (by omega), List.reverse_cons, List.append_assoc]
    rfl
  | case4 a b cs hc ih =>
    obtain ⟨fuel, rfl⟩ := Nat.exists_eq_succ_of_ne_zero (Nat.ne_zero_of_lt h)
    rw [List.length_cons] at h
    have halone (m : Nat) (ha : Text.half? a = some m) (hm : Text.isFirstHalf m = true) :
        Unpaired ((b :: cs).flatMap escapeChar ++ '"' :: rest) := by
      rw [List.flatMap_cons, List.append_assoc]
      exact unpaired_escapeChar (by simp) ha hm hc
    rw [List.flatMap_cons, List.append_assoc, readText_escapeChar (by simp) halone,
      ih (by omega), List.reverse_cons, List.append_assoc]
    rfl

/-- A text has no more characters than its written form. -/
theorem length_le_flatMap_escapeChar (cs : List Char) :
    cs.length ≤ (cs.flatMap escapeChar).length := by
  induction cs with
  | nil => exact Nat.le_refl _
  | cons c cs ih =>
    have hc : 0 < (escapeChar c).length := by
      rw [List.length_pos_iff]
      have h := escapeChar_spec c
      generalize escapeChar c = es at h
      cases h with
      | short => simp
      | plain => simp
      | units =>
        have hu := unitsOf_spec c
        generalize Text.unitsOf c = us at hu
        cases hu <;> simp [unitEscape]
    rw [List.flatMap_cons, List.length_append, List.length_cons]
    omega

/-- The characters of a written text. -/
theorem toList_writeText (s : String) :
    (writeText s).toList = '"' :: (s.toList.flatMap escapeChar ++ ['"']) := by
  unfold writeText
  rw [String.toList_ofList]
  rfl

/-- **A written text is read back as `joinHalves` of it.** -/
theorem readText_writeText (s : String) (start rest : List Char) :
    let after := s.toList.flatMap escapeChar ++ '"' :: rest
    readText start (after.length + 1) [] after = .ok (String.ofList (joinHalves s.toList), rest) := by
  intro after
  refine readText_escaped s.toList ?_
  have h := length_le_flatMap_escapeChar s.toList
  simp only [after, List.length_append, List.length_cons]
  omega

/-- The four digits of a unit are no line ends. -/
theorem not_mem_unitEscape {n : Nat} (h : n < 65536) : '\r' ∉ unitEscape n := by
  have digit : ∀ d : Fin 16, '\r' ≠ Nat.digitChar d := by decide
  unfold unitEscape
  rw [hex_four h]
  simp only [List.mem_cons, List.not_mem_nil, or_false, not_or]
  exact ⟨by decide, by decide, digit ⟨n / 4096, by omega⟩,
    digit ⟨n / 256 % 16, Nat.mod_lt _ (by decide)⟩, digit ⟨n / 16 % 16, Nat.mod_lt _ (by decide)⟩,
    digit ⟨n % 16, Nat.mod_lt _ (by decide)⟩⟩

/-- A carriage return is never written as it is. -/
theorem not_mem_escapeChar (c : Char) : '\r' ∉ escapeChar c := by
  have h := escapeChar_spec c
  generalize hes : escapeChar c = es at h
  cases h with
  | @short e he _ _ =>
    simp only [List.mem_cons, List.not_mem_nil, or_false, not_or]
    refine ⟨by decide, ?_⟩
    rintro rfl
    cases he
  | plain _ _ hge _ =>
    rw [List.mem_singleton]
    rintro rfl
    exact absurd hge (by decide)
  | units =>
    have hu := unitsOf_spec c
    generalize Text.unitsOf c = us at hu
    cases hu with
    | half _ hlt _ =>
      rw [List.flatMap_singleton]
      exact not_mem_unitEscape hlt
    | whole _ hlt _ _ _ =>
      rw [List.flatMap_singleton]
      exact not_mem_unitEscape hlt
    | @pair m n _ hf hs _ =>
      have hm := (isFirstHalf_iff m).1 hf
      have hn := (isSecondHalf_iff n).1 hs
      rw [List.flatMap_cons, List.flatMap_singleton, List.mem_append, not_or]
      exact ⟨not_mem_unitEscape (by omega), not_mem_unitEscape (by omega)⟩

theorem not_mem_writeText (s : String) : '\r' ∉ (writeText s).toList := by
  rw [toList_writeText, List.mem_cons, List.mem_append, List.mem_flatMap, List.mem_singleton]
  rintro (h | ⟨c, -, hc⟩ | h)
  · exact absurd h (by decide)
  · exact not_mem_escapeChar c hc
  · exact absurd h (by decide)

end Json
end CardTransfer
