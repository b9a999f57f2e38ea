import CardTransfer.Proofs.Sql.CastOperand
import Mathlib.Logic.Relation

/-!
# The loop over postfix casts

The casts of a text are converted in a loop. In each round it searches for the next match, passes over it if the cast
stays, and else puts a call in its place and goes on from the start of that call. It comes to an end, and a cast is left
only if it has to stay or a later conversion has cut the name of its type off (`convertPostfixCasts_loop`).

For the end two numbers are compared in turn (`Place.wellFounded_next`). A conversion takes one pair of colons out of
the text: neither an operand nor a type starts or ends with a colon, and so the pairs of the parts are all there are
(`Place.colonPairs_call`). Between conversions the text stays, and the place moves on.

For what is left, the text before the place is followed (`Left`). A cast that stays does so because of what precedes
it, which is not rewritten, or because of its type. Another type is read there only if a call is written into the name
of the type, which is where an operand started (`Starts`). What is left of the name may be the name of a shorter type
(`cutOff_of_call`). This needs a name that is found and has no conversion, and all of these hold a letter that is read
for another one (`exists_strangeLetter`).
-/

namespace CardTransfer
namespace Sql

open Text (isBlank isWord)

variable {before cs earlier operand tail type rest function u v x y z gap : List Char} {words : List (List Char)}

/-! ### Pairs of colons -/

/-- The number of places of a text where two colons stand. -/
def colonPairs : List Char → Nat
  | ':' :: ':' :: cs => colonPairs (':' :: cs) + 1
  | _ :: cs => colonPairs cs
  | [] => 0

theorem colonPairs_cons_of_ne {c : Char} (hc : c ≠ ':') (cs : List Char) : colonPairs (c :: cs) = colonPairs cs := by
  rw [colonPairs]
  exact fun _ heq _ => hc heq

theorem colonPairs_cons_of_head (h : cs.head? ≠ some ':') (c : Char) : colonPairs (c :: cs) = colonPairs cs := by
  rw [colonPairs]
  rintro cs' - rfl
  exact h rfl

/-- No two colons meet where one text ends with something else or the other starts with it. -/
theorem colonPairs_append (h : x.getLast? ≠ some ':' ∨ y.head? ≠ some ':') :
    colonPairs (x ++ y) = colonPairs x + colonPairs y := by
  fun_induction colonPairs x with
  | case1 cs ih =>
    rw [List.getLast?_cons_cons] at h
    rw [List.cons_append, List.cons_append, colonPairs, ← List.cons_append, ih h]
    omega
  | case2 c cs hne ih =>
    cases cs with
    | nil =>
      have hmeet : c ≠ ':' ∨ y.head? ≠ some ':' := h.imp_left fun hlast hc => hlast (by rw [hc]; rfl)
      rw [show colonPairs [] = 0 from rfl, Nat.zero_add, List.singleton_append]
      exact hmeet.elim (colonPairs_cons_of_ne · y) (colonPairs_cons_of_head · c)
    | cons d cs =>
      rw [List.getLast?_cons_cons] at h
      rw [List.cons_append, ← ih h]
      by_cases hc : c = ':'
      · have hd : d ≠ ':' := fun hd => hne cs hc (by rw [hd])
        refine colonPairs_cons_of_head ?_ c
        rw [List.cons_append, List.head?_cons]
        simpa using hd
      · exact colonPairs_cons_of_ne hc _
  | case3 => exact (Nat.zero_add _).symm

theorem colonPairs_of_colonless (h : ':' ∉ x) : colonPairs x = 0 := by
  induction x with
  | nil => rfl
  | cons c x ih =>
    rw [List.mem_cons, not_or] at h
    rw [colonPairs_cons_of_ne (Ne.symm h.1), ih h.2]

/-! ### Operands -/

/-- What a text starts with when an operand does: the name of a function or another word, and behind that a
parenthesis, a quote, a brace or what follows the operand. The word is a whole one. -/
def Starts (earlier text : List Char) : Prop := ∃ w d rest, text = w ++ d :: rest ∧ (∀ c ∈ w, isWord c = true) ∧
  isWord d = false ∧ isBlank d = false ∧ (w = [] → d ≠ ':') ∧
    (w ≠ [] ∨ d = '(' → ∀ c, earlier.head? = some c → isWord c = false)

theorem head?_splitWord (cs : List Char) : ∀ c, (splitWord cs).2.head? = some c → isWord c = false := by
  intro c hc
  have hnot := List.head?_dropWhile_not isWord cs
  rw [splitWord] at hc
  rwa [hc] at hnot

theorem takePrimary_starts {d : Char} (h : takePrimary before = some (operand, earlier)) (hword : isWord d = false)
    (hblank : isBlank d = false) (v : List Char) : Starts earlier (operand.reverse ++ d :: v) := by
  have hsign {e : Char} {z : List Char} (he : e ∈ ['\'', '"', '\x7b']) (hop : operand = z ++ [e]) :
      Starts earlier (operand.reverse ++ d :: v) := by
    have hall : ∀ e ∈ ['\'', '"', '\x7b'], isWord e = false ∧ isBlank e = false ∧ e ≠ ':' ∧ e ≠ '(' := by decide
    obtain ⟨hew, heb, hcolon, hparen⟩ := hall e he
    refine ⟨[], e, z.reverse ++ d :: v, by simp [hop], List.forall_mem_nil _, hew, heb, fun _ => hcolon, ?_⟩
    rintro (hne | heq)
    · exact absurd rfl hne
    · exact absurd heq hparen
  cases before with
  | nil => cases h
  | cons c cs =>
    simp only [takePrimary] at h
    split_ifs at h with hquote hclose hname hbraces hletter
    · obtain ⟨p, hp, he⟩ := Option.map_eq_some_iff.1 h
      cases he
      obtain ⟨z, hz⟩ := splitLiteralStart_last hp
      exact hsign (e := '\'') (z := c :: z) (by simp) (by rw [hz]; rfl)
    · obtain ⟨p, hp, he⟩ := Option.map_eq_some_iff.1 h
      cases he
      refine ⟨(splitWord p.2).1.reverse, '(', p.1.reverse ++ c :: d :: v, by simp, fun e he => ?_, by decide, by decide,
        fun _ => by decide, fun _ => head?_splitWord p.2⟩
      exact List.mem_takeWhile_imp (List.mem_reverse.1 he)
    · obtain ⟨p, hp, he⟩ := Option.map_eq_some_iff.1 h
      cases he
      obtain ⟨z, hz⟩ := splitAfter_last hp
      exact hsign (e := '"') (z := c :: z) (by simp) (by rw [hz]; rfl)
    · obtain ⟨p, hp, he⟩ := Option.map_eq_some_iff.1 h
      cases he
      obtain ⟨z, hz⟩ := splitAfterPair_last hp
      exact hsign (e := '\x7b') (z := c :: z ++ ['\x7b']) (by simp) (by rw [hz]; simp)
    · cases h
      refine ⟨(c :: (splitWord cs).1).reverse, d, v, rfl, fun e he => ?_, hword, hblank, fun hnil => ?_,
        fun _ => head?_splitWord cs⟩
      · rcases List.mem_cons.1 (List.mem_reverse.1 he) with rfl | he
        · exact hletter
        · exact List.mem_takeWhile_imp he
      · simp at hnil

/-- **What an operand starts with.** -/
theorem splitOperand_starts {d : Char} (h : splitOperand before = some (operand, earlier)) (hword : isWord d = false)
    (hblank : isBlank d = false) (v : List Char) : Starts earlier (operand.reverse ++ d :: v) := by
  fun_induction splitOperand before generalizing operand earlier d v with
  | case1 => cases h
  | case2 before first more hp ih =>
    obtain ⟨p, hq, he⟩ := Option.map_eq_some_iff.1 h
    cases he
    have hmore := ih (d := '.') hq (by decide) (by decide) (first.reverse ++ d :: v)
    simpa using hmore
  | case3 before first more hdot hp =>
    cases h
    exact takePrimary_starts hp hword hblank v

/-- A text of word characters and blanks with which it starts is a part of its first word. -/
theorem Starts.isWord_of_append (h : Starts earlier (x ++ z)) (hx : ∀ c ∈ x, isWord c = true ∨ isBlank c = true) :
    ∀ c ∈ x, isWord c = true := by
  obtain ⟨w, d, rest, heq, hword, hd, hblank, -⟩ := h
  rcases List.append_eq_append_iff.1 heq with ⟨b, rfl, -⟩ | ⟨b, rfl, hb⟩
  · exact fun c hc => hword c (List.mem_append_left _ hc)
  · cases b with
    | nil => rwa [List.append_nil]
    | cons e b =>
      cases hb
      have hsign := hx d (by simp)
      simp [hd, hblank] at hsign

/-- Up to a parenthesis it is the whole word. -/
theorem Starts.whole (h : Starts earlier (x ++ '(' :: z)) (hx : ∀ c ∈ x, isWord c = true) :
    ∀ c, earlier.head? = some c → isWord c = false := by
  obtain ⟨w, d, rest, heq, hword, hd, -, -, hwhole⟩ := h
  obtain ⟨rfl, hparen⟩ := Text.eq_of_stretch hx hword (by rintro c ⟨⟩; decide) (by rintro c ⟨⟩; simp [hd]) heq
  cases hparen
  exact hwhole (.inr rfl)

theorem splitOperand_ne_nil (h : splitOperand before = some (operand, earlier)) : operand ≠ [] := by
  fun_induction splitOperand before generalizing operand earlier with
  | case1 => cases h
  | case2 before first more hp ih =>
    obtain ⟨p, hq, he⟩ := Option.map_eq_some_iff.1 h
    cases he
    simp
  | case3 before first more hdot hp =>
    cases h
    exact (takePrimary_eq hp).2

/-- An operand does not end with a colon. -/
theorem head?_operand (h : splitOperand before = some (operand, earlier)) : operand.head? ≠ some ':' := by
  intro hcolon
  have hhead : before.head? = some ':' := by
    rw [splitOperand_eq h, List.head?_append_of_ne_nil _ (splitOperand_ne_nil h), hcolon]
  obtain ⟨cs, rfl⟩ := List.head?_eq_some_iff.1 hhead
  have hnone : takePrimary (':' :: cs) = none := by simp [takePrimary, show isWord ':' = false by decide]
  rw [splitOperand] at h
  split at h
  · cases h
  · rename_i hp
    rw [hnone] at hp
    cases hp
  · rename_i hp
    rw [hnone] at hp
    cases hp

/-- It does not start with one, either. -/
theorem getLast?_operand (h : splitOperand before = some (operand, earlier)) : operand.getLast? ≠ some ':' := by
  intro hcolon
  obtain ⟨w, d, rest, heq, hw, -, -, hd, -⟩ := splitOperand_starts (d := '.') h (by decide) (by decide) []
  obtain ⟨z, rfl⟩ := List.getLast?_eq_some_iff.1 hcolon
  rw [List.reverse_concat, List.cons_append] at heq
  cases w with
  | nil =>
    cases heq
    exact hd rfl rfl
  | cons c w =>
    obtain ⟨rfl, -⟩ := List.cons.inj heq
    exact absurd (hw ':' (List.mem_cons_self ..)) (by decide)

/-! ### Matches -/

/-- The type of a cast that a text starts with, and the text behind it. -/
def castMatch? : List Char → Option (List Char × List Char)
  | ':' :: ':' :: tail => castType? tail
  | _ => none

theorem castMatch?_eq_some : castMatch? cs = some (type, rest) ↔
    ∃ tail, cs = ':' :: ':' :: tail ∧ castType? tail = some (type, rest) := by
  constructor
  · intro h
    unfold castMatch? at h
    split at h
    · exact ⟨_, rfl, h⟩
    · cases h
  · rintro ⟨tail, rfl, h⟩
    exact h

theorem castAt?_of_castMatch? (h : castMatch? cs = none) : castAt? before cs = none := by
  rw [Option.eq_none_iff_forall_ne_some]
  rintro ⟨earlier, later⟩ hcast
  obtain ⟨tail, function, rest, operand, rfl, -, htype, -⟩ := castAt?_eq_some.1 hcast
  obtain ⟨type, htype, -⟩ := typeReading_eq_some.1 htype
  have hmatch : castMatch? (':' :: ':' :: tail) = castType? tail := rfl
  rw [hmatch, htype] at h
  cases h

/-- Why a cast stays: it stands inside of quotes, it has no operand, or its type has no conversion. -/
def Stays (before type : List Char) : Prop :=
  oddQuotes before = true ∨ splitOperand before = none ∨ conversion? type = none

/-- A cast stays for one of these reasons. -/
theorem castAt?_eq_none_iff (h : castType? tail = some (type, rest)) :
    castAt? before (':' :: ':' :: tail) = none ↔ Stays before type := by
  unfold Stays
  cases hodd : oddQuotes before with
  | true => simp [castAt?_of_odd hodd]
  | false =>
    have hread : typeReading tail = (conversion? type).map fun f => (f, rest) := by
      simp only [typeReading, h, Option.bind_eq_bind, Option.bind_some]
      cases conversion? type <;> rfl
    rw [castAt?_colons hodd, hread]
    cases conversion? type <;> cases splitOperand before <;> simp

/-- What a match takes holds no colon but the first two. -/
theorem exists_of_castType?_colonless (h : castType? tail = some (type, rest)) :
    ∃ taken, tail = taken ++ rest ∧ taken ≠ [] ∧ ':' ∉ taken := by
  obtain ⟨words, hwords, gap, size, rfl, hgap, hspelt, hsize, -⟩ := exists_of_castType? h
  have hcolon : ':' ∉ gap ++ type ++ size := by
    simp only [List.mem_append, not_or]
    refine ⟨⟨fun hmem => absurd (hgap _ hmem) (by decide), fun hmem => ?_⟩, ?_⟩
    · exact (hspelt.isWord_or_isBlank (wordy_typeNames hwords).1 _ hmem).elim
        (fun hword => absurd hword (by decide)) fun hblank => absurd hblank (by decide)
    · rcases hsize with rfl | ⟨gap', digits, rfl, hgap', hdigits⟩
      · exact List.not_mem_nil
      · simp only [List.mem_append, List.mem_cons, not_or]
        exact ⟨⟨fun hmem => absurd (hgap' _ hmem) (by decide), by decide,
          fun hmem => absurd (hdigits _ hmem) (by decide)⟩, by decide⟩
  obtain ⟨c, later, rfl, -⟩ := hspelt.isWord_head (wordy_typeNames hwords).1
  exact ⟨_, by simp, by simp, hcolon⟩

/-! ### Types that are cut off -/

/-- The letters that are read for other ones in type names, but looked up as what they are. -/
def strangeLetters : List Char := ['ı', 'İ', 'ſ']

/-- Behind the colons of a cast stood a type name without a conversion, up to the end of `name` and of `lost`. Then a
call was written for a later cast, which `lost` has become a part of. What is left of the type name may start with a
shorter one. -/
def CutOff (tail : List Char) : Prop := ∃ gap name lost function later, ∃ words ∈ typeNames,
  tail = gap ++ (name ++ (function ++ '(' :: later)) ∧ (∀ c ∈ gap, isBlank c = true) ∧ function ∈ functions ∧
    Spelt words (name ++ lost) ∧ conversion? (name ++ lost) = none ∧ ∀ c ∈ lost, isWord c = true

/-- A text is a spelling of one type name only. -/
theorem Spelt.unique {words' : List (List Char)} (h : Spelt words y) (h' : Spelt words' y) (hwords : words ∈ typeNames)
    (hwords' : words' ∈ typeNames) : words = words' := by
  have hstart {words words' : List (List Char)} (h : Spelt words y) (h' : Spelt words' y)
      (hwords : words ∈ typeNames) (hwords' : words' ∈ typeNames) : words' <+: words := by
    have hsame : y ++ [] = y ++ [] := rfl
    rcases prefix_or_of_spelt h h' ⟨(wordy_typeNames hwords).1, lettered_typeNames hwords⟩
      ⟨(wordy_typeNames hwords').1, lettered_typeNames hwords'⟩ hsame rfl rfl with
      ⟨hstart, -⟩ | ⟨more, gap, x, -, heq, hne, -⟩
    · exact hstart
    · have hlength := congrArg List.length heq
      have hpos := List.length_pos_of_ne_nil hne
      simp only [List.length_append] at hlength
      omega
  exact (hstart h' h hwords' hwords).sublist.antisymm (hstart h h' hwords hwords').sublist

/-- Of two type names of which one starts with the other the longer one is read. -/
theorem eq_of_castType? {words' : List (List Char)} (h : castType? (gap ++ (y ++ z)) = some (type, rest))
    (hwords : words ∈ typeNames) (hspelt : Spelt words type) (hgap : ∀ c ∈ gap, isBlank c = true)
    (hwords' : words' ∈ typeNames) (hspelt' : Spelt words' y) (hbreaks : Text.breaksAfter z = true)
    (hshorter : words <+: words') : words = words' := by
  obtain ⟨c, later, hhead, hc⟩ := hspelt'.isWord_head (wordy_typeNames hwords').1
  have hbody : (gap ++ (y ++ z)).drop (Text.blankLength (gap ++ (y ++ z))) = y ++ z := by
    rw [Text.drop_blankLength, List.dropWhile_append_of_pos hgap, hhead, List.cons_append,
      List.dropWhile_cons_of_neg (by rw [isBlank_of_isWord hc]; exact Bool.false_ne_true)]
  unfold castType? at h
  dsimp only at h
  rw [hbody] at h
  obtain ⟨⟨n, m⟩, hfound, he⟩ := Option.map_eq_some_iff.1 h
  obtain ⟨earlier, chosen, others, hnames, hchosen, hnone⟩ := List.findSome?_eq_some_iff.1 hfound
  have hmem : chosen ∈ typeNames := hnames ▸ List.mem_append_right _ (List.mem_cons_self ..)
  obtain ⟨type', size, rest', heq, rfl, rfl, hspelt'', -⟩ := exists_of_typeLength? (wordy_typeNames hmem).2 hchosen
  dsimp only at he
  rw [heq, List.take_left] at he
  cases he
  obtain rfl := hspelt.unique hspelt'' hwords hmem
  have hpairwise : typeNames.Pairwise fun ws ws' => ¬ws <+: ws' := by decide +kernel
  rw [hnames, List.mem_append, List.mem_cons] at hwords'
  rcases hwords' with hearlier | rfl | hothers
  · have hsome : (typeLength? words' (y ++ z)).isSome = true :=
      isSome_typeLength? (wordsLength?_of_spelt hspelt'
        (wordy_typeNames (hnames ▸ List.mem_append_left _ hearlier)).1 z) (by rwa [List.drop_left])
    rw [hnone _ hearlier] at hsome
    cases hsome
  · rfl
  · rw [hnames, List.pairwise_append] at hpairwise
    exact absurd hshorter ((List.pairwise_cons.1 hpairwise.2.1).1 _ hothers)

/-- A type name without a conversion holds a strange letter. -/
theorem exists_strangeLetter (h : Spelt words y) (hwords : words ∈ typeNames) (hnone : conversion? y = none) :
    ∃ c ∈ y, c ∈ strangeLetters := by
  by_contra hall
  have hregular : ∀ c ∈ y, irregular ⟨false, false⟩ false c = false := by
    intro c hc
    have hnot : c ∉ strangeLetters := fun hmem => hall ⟨c, hc, hmem⟩
    simpa [irregular, strangeLetters, and_assoc] using hnot
  have hsome := isSome_conversion?_of_spelt hwords h (lowers_of_regular h hwords hregular)
  rw [hnone] at hsome
  cases hsome

/-- A call that is written at the end of a name, or into it at the start of a word, cuts the name off. -/
theorem cutOff_of_name {name lost : List Char} (hwords : words ∈ typeNames) (hgap : ∀ c ∈ gap, isBlank c = true)
    (hspelt : Spelt words (name ++ lost)) (hnone : conversion? (name ++ lost) = none)
    (hlost : ∀ c ∈ lost, isWord c = true) (hu : gap ++ name = u ++ x) (hx : ∀ c ∈ x, isWord c = true)
    (hfunction : function ∈ functions) : CutOff (u ++ (function ++ '(' :: z)) := by
  have hlost' : ∀ c ∈ x ++ lost, isWord c = true := fun c hc => (List.mem_append.1 hc).elim (hx c) (hlost c)
  rcases List.append_eq_append_iff.1 hu with ⟨b, rfl, rfl⟩ | ⟨b, rfl, rfl⟩
  · rw [List.append_assoc] at hspelt hnone
    exact ⟨gap, b, x ++ lost, function, z, words, hwords, List.append_assoc .., hgap, hfunction, hspelt, hnone, hlost'⟩
  · -- the word is the whole name
    have hb : b = [] := List.eq_nil_iff_forall_not_mem.2 fun c hc => by
      have hblank := isBlank_of_isWord (hx c (List.mem_append_left _ hc))
      rw [hgap c (List.mem_append_right _ hc)] at hblank
      cases hblank
    subst hb
    rw [List.append_nil] at hgap
    exact ⟨u, [], name ++ lost, function, z, words, hwords, rfl, hgap, hfunction, hspelt, hnone, hlost'⟩

/-- What is cut off stays so when a call is written farther on. -/
theorem CutOff.of_call (h : CutOff (u ++ y)) (hfunction : function ∈ functions)
    (hstarts : Starts (u.reverse ++ v) y) : CutOff (u ++ (function ++ '(' :: z)) := by
  obtain ⟨gap, name, lost, f, later, words, hwords, heq, hgap, hf, hspelt, hnone, hlost⟩ := h
  obtain ⟨hfne, hfword⟩ := isWord_functions hf
  have hfar {b : List Char} (hu : u = gap ++ (name ++ (f ++ '(' :: b))) : CutOff (u ++ (function ++ '(' :: z)) :=
    ⟨gap, name, lost, f, b ++ (function ++ '(' :: z), words, hwords, by simp [hu], hgap, hf, hspelt, hnone, hlost⟩
  have hsplit : u ++ y = (gap ++ name ++ f ++ ['(']) ++ later := by simp [heq]
  rcases List.append_eq_append_iff.1 hsplit with ⟨a, hhead, rfl⟩ | ⟨b, rfl, -⟩
  swap
  · exact hfar (b := b) (by simp)
  cases a using List.reverseRecOn with
  | nil => exact hfar (b := []) (by simpa using hhead.symm)
  | append_singleton a e =>
    rw [← List.append_assoc u] at hhead
    obtain ⟨hname, he⟩ := List.append_inj' hhead rfl
    cases he
    rw [List.append_assoc, List.singleton_append] at hstarts
    -- the operand starts in the name, or with the call
    have ha : ∀ c ∈ a, isWord c = true := by
      refine hstarts.isWord_of_append fun c hc => ?_
      have hmem : c ∈ gap ++ name ++ f := hname ▸ List.mem_append_right _ hc
      simp only [List.mem_append, or_assoc] at hmem
      rcases hmem with hmem | hmem | hmem
      · exact .inr (hgap c hmem)
      · exact hspelt.isWord_or_isBlank (wordy_typeNames hwords).1 c (List.mem_append_left _ hmem)
      · exact .inl (hfword c hmem)
    rcases List.append_eq_append_iff.1 hname with ⟨x, rfl, rfl⟩ | ⟨x, hu, rfl⟩
    · -- the word of the operand is a whole one
      have hx : x = [] := by
        cases x using List.reverseRecOn with
        | nil => rfl
        | append_singleton x c =>
          have hword := hfword c (by simp)
          rw [hstarts.whole ha c (by simp)] at hword
          cases hword
      subst hx
      exact cutOff_of_name (x := []) hwords hgap hspelt hnone hlost (by simp) (List.forall_mem_nil _) hfunction
    · exact cutOff_of_name hwords hgap hspelt hnone hlost hu (fun c hc => ha c (List.mem_append_left _ hc)) hfunction

/-- Of a name that has a conversion and one that has none the first is the shorter one. -/
theorem prefix_of_unknown {words' : List (List Char)} {y' z' : List Char} (hwords : words ∈ typeNames)
    (hwords' : words' ∈ typeNames) (hspelt : Spelt words y) (hspelt' : Spelt words' y') (heq : y ++ z = y' ++ z')
    (hz : Text.breaksAfter z = true) (hz' : Text.breaksAfter z' = true) (hunknown : conversion? y = none)
    (hknown : conversion? y' = some function) : words' <+: words ∧ y' <+: y := by
  refine (prefix_or_of_spelt hspelt hspelt' ⟨(wordy_typeNames hwords).1, lettered_typeNames hwords⟩
    ⟨(wordy_typeNames hwords').1, lettered_typeNames hwords'⟩ heq hz hz').resolve_right ?_
  rintro ⟨more, gap, x, -, rfl, -⟩
  have hlowers := (hspelt'.lowers hwords' hknown).mono (x := y) fun c hc => by simp [hc]
  have hsome := isSome_conversion?_of_spelt hwords hspelt hlowers
  rw [hunknown] at hsome
  cases hsome

/-- The shorter one is not read where the longer one stands. -/
theorem breaksAfter_of_unknown {words' : List (List Char)} {m : List Char}
    (h : castType? (gap ++ (y ++ m ++ z)) = some (y, rest)) (hgap : ∀ c ∈ gap, isBlank c = true)
    (hwords : words ∈ typeNames) (hwords' : words' ∈ typeNames) (hspelt : Spelt words (y ++ m))
    (hspelt' : Spelt words' y) (hshorter : words' <+: words) (hunknown : conversion? (y ++ m) = none)
    (hknown : conversion? y = some function) : Text.breaksAfter z = false := by
  by_contra hbreaks
  obtain rfl := eq_of_castType? h hwords' hspelt' hgap hwords hspelt (by simpa using hbreaks) hshorter
  have hshort := wordsLength?_of_spelt hspelt' (wordy_typeNames hwords).1 m
  have hlong := wordsLength?_of_spelt hspelt (wordy_typeNames hwords).1 []
  rw [List.append_nil, hshort, Option.some.injEq, List.length_append] at hlong
  obtain rfl : m = [] := List.length_eq_zero_iff.1 (by omega)
  rw [List.append_nil, hknown] at hunknown
  cases hunknown

/-- **A call that is written farther on cuts the name of a type off** if a type with a conversion is read behind it and
before it one without. -/
theorem cutOff_of_castType? {function' type' rest' : List Char} (hfunction : function ∈ functions)
    (hstarts : Starts earlier y) (htype : castType? (u ++ y) = some (type, rest)) (hunknown : conversion? type = none)
    (htype' : castType? (u ++ (function ++ '(' :: z)) = some (type', rest'))
    (hknown : conversion? type' = some function') : CutOff (u ++ (function ++ '(' :: z)) := by
  obtain ⟨words', hwords', gap, d, later, rfl, hgap, hspelt', hd⟩ := exists_of_castType?_of_call hfunction htype'
  obtain ⟨words, hwords, gap', size, heq, hgap', hspelt, -, hbreaks, -⟩ := exists_of_castType? htype
  rw [List.append_assoc, List.append_assoc] at heq
  obtain ⟨rfl, hbody⟩ := Text.eq_of_stretch hgap hgap' (hspelt'.isBlank_head (wordy_typeNames hwords').1)
    (hspelt.isBlank_head (wordy_typeNames hwords).1) heq
  have hd' : Text.breaksAfter (d :: later ++ y) = true := by simp [Text.breaksAfter, hd]
  -- what is read behind the call is a part of what was read before
  obtain ⟨hshorter, m, rfl⟩ :=
    prefix_of_unknown hwords hwords' hspelt hspelt' hbody.symm hbreaks hd' hunknown hknown
  have hcut {lost z' : List Char} (hm : m = d :: later ++ lost) (hy : y = lost ++ z') :
      CutOff (gap ++ (type' ++ d :: later) ++ (function ++ '(' :: z)) := by
    subst hm hy
    rw [← List.append_assoc] at hspelt hunknown
    have hlost : ∀ c ∈ lost, isWord c = true := hstarts.isWord_of_append fun c hc =>
      hspelt.isWord_or_isBlank (wordy_typeNames hwords).1 c (List.mem_append_right _ hc)
    exact cutOff_of_name (x := []) hwords hgap hspelt hunknown hlost (by simp) (List.forall_mem_nil _) hfunction
  rw [List.append_assoc, List.append_cancel_left_eq] at hbody
  rcases List.append_eq_append_iff.1 hbody with ⟨lost, hm, hy⟩ | ⟨b, hb, hrest⟩
  · exact hcut hm hy
  · cases b with
    | nil => exact hcut (by simpa using hb.symm) (List.nil_append y).symm
    | cons e b =>
      -- the longer name would be read behind the call, too
      have hread : castType? (gap ++ (type' ++ m ++ (e :: b ++ (function ++ '(' :: z)))) = some (type', rest') := by
        rw [← htype', hb]
        simp
      have hnone := breaksAfter_of_unknown hread hgap hwords hwords' hspelt hspelt' hshorter hunknown hknown
      rw [hrest] at hbreaks
      exact absurd (hbreaks.symm.trans hnone) (by decide)

/-- The text of a type without a conversion holds a strange letter. -/
theorem exists_strangeLetter_of_castType? (h : castType? cs = some (type, rest)) (hunknown : conversion? type = none) :
    ∃ c ∈ cs, c ∈ strangeLetters := by
  obtain ⟨words, hwords, gap, size, rfl, -, hspelt, -⟩ := exists_of_castType? h
  obtain ⟨c, hc, hstrange⟩ := exists_strangeLetter hspelt hwords hunknown
  exact ⟨c, by simp [hc], hstrange⟩

/-- A call that is written farther on makes a cast one that can be converted only by cutting off the name of its
type. -/
theorem cutOff_of_call (hfunction : function ∈ functions) (hstarts : Starts earlier y)
    (hold : castAt? before (':' :: ':' :: (u ++ y)) = none)
    (hnew : castAt? before (':' :: ':' :: (u ++ (function ++ '(' :: z))) ≠ none) :
    CutOff (u ++ (function ++ '(' :: z)) ∧ ∃ c ∈ u ++ y, c ∈ strangeLetters := by
  obtain ⟨⟨front, back⟩, hcast⟩ := Option.ne_none_iff_exists'.1 hnew
  obtain ⟨_, f, rest', operand, ⟨⟩, heven, hread, hoperand, -⟩ := castAt?_eq_some.1 hcast
  obtain ⟨type', htype', hknown⟩ := typeReading_eq_some.1 hread
  obtain ⟨⟨type, rest⟩, htype⟩ := Option.isSome_iff_exists.1
    (isSome_castType?_of_call hfunction (by rw [htype']; rfl) y)
  have hunknown : conversion? type = none := by
    rw [castAt?_eq_none_iff htype, Stays, heven, hoperand] at hold
    simpa using hold
  exact ⟨cutOff_of_castType? hfunction hstarts htype hunknown htype' hknown,
    exists_strangeLetter_of_castType? htype hunknown⟩

/-! ### Casts that are left -/

/-- What is left of the casts before a place, where `cs` was the text in the beginning: casts that stay, and casts with
a type name that is cut off. -/
structure Left (cs before after : List Char) : Prop where
  letters : ∀ c ∈ before.reverse ++ after, c ∈ strangeLetters → c ∈ cs
  casts : ∀ x y, before.reverse = x ++ y → y ≠ [] → castAt? x.reverse (y ++ after) = none ∨
    (∃ c ∈ cs, c ∈ strangeLetters) ∧ ∃ tail, y ++ after = ':' :: ':' :: tail ∧ CutOff tail

variable {after : List Char}

theorem Left.stays {c : Char} (h : Left cs before (c :: after)) (hcast : castAt? before (c :: after) = none) :
    Left cs (c :: before) after := by
  refine ⟨fun d hd => h.letters d (by simpa using hd), fun x y heq hne => ?_⟩
  obtain ⟨y, d, rfl⟩ := (List.eq_nil_or_concat' y).resolve_left hne
  rw [List.reverse_cons, ← List.append_assoc] at heq
  obtain ⟨hread, hd⟩ := List.append_inj' heq rfl
  cases hd
  rw [List.append_assoc, List.singleton_append]
  cases y with
  | nil =>
    rw [List.append_nil] at hread
    rw [← hread, List.reverse_reverse]
    exact .inl hcast
  | cons e y => exact h.casts x (e :: y) hread (List.cons_ne_nil e y)

/-- The colons of a cast do not go on into the name of a function. -/
theorem exists_colons (hfunction : function ∈ functions) (h : y ++ (function ++ z) = ':' :: ':' :: tail)
    (hne : y ≠ []) : ∃ u, y = ':' :: ':' :: u := by
  obtain ⟨hfunctionNe, hword⟩ := isWord_functions hfunction
  match y, hne with
  | [c], _ =>
    obtain ⟨f, fs, rfl⟩ := List.exists_cons_of_ne_nil hfunctionNe
    cases h
    exact absurd (hword ':' (List.mem_cons_self ..)) (by decide)
  | c :: d :: u, _ =>
    cases h
    exact ⟨u, rfl⟩

/-- No strange letter comes into a text with a call. -/
theorem mem_of_strange_call {c : Char} (hfunction : function ∈ functions) (hstrange : c ∈ strangeLetters)
    (h : c ∈ function ++ '(' :: (y ++ ')' :: z)) : c ∈ y ∨ c ∈ z := by
  have hplain : ∀ f ∈ functions, ∀ c ∈ strangeLetters, c ∉ f ∧ c ≠ '(' ∧ c ≠ ')' := by decide
  obtain ⟨hname, hopen, hclose⟩ := hplain function hfunction c hstrange
  simpa [hname, hopen, hclose] using h

theorem Left.converted {later : List Char} (h : Left cs before after)
    (hcast : castAt? before after = some (earlier, later)) : Left cs earlier later := by
  obtain ⟨tail, function, rest, operand, rfl, heven, hread, hoperand, rfl⟩ := castAt?_eq_some.1 hcast
  obtain ⟨type, htype, hconversion⟩ := typeReading_eq_some.1 hread
  have hfunction := mem_functions hconversion
  obtain rfl := splitOperand_eq hoperand
  have hcall : callOf function operand.reverse ++ rest = function ++ '(' :: (operand.reverse ++ ')' :: rest) := by
    simp [callOf]
  rw [hcall]
  refine ⟨fun c hc hstrange => h.letters c ?_ hstrange, fun x y heq hy => ?_⟩
  · rw [List.reverse_append]
    rcases List.mem_append.1 hc with hc | hc
    · exact List.mem_append_left _ (List.mem_append_left _ hc)
    rcases mem_of_strange_call hfunction hstrange hc with hc | hc
    · exact List.mem_append_left _ (List.mem_append_right _ hc)
    · have hrest := (sublist_castType? htype).subset hc
      exact List.mem_append_right _ (List.mem_cons_of_mem _ (List.mem_cons_of_mem _ hrest))
  rw [or_iff_not_imp_left]
  intro hnew
  obtain ⟨⟨front, back⟩, hsome⟩ := Option.ne_none_iff_exists'.1 hnew
  obtain ⟨tail', _, _, _, hcolons, -⟩ := castAt?_eq_some.1 hsome
  obtain ⟨u, rfl⟩ := exists_colons hfunction hcolons hy
  have hstarts : Starts earlier (operand.reverse ++ ':' :: ':' :: tail) :=
    splitOperand_starts hoperand (by decide) (by decide) (':' :: tail)
  have hold := h.casts x (':' :: ':' :: u ++ operand.reverse) (by rw [List.reverse_append, heq, List.append_assoc])
    (List.cons_ne_nil ':' _)
  have hsplit (v : List Char) :
      ':' :: ':' :: u ++ operand.reverse ++ v = ':' :: ':' :: (u ++ (operand.reverse ++ v)) := by
    simp
  rw [hsplit] at hold
  rcases hold with hnone | ⟨hstrange, _, ⟨⟩, hcut⟩
  · obtain ⟨hcut, c, hc, hstrange⟩ := cutOff_of_call hfunction hstarts hnone hnew
    refine ⟨⟨c, h.letters c ?_ hstrange, hstrange⟩, _, rfl, hcut⟩
    have htext : (operand ++ earlier).reverse ++ ':' :: ':' :: tail =
        x ++ (':' :: ':' :: (u ++ (operand.reverse ++ ':' :: ':' :: tail))) := by
      rw [List.reverse_append, heq]
      simp
    rw [htext]
    exact List.mem_append_right _ (List.mem_cons_of_mem _ (List.mem_cons_of_mem _ hc))
  · have hearlier : earlier = u.reverse ++ ':' :: ':' :: x.reverse := by
      rw [← List.reverse_reverse earlier, heq]
      simp
    rw [hearlier] at hstarts
    exact ⟨hstrange, _, rfl, hcut.of_call hfunction hstarts⟩

/-- **What is left of the casts of a text** stays, or has a type name that is cut off. -/
theorem Left.of_convertPostfixFrom (h : Left cs before after) (heq : convertPostfixFrom before after = x ++ y)
    (hne : y ≠ []) : castAt? x.reverse y = none ∨
      (∃ c ∈ cs, c ∈ strangeLetters) ∧ ∃ tail, y = ':' :: ':' :: tail ∧ CutOff tail := by
  induction before, after using castInduction with
  | nil before =>
    rw [convertPostfixFrom_nil] at heq
    simpa using h.casts x y heq hne
  | stays before c after hcast ih =>
    rw [convertPostfixFrom_stays hcast] at heq
    exact ih (h.stays hcast) heq
  | converted before after earlier later hcast ih =>
    rw [convertPostfixFrom_converted hcast] at heq
    exact ih (h.converted hcast) heq

theorem left_nil (cs : List Char) : Left cs [] cs :=
  ⟨fun _ hc _ => hc, fun _ _ heq hne => absurd (List.append_eq_nil_iff.1 heq.symm).2 hne⟩

/-- A cast that is left in the text that is returned. -/
theorem stays_or_cutOff (h : convertPostfixCasts cs = x ++ ':' :: ':' :: tail)
    (htype : castType? tail = some (type, rest)) :
    Stays x.reverse type ∨ (∃ c ∈ cs, c ∈ strangeLetters) ∧ CutOff tail := by
  rcases (left_nil cs).of_convertPostfixFrom h (List.cons_ne_nil ':' _) with hnone | ⟨hstrange, _, ⟨⟩, hcut⟩
  · exact .inl ((castAt?_eq_none_iff htype).1 hnone)
  · exact .inr ⟨hstrange, hcut⟩

/-! ### Rounds -/

/-- A place in a text: what precedes it, last character first, and what follows. -/
structure Place where
  before : List Char
  after : List Char
deriving DecidableEq

namespace Place

variable {p q : Place}

/-- The text in which a place is. -/
def text (p : Place) : List Char := p.before.reverse ++ p.after

/-- The first match at or after a place. -/
def search (before : List Char) : List Char → Option Place
  | [] => none
  | c :: cs => if (castMatch? (c :: cs)).isSome then some ⟨before, c :: cs⟩ else search (c :: before) cs

/-- One round of the loop: from the next match on it goes to the call that is written for the cast, or behind the
match if the cast stays. -/
def next? (p : Place) : Option Place := do
  let q ← search p.before p.after
  match castAt? q.before q.after with
  | some (earlier, later) => some ⟨earlier, later⟩
  | none => (castMatch? q.after).map fun m =>
    ⟨(q.after.take (q.after.length - m.2.length)).reverse ++ q.before, m.2⟩

/-- Where a match is found, and that casts are converted from there on. -/
theorem search_eq_some (h : search before cs = some q) : ∃ x, cs = x ++ q.after ∧ q.before = x.reverse ++ before ∧
    (castMatch? q.after).isSome = true ∧
      convertPostfixFrom before cs = convertPostfixFrom q.before q.after := by
  induction cs generalizing before with
  | nil => cases h
  | cons c cs ih =>
    unfold search at h
    split_ifs at h with hmatch
    · cases h
      exact ⟨[], rfl, rfl, hmatch, rfl⟩
    · obtain ⟨x, rfl, hbefore, hq, hrun⟩ := ih h
      have hnone : castMatch? (c :: (x ++ q.after)) = none := by simpa using hmatch
      exact ⟨c :: x, rfl, by simp [hbefore], hq, by
        rw [convertPostfixFrom_stays (castAt?_of_castMatch? hnone), hrun]⟩

/-- Where none is found, no cast is converted. -/
theorem search_eq_none (h : search before cs = none) : convertPostfixFrom before cs = before.reverse ++ cs := by
  induction cs generalizing before with
  | nil => rw [convertPostfixFrom_nil, List.append_nil]
  | cons c cs ih =>
    unfold search at h
    split_ifs at h with hmatch
    have hnone : castMatch? (c :: cs) = none := by simpa using hmatch
    rw [convertPostfixFrom_stays (castAt?_of_castMatch? hnone), ih h]
    simp

/-- The loop passes over a cast that stays: the text is the same, and the place moves on. -/
structure Passes (p q : Place) : Prop where
  text : q.text = p.text
  grows : p.before.length < q.before.length
  stays : ∃ before tail type, p.text = before ++ ':' :: ':' :: tail ∧ p.before.length ≤ before.length ∧
    castType? tail = some (type, q.after) ∧ Stays before.reverse type

/-- The loop converts a cast: of the pairs of colons in the text it takes out that of the cast, no other is lost, and
none is made. It goes on from the start of the call. -/
def Replaces (p q : Place) : Prop := ∃ earlier operand tail type rest function,
  p.text = earlier ++ operand ++ ':' :: ':' :: tail ∧ castType? tail = some (type, rest) ∧
    q = ⟨earlier.reverse, callOf function operand ++ rest⟩ ∧
    colonPairs p.text = colonPairs earlier + colonPairs operand + 1 + colonPairs rest ∧
    colonPairs q.text = colonPairs earlier + colonPairs operand + colonPairs rest

/-- A conversion takes one pair of colons out. -/
theorem colonPairs_call (hoperand : splitOperand before = some (operand, earlier))
    (htype : castType? tail = some (type, rest)) (hfunction : function ∈ functions) :
    colonPairs (earlier.reverse ++ operand.reverse ++ ':' :: ':' :: tail) =
        colonPairs earlier.reverse + colonPairs operand.reverse + 1 + colonPairs rest ∧
      colonPairs (earlier.reverse ++ (callOf function operand.reverse ++ rest)) =
        colonPairs earlier.reverse + colonPairs operand.reverse + colonPairs rest := by
  have hstart : operand.reverse.head? ≠ some ':' := by
    rw [List.head?_reverse]
    exact getLast?_operand hoperand
  have hend : (earlier.reverse ++ operand.reverse).getLast? ≠ some ':' := by
    rw [← List.reverse_append, List.getLast?_reverse, List.head?_append_of_ne_nil _ (splitOperand_ne_nil hoperand)]
    exact head?_operand hoperand
  obtain ⟨hne, hword⟩ := isWord_functions hfunction
  have hcolonless : ':' ∉ function := fun hmem => absurd (hword _ hmem) (by decide)
  have hhead : (function ++ ('(' :: (operand.reverse ++ ')' :: rest))).head? ≠ some ':' := by
    rw [List.head?_append_of_ne_nil _ hne]
    exact fun hc => hcolonless (List.mem_of_head? hc)
  obtain ⟨taken, rfl, htaken, hnone⟩ := exists_of_castType?_colonless htype
  have hcast : colonPairs (':' :: ':' :: (taken ++ rest)) = 1 + colonPairs rest := by
    have hcolons : (taken ++ rest).head? ≠ some ':' := by
      rw [List.head?_append_of_ne_nil _ htaken]
      exact fun hc => hnone (List.mem_of_head? hc)
    rw [colonPairs, colonPairs_cons_of_head hcolons, colonPairs_append (.inl fun hc => hnone (List.mem_of_getLast? hc)),
      colonPairs_of_colonless hnone]
    omega
  have hcall : callOf function operand.reverse ++ rest = function ++ ('(' :: (operand.reverse ++ ')' :: rest)) := by
    simp [callOf]
  have hclose : (')' :: rest).head? ≠ some ':' := by
    rw [List.head?_cons]
    decide
  constructor
  · rw [colonPairs_append (.inl hend), colonPairs_append (.inr hstart), hcast]
    omega
  · rw [hcall, colonPairs_append (.inr hhead), colonPairs_append (.inl fun hc => hcolonless (List.mem_of_getLast? hc)),
      colonPairs_of_colonless hcolonless, colonPairs_cons_of_ne (by decide), colonPairs_append (.inr hclose),
      colonPairs_cons_of_ne (by decide)]
    omega

/-- Reading goes on behind a match that stays. -/
theorem convertPostfixFrom_match (hcast : castAt? before (':' :: ':' :: (x ++ rest)) = none) (hne : x ≠ [])
    (hx : ':' ∉ x) : convertPostfixFrom before (':' :: ':' :: (x ++ rest)) =
      convertPostfixFrom ((':' :: ':' :: x).reverse ++ before) rest := by
  have hsecond : castAt? (':' :: before) (':' :: (x ++ rest)) = none := by
    obtain ⟨c, x, rfl⟩ := List.exists_cons_of_ne_nil hne
    refine castAt?_of_ne fun tail heq => hx ?_
    cases heq
    exact List.mem_cons_self ..
  rw [convertPostfixFrom_stays hcast, convertPostfixFrom_stays hsecond, convertPostfixFrom_of_colonless hx]
  simp

/-- **One round of the loop** passes over a cast or converts it. What is converted in the end is the same. -/
theorem of_next? (h : p.next? = some q) : (Passes p q ∨ Replaces p q) ∧
    convertPostfixFrom p.before p.after = convertPostfixFrom q.before q.after := by
  obtain ⟨site, hsearch, h⟩ := Option.bind_eq_some_iff.1 h
  obtain ⟨x, hafter, hbefore, hmatch, hrun⟩ := search_eq_some hsearch
  obtain ⟨⟨type, rest⟩, hmatch⟩ := Option.isSome_iff_exists.1 hmatch
  obtain ⟨tail, hsite, htype⟩ := castMatch?_eq_some.1 hmatch
  have htext : p.text = site.before.reverse ++ ':' :: ':' :: tail := by
    rw [text, hafter, hbefore, hsite]
    simp
  cases hcast : castAt? site.before site.after with
  | none =>
    simp only [hcast, hmatch, Option.map_some, Option.some.injEq] at h
    subst h
    obtain ⟨taken, rfl, hne, hcolon⟩ := exists_of_castType?_colonless htype
    have htaken : site.after.take (site.after.length - rest.length) = ':' :: ':' :: taken := by
      have hsplit : ':' :: ':' :: (taken ++ rest) = (':' :: ':' :: taken) ++ rest := rfl
      rw [hsite, hsplit, List.length_append, Nat.add_sub_cancel, List.take_left]
    refine ⟨.inl ⟨?_, ?_, site.before.reverse, taken ++ rest, type, htext, ?_, htype, ?_⟩, ?_⟩
    · rw [htext, text, htaken]
      simp
    · rw [htaken, hbefore]
      simp
      omega
    · rw [List.length_reverse, hbefore, List.length_append]
      omega
    · rw [List.reverse_reverse, ← castAt?_eq_none_iff htype, ← hsite]
      exact hcast
    · rw [hsite] at hcast
      rw [hrun, hsite, convertPostfixFrom_match hcast hne hcolon, ← hsite, htaken]
  | some later =>
    obtain ⟨earlier, later⟩ := later
    rw [hcast] at h
    cases h
    refine ⟨.inr ?_, by rw [hrun, convertPostfixFrom_converted hcast]⟩
    rw [hsite] at hcast
    obtain ⟨_, function, rest', operand, ⟨⟩, -, htypes, hoperand, rfl⟩ := castAt?_eq_some.1 hcast
    obtain ⟨_, htype', hfunction⟩ := typeReading_eq_some.1 htypes
    cases htype.symm.trans htype'
    rw [splitOperand_eq hoperand, List.reverse_append] at htext
    obtain ⟨hold, hnew⟩ := colonPairs_call hoperand htype (mem_functions hfunction)
    refine ⟨earlier.reverse, operand.reverse, tail, type, rest, function, htext, htype, by simp, ?_, hnew⟩
    rw [htext]
    exact hold

/-- The loop ends where no match is found. -/
theorem text_of_next? (h : p.next? = none) : convertPostfixFrom p.before p.after = p.text := by
  cases hsearch : search p.before p.after with
  | none => exact search_eq_none hsearch
  | some site =>
    obtain ⟨-, -, -, hmatch, -⟩ := search_eq_some hsearch
    obtain ⟨m, hmatch⟩ := Option.isSome_iff_exists.1 hmatch
    simp only [next?, hsearch, Option.bind_eq_bind, Option.bind_some, hmatch] at h
    split at h
    · cases h
    · cases h

/-- The loop goes on from a place to another. -/
def Next (p q : Place) : Prop := p.next? = some q

/-- The pairs of colons in the text, and what is left of it behind the place. -/
def rank (p : Place) : Nat × Nat := (colonPairs p.text, p.after.length)

/-- **No loop goes on forever:** a conversion takes a pair of colons out, and between conversions the text stays and
the rest of it gets shorter. -/
theorem wellFounded_next : WellFounded fun q p => Next p q := by
  refine Subrelation.wf (r := InvImage (Prod.Lex (· < ·) (· < ·)) rank) (fun {q p} h => ?_)
    (InvImage.wf _ (Prod.lex ⟨_, Nat.lt_wfRel.wf⟩ ⟨_, Nat.lt_wfRel.wf⟩).wf)
  rcases (of_next? h).1 with hpass | ⟨earlier, operand, tail, type, rest, function, -, -, -, hold, hnew⟩
  · have hlength := congrArg List.length hpass.text
    have hgrows := hpass.grows
    simp only [text, List.length_append, List.length_reverse] at hlength
    rw [InvImage, rank, rank, hpass.text]
    exact .right _ (by omega)
  · exact .left _ _ (by omega)

/-- **The loop comes to an end,** with the text in which the casts are converted. -/
theorem exists_last (p : Place) : ∃ last, Relation.ReflTransGen Next p last ∧ last.next? = none ∧
    last.text = convertPostfixFrom p.before p.after := by
  induction p using wellFounded_next.induction with
  | _ p ih =>
    cases h : p.next? with
    | none =>
      exact ⟨p, .refl, h, (text_of_next? h).symm⟩
    | some q =>
      obtain ⟨last, hrun, hlast, htext⟩ := ih q h
      exact ⟨last, .head h hrun, hlast, by rw [htext, (of_next? h).2]⟩

end Place

/-- **The loop over the casts of a text** comes to an end, whatever the text is. Each round passes over a cast, with the
place moving on in the same text, or takes exactly one pair of colons out. In the text that is returned a cast stands
inside of quotes, has no operand or has a type without a conversion, if not a later conversion has cut the name of its
type off. -/
theorem convertPostfixCasts_loop (cs : List Char) :
    (WellFounded fun q p => Place.Next p q) ∧
    (∀ p q, Place.Next p q → Place.Passes p q ∨ Place.Replaces p q) ∧
    (∃ last, Relation.ReflTransGen Place.Next ⟨[], cs⟩ last ∧ last.next? = none ∧
      last.text = convertPostfixCasts cs) ∧
    ∀ x tail type rest, convertPostfixCasts cs = x ++ ':' :: ':' :: tail → castType? tail = some (type, rest) →
      Stays x.reverse type ∨ (∃ c ∈ cs, c ∈ strangeLetters) ∧ CutOff tail :=
  ⟨Place.wellFounded_next, fun _ _ h => (Place.of_next? h).1, Place.exists_last ⟨[], cs⟩,
    fun _ _ _ _ => stays_or_cutOff⟩

/-- A cast in the quotes of an operand is passed over and stays. -/
theorem convertPostfixCasts_loop_quoted :
    (Place.Next ⟨[], "'a::date'::text".toList⟩ ⟨"'a::date".toList.reverse, "'::text".toList⟩ ∧
      Place.Passes ⟨[], "'a::date'::text".toList⟩ ⟨"'a::date".toList.reverse, "'::text".toList⟩) ∧
    convertPostfixCasts "'a::date'::text".toList = "toString('a".toList ++ ':' :: ':' :: "date')".toList ∧
    castType? "date')".toList = some ("date".toList, "')".toList) ∧
    Stays "toString('a".toList.reverse "date".toList := by
  obtain ⟨-, hround, -, hleft⟩ := convertPostfixCasts_loop "'a::date'::text".toList
  have hnext : Place.next? ⟨[], "'a::date'::text".toList⟩ = some ⟨"'a::date".toList.reverse, "'::text".toList⟩ := by
    decide +kernel
  have hpasses := (hround _ _ hnext).resolve_right fun ⟨_, _, _, _, _, _, _, _, _, hold, hnew⟩ => by
    have hsame := hold.symm.trans hnew
    omega
  have hcasts : convertPostfixCasts "'a::date'::text".toList =
      "toString('a".toList ++ ':' :: ':' :: "date')".toList := by
    decide +kernel
  have htype : castType? "date')".toList = some ("date".toList, "')".toList) := by decide +kernel
  have hstays := (hleft _ _ _ _ hcasts htype).resolve_right fun ⟨⟨c, hc, hstrange⟩, _⟩ => by
    have hplain : ∀ c ∈ "'a::date'::text".toList, c ∉ strangeLetters := by decide +kernel
    exact hplain c hc hstrange
  exact ⟨⟨hnext, hpasses⟩, hcasts, htype, hstays⟩

/-- A name with a letter that is read for another one is passed over, then cut off, and not looked at again. -/
theorem not_forall_stays : ¬∀ cs x tail type rest, convertPostfixCasts cs = x ++ ':' :: ':' :: tail →
    castType? tail = some (type, rest) → Stays x.reverse type := fun h => by
  have hstays := h "x::timestamp with tıme zone::date".toList ['x'] "timestamp with tıme toDate(zone)".toList
    "timestamp".toList " with tıme toDate(zone)".toList (by decide +kernel) (by decide +kernel)
  revert hstays
  unfold Stays
  decide +kernel

end Sql
end CardTransfer
