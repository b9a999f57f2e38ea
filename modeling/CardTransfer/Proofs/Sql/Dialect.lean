import CardTransfer.Proofs.Sql.Literal
import CardTransfer.Proofs.Sql.PostfixCast

/-!
# What the rules keep of the parameters of a query

All rules keep a name in double braces that holds no quotes, parentheses and casts (`IsPlain`) and no name
that is exchanged. Two rules lose others, or lose the name with them:

- `current_date` is exchanged inside of braces as outside, so that the parameter of that name is lost.
- The size of a type is dropped with all that it holds. What is kept is stated for queries that the rules
  convert without such sizes: leaving these casts as they are (`plainCast?`) makes no difference to them.
-/

namespace CardTransfer
namespace Sql

open Text (Clear isMatch)

variable {name cs x v : List Char} {before : Option Char}

/-! ### Names that are exchanged -/

theorem braced_infix_replace {rule : Text.Rule Unit} {write : Unit → Option (List Char)}
    (hmatch : ∀ before cs n a, rule before cs = some (n, a) → '\x7b' ∉ cs.take (n - 1 + 1))
    (hclear : ∀ before v, Clear (isMatch rule) before (braced name) v) (h : braced name <:+: x) :
    braced name <:+: Text.replace rule write x := by
  rw [Text.replace_eq]
  exact Text.infix_replaceFrom hmatch hclear h

theorem callRule_braceless {word : List Char} (hword : Braceless word) {n : Nat} {a : Unit}
    (h : callRule word before cs = some (n, a)) : '\x7b' ∉ cs.take (n - 1 + 1) := by
  obtain ⟨m, hm, he⟩ := Option.map_eq_some_iff.1 h
  cases he
  obtain ⟨head, rest, rfl, rfl, hhead⟩ := callHead?_eq_some hword hm
  rw [Nat.add_sub_cancel, List.append_cons, List.take_left' (by simp)]
  intro hc
  rcases List.mem_append.1 hc with hc | hc
  · cases hhead _ hc
  · cases List.mem_singleton.1 hc

theorem todayRule_braceless {n : Nat} {a : Unit} (h : todayRule before cs = some (n, a)) :
    '\x7b' ∉ cs.take (n - 1 + 1) := by
  unfold todayRule at h
  dsimp only at h
  split at h
  case isFalse => cases h
  rename_i htoday
  simp only [Bool.and_eq_true] at htoday
  cases h
  intro hc
  obtain ⟨l, hl, hfold⟩ := Text.exists_foldsTo_of_mem_take htoday.1.1.2 hc
  exact absurd hfold (by revert l; decide)

/-- A text that holds no letter of `current_date` holds no name to exchange. -/
theorem clear_todayRule (h : ∀ c ∈ x, ∀ l ∈ "current_date".toList, Text.foldsTo l c = false) :
    Clear (isMatch todayRule) before x v := by
  induction x generalizing before with
  | nil => trivial
  | cons c x ih =>
    have hc := h c (List.mem_cons_self ..)
    refine ⟨?_, ih fun d hd => h d (List.mem_cons_of_mem _ hd)⟩
    have hstart := Text.startsWith_append_cons (x := []) (v := x ++ v) hc
    rw [List.nil_append] at hstart
    rw [Text.isMatch_eq_false, todayRule, List.cons_append, hstart]
    simp [Text.startsWith]

/-- What follows a text without parentheses does not make `current_date` of its end. -/
theorem todayRule_append_cons {d : Char} {after : Option Char}
    (hd : ∀ l ∈ "current_date".toList, Text.foldsTo l d = false) (hx : '(' ∉ x)
    (hbefore : Text.breaksBefore after = true → Text.breaksBefore before = true)
    (h : todayRule before x = none) : todayRule after (x ++ d :: v) = none := by
  have hrest : ((x.drop 12).drop (Text.blankLength (x.drop 12))).head? ≠ some '(' := by
    intro hhead
    have hmem := List.mem_of_mem_head? (Option.mem_def.2 hhead)
    exact hx (List.mem_of_mem_drop (List.mem_of_mem_drop hmem))
  have hlength : "current_date".toList.length = 12 := rfl
  unfold todayRule at h ⊢
  dsimp only at h ⊢
  rw [hlength] at h ⊢
  rw [Text.startsWith_append_cons hd]
  split at h
  case isTrue => cases h
  rename_i hno
  refine if_neg fun hyes => hno ?_
  simp only [Bool.and_eq_true] at hyes ⊢
  obtain ⟨⟨⟨hb, hstart⟩, hafter⟩, -⟩ := hyes
  refine ⟨⟨⟨hbefore hb, hstart⟩, ?_⟩, bne_iff_ne.2 hrest⟩
  have hle : 12 ≤ x.length := Text.length_le_of_startsWith hstart
  rw [List.drop_append_of_le_length hle] at hafter
  cases hend : x.drop 12 with
  | nil => rfl
  | cons c rest =>
    rw [hend] at hafter
    exact hafter

theorem clear_todayRule_append_cons {d : Char} {after : Option Char}
    (hd : ∀ l ∈ "current_date".toList, Text.foldsTo l d = false) (hx : '(' ∉ x)
    (hbefore : Text.breaksBefore after = true → Text.breaksBefore before = true)
    (h : Clear (isMatch todayRule) before x []) : Clear (isMatch todayRule) after x (d :: v) := by
  induction x generalizing before after with
  | nil => trivial
  | cons c x ih =>
    have hhere := Text.isMatch_eq_false.1 h.1
    rw [List.append_nil] at hhere
    exact ⟨Text.isMatch_eq_false.2 (todayRule_append_cons hd hx hbefore hhere),
      ih (fun hc => hx (List.mem_cons_of_mem _ hc)) id h.2⟩

/-! ### Parameters -/

/-- A parameter that no rule finds a construct in. -/
structure Inert (p : List Char) : Prop extends Markless p where
  unrenamed : Text.matchesOf todayRule p = []

theorem foldsTo_of_isBlank {c : Char} (h : Text.isBlank c = true) :
    ∀ l ∈ "current_date".toList, Text.foldsTo l c = false := by
  have hblanks : ∀ c ∈ Text.blanks, ∀ l ∈ "current_date".toList, Text.foldsTo l c = false := by
    decide +kernel
  exact hblanks c (Text.mem_blanks h)

/-- A name is plain if it is so without the blanks around it. -/
theorem Inert.isPlain (h : Inert (Text.trim name)) (hname : IsName name) : IsPlain name := by
  obtain ⟨left, right, heq, hleft, hright⟩ := Text.exists_blanks name
  have hmem {c : Char} (hc : Text.isBlank c = false) (hin : c ∈ name) : c ∈ Text.trim name := by
    rw [heq, List.mem_append, List.mem_append] at hin
    rcases hin with (hin | hin) | hin
    · rw [hleft c hin] at hc
      cases hc
    · exact hin
    · rw [hright c hin] at hc
      cases hc
  refine ⟨hname, fun c hc hin => h.marks c hc (hmem ?_ hin), fun hin => h.uncast ?_⟩
  · have hmarks : ∀ c ∈ ['\'', '"', '(', ')'], Text.isBlank c = false := by decide
    exact hmarks c hc
  · rw [heq, List.append_assoc] at hin
    have hafter := Text.infix_of_head_not_mem hin fun hc => absurd (hleft _ hc) (by decide)
    exact Text.infix_of_last_not_mem (w := [':']) hafter fun hc => absurd (hright _ hc) (by decide)

/-- `current_date` is not found in the braces of a parameter that does not hold it. -/
theorem Inert.clear_braced (h : Inert (Text.trim name)) :
    Clear (isMatch todayRule) before (braced name) v := by
  obtain ⟨left, right, heq, hleft, hright⟩ := Text.exists_blanks name
  have hparameter := Text.matchesOf_eq_nil_iff.1 h.unrenamed
  generalize Text.trim name = p at heq hparameter h
  subst heq
  have hbraced : braced (left ++ p ++ right) =
      ('\x7b' :: '\x7b' :: left) ++ (p ++ (right ++ ['\x7d', '\x7d'])) := by simp [braced]
  rw [hbraced, Text.clear_append, Text.clear_append]
  refine ⟨clear_todayRule ?_, ?_, clear_todayRule ?_⟩
  · intro c hc
    simp only [List.mem_cons] at hc
    rcases hc with rfl | rfl | hc
    · decide
    · decide
    · exact foldsTo_of_isBlank (hleft c hc)
  · have hopen : '(' ∉ p := h.marks _ (by simp)
    cases right with
    | nil => exact clear_todayRule_append_cons (by decide) hopen (fun _ => rfl) hparameter
    | cons d right =>
      have hd := foldsTo_of_isBlank (hright d (List.mem_cons_self ..))
      exact clear_todayRule_append_cons hd hopen (fun _ => rfl) hparameter
  · intro c hc
    simp only [List.mem_append, List.mem_cons, List.not_mem_nil, or_false] at hc
    rcases hc with hc | rfl | rfl
    · exact foldsTo_of_isBlank (hright c hc)
    · decide
    · decide

/-- The exchange of a name keeps a name in braces that it is not found in. -/
theorem braced_infix_rename {rule : Text.Rule Unit} {text : String} (hplain : IsPlain name)
    (hmatch : ∀ before cs n a, rule before cs = some (n, a) → '\x7b' ∉ cs.take (n - 1 + 1))
    (hclear : ∀ before v, Clear (isMatch rule) before (braced name) v) (h : braced name <:+: x) :
    braced name <:+: rename rule text x :=
  braced_infix_mapOutside (hplain.not_mem_braced (by simp))
    (fun _ h => braced_infix_replace hmatch hclear h) h

/-- The exchange of the name of a function keeps a plain name in braces. -/
theorem braced_infix_renameCalls (function text : String) (hword : Braceless function.toList)
    (hplain : IsPlain name) (h : braced name <:+: x) :
    braced name <:+: rename (callRule function.toList) text x := by
  refine braced_infix_rename hplain (fun _ _ _ _ => callRule_braceless hword) (fun before v => ?_) h
  rw [braced_eq]
  exact clear_callRule hword rfl (by simpa using hplain.marks '(' (by simp))

/-- **The rules keep a plain name in braces** in a query of which no cast with a brace in its type is
converted, if the name holds no name that is exchanged. -/
theorem braced_infix_applyRules (hplain : IsPlain name)
    (htoday : ∀ before v, Clear (isMatch todayRule) before (braced name) v)
    (hcasts : replaceCalls "cast" plainCast? cs = convertCasts cs) (h : braced name <:+: cs) :
    braced name <:+: applyRules cs := by
  have hcast : braced name <:+: convertCasts cs :=
    hcasts ▸ braced_infix_replaceCalls "cast" (by decide) hplain keeps_plainCast? h
  have hpostfix : braced name <:+: convertPostfixCasts (convertCasts cs) :=
    braced_infix_convertPostfixFrom hplain hcast
  have htrunc := braced_infix_replaceCalls "date_trunc" (by decide) hplain keeps_truncCall? hpostfix
  have hpart := braced_infix_replaceCalls "date_part" (by decide) hplain keeps_partCall? htrunc
  have hextract := braced_infix_replaceCalls "extract" (by decide) hplain keeps_extractCall? hpart
  have htrim := braced_infix_replaceCalls "btrim" (by decide) hplain keeps_trimCall? hextract
  have hlong := braced_infix_renameCalls "character_length" "lengthUTF8(" (by decide) hplain htrim
  have hshort := braced_infix_renameCalls "char_length" "lengthUTF8(" (by decide) hplain hlong
  have hposition := braced_infix_renameCalls "strpos" "position(" (by decide) hplain hshort
  exact braced_infix_rename hplain (fun _ _ _ _ => todayRule_braceless) htoday hposition

/-- **The rules keep an inert parameter** of a query of which no cast with a brace in its type is
converted. -/
theorem mem_placeholders_toClickHouse {p query : String} (hinert : Inert p.toList)
    (hcasts : replaceCalls "cast" plainCast? query.toList = convertCasts query.toList)
    (h : p ∈ placeholders query) : p ∈ placeholders (toClickHouse query) := by
  obtain ⟨name, hname, hin, htrim⟩ := mem_placeholders_iff.1 h
  rw [← htrim] at hinert
  have hkept := braced_infix_applyRules (hinert.isPlain hname) (fun _ _ => hinert.clear_braced) hcasts hin
  exact mem_placeholders_iff.2 ⟨name, hname, by rwa [toClickHouse, String.toList_ofList], htrim⟩

end Sql
end CardTransfer
