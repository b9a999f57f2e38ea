import CardTransfer.Proofs.Text.Scan
import CardTransfer.Sql.TagTable
import CardTransfer.Sql.Literal
import CardTransfer.Sql.Placeholder
import Mathlib.Data.List.TakeWhile

/-!
# What placeholders a text has

A name is in the list of the placeholders exactly if it stands in double braces somewhere in the text,
apart from blanks around it (`mem_placeholders_iff`): placeholders do not overlap, so the scan misses
none.
-/

namespace CardTransfer
namespace Sql

/-- What can stand between the braces of a placeholder. -/
structure IsName (name : List Char) : Prop where
  nonempty : name ≠ []
  braceless : ∀ c ∈ name, isBrace c = false

/-- A text without quotes, parentheses and the colons of a cast. -/
structure Markless (x : List Char) : Prop where
  marks : ∀ c ∈ ['\'', '"', '(', ')'], c ∉ x
  uncast : ¬[':', ':'] <:+: x

/-- A name without them. -/
structure IsPlain (name : List Char) : Prop extends IsName name, Markless name

variable {name other a b v : List Char}

theorem IsName.not_mem (h : IsName name) : '\x7b' ∉ name ∧ '\x7d' ∉ name :=
  ⟨fun hc => absurd (h.braceless _ hc) (by decide), fun hc => absurd (h.braceless _ hc) (by decide)⟩

/-! ### Texts in double braces -/

theorem braced_eq (name : List Char) :
    braced name = '\x7b' :: ('\x7b' :: name ++ ['\x7d']) ++ ['\x7d'] := by
  simp [braced]

/-- A text in braces does not start before the first brace. -/
theorem braced_infix_right (h : braced name <:+: a ++ b) (ha : '\x7b' ∉ a) : braced name <:+: b :=
  Text.infix_of_head_not_mem h ha

/-- A text in braces does not end after the last brace. -/
theorem braced_infix_left (h : braced name <:+: a ++ b) (hb : '\x7d' ∉ b) : braced name <:+: a := by
  rw [braced_eq] at h ⊢
  exact Text.infix_of_last_not_mem h hb

theorem IsPlain.not_mem_braced (h : IsPlain name) {c : Char} (hc : c ∈ ['\'', '"', '(', ')']) :
    c ∉ braced name := by
  have hname := h.marks c hc
  simp only [List.mem_cons, List.not_mem_nil, or_false] at hc
  rcases hc with rfl | rfl | rfl | rfl <;> simpa [braced] using hname

/-- What is dropped of a text without opening braces is no part of a text in braces. -/
theorem braced_infix_drop {k : Nat} (h : braced name <:+: a) (hk : '\x7b' ∉ a.take k) :
    braced name <:+: a.drop k := by
  rw [← List.take_append_drop k a] at h
  exact braced_infix_right h hk

theorem braced_infix_dropWhile {p : Char → Bool} (h : braced name <:+: a) (hp : p '\x7b' = false) :
    braced name <:+: a.dropWhile p := by
  rw [← List.takeWhile_append_dropWhile (p := p) (l := a)] at h
  refine braced_infix_right h fun hc => ?_
  rw [List.mem_takeWhile_imp hc] at hp
  cases hp

/-- Trimming keeps a text in braces. -/
theorem braced_infix_trim (h : braced name <:+: a) : braced name <:+: Text.trim a := by
  have hstart : braced name <:+: Text.trimStart a := braced_infix_dropWhile h (by decide)
  unfold Text.trim Text.trimEnd
  generalize Text.trimStart a = b at hstart
  rw [← List.reverse_reverse b, ← List.takeWhile_append_dropWhile (p := Text.isBlank) (l := b.reverse),
    List.reverse_append] at hstart
  refine braced_infix_left hstart fun hc => ?_
  rw [List.mem_reverse] at hc
  exact absurd (List.mem_takeWhile_imp hc) (by decide)

/-- A name in braces does not reach over the colons of a cast. -/
theorem IsPlain.infix_or_of_colons (h : IsPlain name) (hi : braced name <:+: a ++ ':' :: ':' :: b) :
    braced name <:+: a ∨ braced name <:+: b := by
  rcases List.infix_append_iff.1 hi with hi | hi | ⟨x, y, hxy, hx, hy⟩
  · exact .inl hi
  · exact .inr (braced_infix_right (a := [':', ':']) hi (by decide))
  rcases List.prefix_cons_iff.1 hy with rfl | ⟨z, rfl, hz⟩
  · rw [List.append_nil] at hxy
    exact .inl (hxy ▸ hx.isInfix)
  rcases List.prefix_cons_iff.1 hz with rfl | ⟨y, rfl, -⟩
  · rw [braced_eq] at hxy
    cases (List.append_inj' hxy rfl).2
  · -- both colons would be part of the name
    have hcolons : [':', ':'] <:+: braced name := ⟨x, y, by rw [hxy, List.append_assoc]; rfl⟩
    have hright : [':'] ++ [':'] <:+: name ++ ['\x7d', '\x7d'] :=
      Text.infix_of_head_not_mem (a := ['\x7b', '\x7b']) hcolons (by decide)
    exact absurd (Text.infix_of_last_not_mem hright (by decide)) h.uncast

theorem IsName.count_open (h : IsName name) : (braced name).count '\x7b' = 2 := by
  have hname : name.count '\x7b' = 0 := List.count_eq_zero.2 h.not_mem.1
  simp [braced, hname]

theorem IsName.count_close (h : IsName name) : (braced name).count '\x7d' = 2 := by
  have hname : name.count '\x7d' = 0 := List.count_eq_zero.2 h.not_mem.2
  simp [braced, hname]

/-- What stands in braces is read up to the next brace. -/
theorem IsName.eq_of_append (h : IsName name) (hother : IsName other)
    (heq : braced name ++ a = braced other ++ b) : name = other := by
  have hread {n : List Char} (hn : IsName n) (v : List Char) :
      ((n ++ '\x7d' :: '\x7d' :: v).takeWhile fun c => !isBrace c) = n := by
    rw [List.takeWhile_append_of_pos fun c hc => by rw [hn.braceless c hc]; rfl]
    exact List.append_nil n
  simp only [braced, List.cons_append, List.append_assoc, List.nil_append, List.cons.injEq,
    true_and] at heq
  rw [← hread h a, ← hread hother b, heq]

/-- A name is not part of another in its braces. -/
theorem IsName.eq_of_infix (h : IsName name) (hother : IsName other) (hi : braced name <:+: braced other) :
    name = other := by
  obtain ⟨s, t, hst⟩ := hi
  cases s with
  | nil => exact h.eq_of_append (a := t) (b := []) hother (by rw [List.append_nil]; exact hst)
  | cons c s =>
    -- another opening brace would be one too many
    have hopen := congrArg (List.count '\x7b') hst
    obtain ⟨rfl, -⟩ := List.cons.inj hst
    rw [hother.count_open, List.cons_append, List.cons_append, List.count_cons_self, List.count_append,
      List.count_append, h.count_open] at hopen
    omega

/-- **Placeholders do not overlap.** -/
theorem IsName.infix_braced_append (h : IsName name) (hother : IsName other)
    (hi : braced name <:+: braced other ++ v) : name = other ∨ braced name <:+: v := by
  rcases List.infix_append_iff.1 hi with hi | hi | ⟨x, y, hxy, hx, hy⟩
  · exact .inl (h.eq_of_infix hother hi)
  · exact .inr hi
  have hclose := congrArg (List.count '\x7d') hxy
  rw [h.count_close, List.count_append] at hclose
  cases x with
  | nil =>
    rw [hxy]
    exact .inr hy.isInfix
  | cons c x =>
    cases x with
    | nil =>
      -- an opening brace is not the last one of the other
      obtain ⟨rfl, -⟩ := List.cons.inj hxy
      obtain ⟨z, hz⟩ := hx
      have hlast := congrArg List.getLast? hz
      rw [List.getLast?_concat, braced_eq, List.getLast?_concat] at hlast
      cases hlast
    | cons d x =>
      -- both closing braces are there already
      have hend : ['\x7d', '\x7d'] <:+ c :: d :: x :=
        List.suffix_of_suffix_length_le ⟨'\x7b' :: '\x7b' :: other, rfl⟩ hx (by simp)
      have htwo : 2 ≤ (c :: d :: x).count '\x7d' := hend.sublist.count_le '\x7d'
      have hnone : y.count '\x7d' = 0 := by omega
      cases y using List.reverseRecOn with
      | nil =>
        rw [List.append_nil] at hxy
        exact .inl (h.eq_of_infix hother (by rw [hxy]; exact hx.isInfix))
      | append_singleton y e =>
        have hlast := congrArg List.getLast? hxy
        rw [braced_eq, List.getLast?_concat, ← List.append_assoc, List.getLast?_concat] at hlast
        cases hlast
        rw [List.count_append, List.count_singleton_self] at hnone
        omega

/-! ### The scan -/

/-- The rule for placeholders matches a name in its braces. -/
theorem placeholderRule_braced (h : IsName name) (before : Option Char) :
    placeholderRule before (braced name ++ v) = some (name.length + 4, Text.trim name) := by
  have htake : ((name ++ '\x7d' :: '\x7d' :: v).takeWhile fun c => !isBrace c) = name := by
    rw [List.takeWhile_append_of_pos fun c hc => by rw [h.braceless c hc]; rfl]
    exact List.append_nil name
  have hname : name.isEmpty = false := List.isEmpty_eq_false_iff.2 h.nonempty
  simp [braced, placeholderRule, htake, hname]

/-- The rule for placeholders matches nothing else. -/
theorem eq_braced_of_placeholderRule {before : Option Char} {cs : List Char} {n : Nat}
    (h : placeholderRule before cs = some (n, a)) :
    ∃ name v, IsName name ∧ cs = braced name ++ v ∧ n = name.length + 4 ∧ a = Text.trim name := by
  unfold placeholderRule at h
  split at h
  case h_2 => cases h
  rename_i rest
  dsimp only at h
  split at h
  case isTrue => cases h
  rename_i hname
  split at h
  case h_2 => cases h
  rename_i v hafter
  cases h
  refine ⟨_, v, ⟨by simpa using hname, fun c hc => by simpa using List.mem_takeWhile_imp hc⟩, ?_, rfl, rfl⟩
  obtain ⟨t, ht⟩ := List.takeWhile_prefix (p := fun c => !isBrace c) (l := rest)
  have ht' : t = '\x7d' :: '\x7d' :: v := by
    rw [← hafter]
    conv_rhs => arg 2; rw [← ht]
    rw [List.drop_left]
  simp only [braced, List.cons_append, List.append_assoc, List.nil_append]
  rw [← ht', ht]

/-- What is found from a place on. -/
theorem found_mem_scanFrom_iff {skip : Nat} {before : Option Char} {cs : List Char} :
    (∃ taken, .found a taken ∈ Text.scanFrom placeholderRule skip before cs) ↔
      ∃ name, IsName name ∧ braced name <:+: cs.drop skip ∧ Text.trim name = a := by
  induction cs generalizing skip before with
  | nil => simp [Text.scanFrom, braced]
  | cons c cs ih =>
    cases skip with
    | succ skip => exact ih
    | zero =>
      rw [List.drop_zero]
      unfold Text.scanFrom
      cases hrule : placeholderRule before (c :: cs) with
      | none =>
        simp only [List.mem_cons, reduceCtorEq, false_or, ih, List.drop_zero]
        refine exists_congr fun name => and_congr_right fun hname => and_congr_left fun _ => ?_
        refine ⟨fun h => h.trans (List.suffix_cons ..).isInfix, fun h => ?_⟩
        rcases List.infix_cons_iff.1 h with ⟨v, hv⟩ | h
        · rw [← hv, placeholderRule_braced hname] at hrule
          cases hrule
        · exact h
      | some p =>
        obtain ⟨n, b⟩ := p
        obtain ⟨other, v, hother, hcs, rfl, rfl⟩ := eq_braced_of_placeholderRule hrule
        have hafter : cs.drop (other.length + 4 - 1) = v := by
          have hlength : other.length + 4 = (braced other).length := by simp [braced]
          have hdrop := congrArg (List.drop (braced other).length) hcs
          rw [List.drop_left, ← hlength] at hdrop
          exact hdrop
        have hlater : (∃ taken, .found a taken ∈
            Text.scanFrom placeholderRule (other.length + 4 - 1) (some c) cs) ↔ _ := ih
        rw [hafter] at hlater
        constructor
        · rintro ⟨taken, h⟩
          rcases List.mem_cons.1 h with h | h
          · cases h
            exact ⟨other, hother, hcs ▸ (List.prefix_append ..).isInfix, rfl⟩
          · obtain ⟨name, hname, hi, ha⟩ := hlater.1 ⟨taken, h⟩
            exact ⟨name, hname, hcs ▸ hi.trans (List.suffix_append ..).isInfix, ha⟩
        · rintro ⟨name, hname, hi, rfl⟩
          rw [hcs] at hi
          rcases hname.infix_braced_append hother hi with rfl | hi
          · exact ⟨_, List.mem_cons_self ..⟩
          · obtain ⟨taken, h⟩ := hlater.2 ⟨name, hname, hi, rfl⟩
            exact ⟨taken, List.mem_cons_of_mem _ h⟩

/-- **The placeholders of a text are what stands in its double braces.** -/
theorem mem_placeholders_iff {p query : String} : p ∈ placeholders query ↔
    ∃ name, IsName name ∧ braced name <:+: query.toList ∧ Text.trim name = p.toList := by
  have hfound : (∃ taken, .found p.toList taken ∈
      Text.scanFrom placeholderRule 0 none query.toList) ↔ _ := found_mem_scanFrom_iff
  rw [List.drop_zero] at hfound
  rw [← hfound, placeholders, Sorting.mem_sort, placeholderNames, List.mem_eraseDups, List.mem_map]
  change _ ↔ ∃ taken, _ ∈ Text.scan placeholderRule query.toList
  rw [← Text.mem_matchesOf_iff]
  constructor
  · rintro ⟨name, h, rfl⟩
    rwa [String.toList_ofList]
  · intro h
    exact ⟨_, h, String.ofList_toList⟩

end Sql
end CardTransfer

/-!
## What stands outside of literals

A literal starts and ends with a quote (`quotes_of_found`), so that a text without quotes stands in one
literal or in one stretch outside of them. What is changed outside of literals keeps a name in double
braces if it is kept in every stretch (`braced_infix_mapOutside`).
-/

namespace CardTransfer
namespace Sql

variable {name cs run taken : List Char} {f : List Char → List Char}

/-! ### Quotes -/

theorem oddQuotes_cons (c : Char) (x : List Char) :
    oddQuotes (c :: x) = (oddQuotes x ^^ (c == '\'')) := by
  unfold oddQuotes
  rw [List.count_cons]
  by_cases hc : c == '\''
  · rw [if_pos hc, hc]
    rcases Nat.mod_two_eq_zero_or_one (x.count '\'') with h | h <;> simp [Nat.add_mod, h]
  · rw [if_neg hc]
    simp [hc]

theorem oddQuotes_append (x y : List Char) : oddQuotes (x ++ y) = (oddQuotes x ^^ oddQuotes y) := by
  induction x with
  | nil => simp [oddQuotes]
  | cons c x ih =>
    rw [List.cons_append, oddQuotes_cons, ih, oddQuotes_cons, Bool.xor_assoc, Bool.xor_assoc,
      Bool.xor_comm (oddQuotes y)]

/-- A literal ends with a quote. -/
theorem take_closing? {n : Nat} (h : closing? cs = some n) : ∃ inner, cs.take n = inner ++ ['\''] := by
  fun_induction closing? cs generalizing n with
  | case1 => cases h
  | case2 cs m hm ih =>
    cases h
    obtain ⟨inner, hinner⟩ := ih hm
    exact ⟨'\'' :: '\'' :: inner, by simp [hinner]⟩
  | case3 cs hm ih =>
    cases h
    exact ⟨[], rfl⟩
  | case4 c cs hc hq =>
    cases h
    exact ⟨[], by simpa using hq⟩
  | case5 c cs hc hq ih =>
    obtain ⟨m, hm, rfl⟩ := Option.map_eq_some_iff.1 h
    obtain ⟨inner, hinner⟩ := ih hm
    exact ⟨c :: inner, by simp [hinner]⟩

/-- A literal starts and ends with a quote. -/
theorem quotes_of_found {a : Unit} {skip : Nat} {before : Option Char}
    (h : .found a taken ∈ Text.scanFrom literalRule skip before cs) :
    ∃ inner, taken = '\'' :: inner ++ ['\''] := by
  induction cs generalizing skip before with
  | nil => simp [Text.scanFrom] at h
  | cons c cs ih =>
    cases skip with
    | succ skip => exact ih h
    | zero =>
      unfold Text.scanFrom at h
      split at h
      · rename_i n b hrule
        rcases List.mem_cons.1 h with h | h
        · cases h
          unfold literalRule at hrule
          split at hrule
          · rename_i heq
            cases heq
            obtain ⟨m, hm, he⟩ := Option.map_eq_some_iff.1 hrule
            cases he
            obtain ⟨inner, hinner⟩ := take_closing? hm
            exact ⟨inner, by simp [hinner]⟩
          · cases hrule
        · exact ih h
      · rcases List.mem_cons.1 h with h | h
        · cases h
        · exact ih h

/-! ### Changes outside of literals -/

theorem braced_infix_mapRuns {pieces : List (Text.Piece Unit)} (hname : '\'' ∉ braced name)
    (hf : ∀ x, braced name <:+: x → braced name <:+: f x)
    (hpieces : ∀ a taken, .found a taken ∈ pieces → ∃ inner, taken = '\'' :: inner ++ ['\''])
    (h : braced name <:+: run.reverse ++ pieces.flatMap Text.Piece.source) :
    braced name <:+: mapRuns f run pieces := by
  induction pieces generalizing run with
  | nil =>
    rw [List.flatMap_nil, List.append_nil] at h
    exact hf _ h
  | cons piece pieces ih =>
    have hlater := fun a taken h => hpieces a taken (List.mem_cons_of_mem _ h)
    cases piece with
    | plain c =>
      refine ih hlater ?_
      rwa [List.reverse_cons, List.append_assoc]
    | found a taken =>
      obtain ⟨inner, rfl⟩ := hpieces a taken (List.mem_cons_self ..)
      rw [List.flatMap_cons, Text.Piece.source, List.cons_append, List.cons_append] at h
      have hsource : ('\'' :: inner ++ ['\'']) <:+:
          mapRuns f run (.found a ('\'' :: inner ++ ['\'']) :: pieces) := List.infix_append ..
      rcases Text.infix_or_of_not_mem h hname with h | h
      · rw [mapRuns, List.append_assoc]
        exact (hf _ h).trans (List.prefix_append ..).isInfix
      rw [List.append_assoc] at h
      rcases Text.infix_or_of_not_mem h hname with h | h
      · exact (h.trans (List.infix_append ['\''] inner ['\''])).trans hsource
      · have hkept : braced name <:+: mapRuns f [] pieces := ih hlater h
        exact hkept.trans (List.suffix_append ..).isInfix

/-- **A change outside of literals keeps a name in braces** if it keeps the name in every stretch. -/
theorem braced_infix_mapOutside (hname : '\'' ∉ braced name)
    (hf : ∀ x, braced name <:+: x → braced name <:+: f x) (h : braced name <:+: cs) :
    braced name <:+: mapOutside f cs := by
  refine braced_infix_mapRuns hname hf (fun a taken h => quotes_of_found h) ?_
  rwa [Text.flatMap_source_scan]

/-! ### Literals that close within a text -/

theorem literalRule_before (before after : Option Char) (cs : List Char) :
    literalRule before cs = literalRule after cs := by
  cases cs with
  | nil => rfl
  | cons c cs => by_cases hc : c = '\'' <;> simp [literalRule, hc]

theorem scanFrom_literalRule_before (before after : Option Char) (cs : List Char) :
    Text.scanFrom literalRule 0 before cs = Text.scanFrom literalRule 0 after cs := by
  cases cs with
  | nil => rfl
  | cons c cs => rw [Text.scanFrom, Text.scanFrom, literalRule_before before after]

theorem scanFrom_literalRule_skip (n : Nat) (before after : Option Char) (cs : List Char) :
    Text.scanFrom literalRule n before cs = Text.scanFrom literalRule 0 after (cs.drop n) := by
  induction cs generalizing n before with
  | nil => simp [Text.scanFrom]
  | cons c cs ih =>
    cases n with
    | zero => exact scanFrom_literalRule_before before after (c :: cs)
    | succ n => exact ih n (some c)

/-- The quotes up to the end of a literal are odd in number. -/
theorem oddQuotes_take_closing? {n : Nat} (h : closing? cs = some n) : oddQuotes (cs.take n) = true := by
  fun_induction closing? cs generalizing n with
  | case1 => cases h
  | case2 cs m hm ih =>
    cases h
    simp [List.take_succ_cons, oddQuotes_cons, ih hm]
  | case3 cs hm ih =>
    cases h
    rfl
  | case4 c cs hc hq =>
    cases h
    cases beq_iff_eq.1 hq
    rfl
  | case5 c cs hc hq ih =>
    obtain ⟨m, hm, rfl⟩ := Option.map_eq_some_iff.1 h
    simp [List.take_succ_cons, oddQuotes_cons, hq, ih hm]

/-- A quote that nothing closes is the last one. -/
theorem quote_notMem_of_closing? (h : closing? cs = none) : '\'' ∉ cs := by
  fun_induction closing? cs with
  | case1 => exact List.not_mem_nil
  | case2 => cases h
  | case3 => cases h
  | case4 => cases h
  | case5 c cs hc hq ih =>
    rw [List.mem_cons, not_or]
    exact ⟨fun heq => hq (beq_iff_eq.2 heq.symm), ih (Option.map_eq_none_iff.1 h)⟩

theorem closing?_cons {c : Char} (hc : c ≠ '\'') : closing? (c :: cs) = (closing? cs).map (· + 1) := by
  rw [closing?]
  · rw [if_neg (by simpa using hc)]
  · exact fun _ hquote _ => hc hquote

theorem getLast?_ne_of_cons {c : Char} {a : Option Char} (hodd : oddQuotes cs = true)
    (h : (c :: cs).getLast? ≠ a) : cs.getLast? ≠ a := by
  cases cs with
  | nil => cases hodd
  | cons d cs => rwa [List.getLast?_cons_cons] at h

/-- **A literal that is open at the start of a text with an odd number of quotes closes in it,** unless the
text ends with the last of them and another follows. -/
theorem closing?_append {s : List Char} (hodd : oddQuotes cs = true)
    (hlast : cs.getLast? ≠ some '\'' ∨ s.head? ≠ some '\'') :
    ∃ n, closing? cs = some n ∧ closing? (cs ++ s) = some n := by
  fun_induction closing? cs with
  | case1 => cases hodd
  | case2 cs m hm ih =>
    have hodd' : oddQuotes cs = true := by simpa [oddQuotes_cons] using hodd
    rw [List.getLast?_cons_cons] at hlast
    obtain ⟨n, hn, hns⟩ := ih hodd' (hlast.imp_left (getLast?_ne_of_cons hodd'))
    exact ⟨m + 2, rfl, by rw [List.cons_append, List.cons_append, closing?, hns, ← hn, hm]⟩
  | case3 cs hm ih =>
    have hodd' : oddQuotes cs = true := by simpa [oddQuotes_cons] using hodd
    rw [List.getLast?_cons_cons] at hlast
    obtain ⟨n, hn, -⟩ := ih hodd' (hlast.imp_left (getLast?_ne_of_cons hodd'))
    rw [hm] at hn
    cases hn
  | case4 c cs hc hq =>
    cases beq_iff_eq.1 hq
    cases cs with
    | nil =>
      have hhead : s.head? ≠ some '\'' := hlast.resolve_left (not_not.2 rfl)
      cases s with
      | nil => exact ⟨1, rfl, rfl⟩
      | cons d s =>
        have hd : d ≠ '\'' := fun hd => hhead (by rw [hd]; rfl)
        exact ⟨1, rfl, by simp [closing?, hd]⟩
    | cons d cs =>
      have hd : d ≠ '\'' := fun hd => hc cs rfl (by rw [hd])
      exact ⟨1, rfl, by simp [closing?, hd]⟩
  | case5 c cs hc hq ih =>
    have hodd' : oddQuotes cs = true := by simpa [oddQuotes_cons, hq] using hodd
    obtain ⟨n, hn, hns⟩ := ih hodd' (hlast.imp_left (getLast?_ne_of_cons hodd'))
    rw [beq_iff_eq] at hq
    exact ⟨n + 1, by rw [hn]; rfl, by rw [List.cons_append, closing?_cons hq, hns]; rfl⟩

/-- **A text whose literals close in it is scanned apart from what follows.** -/
theorem scanFrom_append {x s : List Char} {before after : Option Char} (heven : oddQuotes x = false)
    (hlast : x.getLast? ≠ some '\'' ∨ s.head? ≠ some '\'') :
    Text.scanFrom literalRule 0 before (x ++ s) =
      Text.scanFrom literalRule 0 before x ++ Text.scanFrom literalRule 0 after s := by
  induction hn : x.length using Nat.strong_induction_on generalizing x before with
  | _ k ih =>
    cases x with
    | nil => exact scanFrom_literalRule_before before after s
    | cons c x =>
      by_cases hc : c = '\''
      · subst hc
        have hodd : oddQuotes x = true := by simpa [oddQuotes_cons] using heven
        obtain ⟨n, hclose, hcloses⟩ := closing?_append (s := s) hodd (hlast.imp_left (getLast?_ne_of_cons hodd))
        have hle := (closing?_le hclose).2
        have hrule : literalRule before ('\'' :: x) = some (n + 1, ()) := by
          rw [literalRule, hclose]
          rfl
        have hrules : literalRule before ('\'' :: (x ++ s)) = some (n + 1, ()) := by
          rw [literalRule, hcloses]
          rfl
        have htake : ('\'' :: (x ++ s)).take (n + 1 - 1 + 1) = ('\'' :: x).take (n + 1 - 1 + 1) := by
          rw [Nat.add_sub_cancel, List.take_succ_cons, List.take_succ_cons,
            List.take_append_of_le_length hle]
        -- what follows the literal has an even number of quotes again
        have hrest : oddQuotes (x.drop n) = false := by
          have hsplit := oddQuotes_append (x.take n) (x.drop n)
          rw [List.take_append_drop, hodd, oddQuotes_take_closing? hclose] at hsplit
          simpa using hsplit.symm
        have hrestLast : (x.drop n).getLast? ≠ some '\'' ∨ s.head? ≠ some '\'' := by
          refine hlast.imp_left fun hlast => ?_
          rw [List.getLast?_drop]
          split
          · exact (Option.some_ne_none _).symm
          · exact getLast?_ne_of_cons hodd hlast
        have hshort : (x.drop n).length < k := by
          rw [List.length_drop, ← hn, List.length_cons]
          omega
        have hlater : Text.scanFrom literalRule 0 none (x.drop n ++ s) = _ :=
          ih _ hshort hrest hrestLast rfl
        rw [List.cons_append, Text.scanFrom, hrules, Text.scanFrom, hrule]
        dsimp only
        rw [htake, Nat.add_sub_cancel, scanFrom_literalRule_skip n _ none,
          scanFrom_literalRule_skip n _ none, List.drop_append_of_le_length hle, hlater, List.cons_append]
      · rw [oddQuotes_cons, beq_eq_false_iff_ne.2 hc, Bool.xor_false] at heven
        have hlast' : x.getLast? ≠ some '\'' ∨ s.head? ≠ some '\'' := by
          cases x with
          | nil => exact .inl (Option.some_ne_none _).symm
          | cons d x => rwa [List.getLast?_cons_cons] at hlast
        have hrule (cs : List Char) : literalRule before (c :: cs) = none := by simp [literalRule, hc]
        rw [List.cons_append, Text.scanFrom, hrule, Text.scanFrom, hrule]
        dsimp only
        rw [ih x.length (by rw [← hn, List.length_cons]; omega) heven hlast' rfl, List.cons_append]

theorem scan_append {x s : List Char} (heven : oddQuotes x = false)
    (hlast : x.getLast? ≠ some '\'' ∨ s.head? ≠ some '\'') :
    Text.scan literalRule (x ++ s) = Text.scan literalRule x ++ Text.scan literalRule s :=
  scanFrom_append heven hlast

theorem literals_append {x s : List Char} (heven : oddQuotes x = false)
    (hlast : x.getLast? ≠ some '\'' ∨ s.head? ≠ some '\'') :
    literals (x ++ s) = literals x ++ literals s := by
  unfold literals
  rw [scan_append heven hlast, List.filterMap_append]

/-! ### The first literal -/

/-- No quote follows a literal directly. -/
theorem head?_drop_closing? {n : Nat} (hodd : oddQuotes cs = true) (h : closing? cs = some n) :
    (cs.drop n).head? ≠ some '\'' := by
  fun_induction closing? cs generalizing n with
  | case1 => cases h
  | case2 cs m hm ih =>
    cases h
    exact ih (by simpa [oddQuotes_cons] using hodd) hm
  | case3 cs hm ih =>
    have hodd' : oddQuotes cs = true := by simpa [oddQuotes_cons] using hodd
    obtain ⟨m, hsome, -⟩ := closing?_append (s := []) hodd' (.inr (Option.some_ne_none _).symm)
    rw [hm] at hsome
    cases hsome
  | case4 c cs hc hq =>
    cases h
    rw [List.drop_one, List.tail_cons]
    intro hhead
    obtain ⟨rest, rfl⟩ := List.head?_eq_some_iff.1 hhead
    exact hc rest (beq_iff_eq.1 hq) rfl
  | case5 c cs hc hq ih =>
    obtain ⟨m, hm, rfl⟩ := Option.map_eq_some_iff.1 h
    exact ih (by simpa [oddQuotes_cons, hq] using hodd) hm

/-- **A text with an even number of quotes has none or a first literal,** behind which their number is even
again. -/
theorem exists_literal (heven : oddQuotes cs = false) (hquote : '\'' ∈ cs) : ∃ u w rest,
    cs = u ++ '\'' :: (w ++ rest) ∧ '\'' ∉ u ∧ closing? w = some w.length ∧ rest.head? ≠ some '\'' ∧
      oddQuotes rest = false := by
  obtain ⟨u, y, rfl, hu⟩ := List.eq_append_cons_of_mem hquote
  have hquoteless : oddQuotes u = false := by
    rw [oddQuotes, List.count_eq_zero.2 hu]
    rfl
  have hodd : oddQuotes y = true := by
    rw [oddQuotes_append, hquoteless, oddQuotes_cons] at heven
    simpa using heven
  obtain ⟨n, hn, -⟩ := closing?_append (s := []) hodd (.inr (Option.some_ne_none _).symm)
  have hhead := head?_drop_closing? hodd hn
  have htaken := oddQuotes_take_closing? hn
  have hrest : oddQuotes (y.drop n) = false := by
    have hsplit := oddQuotes_append (y.take n) (y.drop n)
    rw [List.take_append_drop, hodd, htaken] at hsplit
    simpa using hsplit.symm
  obtain ⟨m, hm, hm'⟩ := closing?_append htaken (.inr hhead)
  rw [List.take_append_drop, hn] at hm'
  cases hm'
  refine ⟨u, y.take n, y.drop n, by rw [List.take_append_drop], hu, ?_, hhead, hrest⟩
  rw [hm, List.length_take_of_le (closing?_le hn).2]

/-- A literal is one piece. -/
theorem scan_literal {w : List Char} (h : closing? w = some w.length) :
    Text.scan literalRule ('\'' :: w) = [.found () ('\'' :: w)] := by
  rw [Text.scan, Text.scanFrom, literalRule, h, Option.map_some]
  simp only [Nat.add_sub_cancel, List.take_succ_cons, List.take_length]
  rw [scanFrom_literalRule_skip _ _ none, List.drop_length, Text.scanFrom]

theorem oddQuotes_literal {w : List Char} (h : closing? w = some w.length) :
    oddQuotes ('\'' :: w) = false := by
  have hodd := oddQuotes_take_closing? h
  rw [List.take_length] at hodd
  rw [oddQuotes_cons, hodd]
  rfl

end Sql
end CardTransfer
