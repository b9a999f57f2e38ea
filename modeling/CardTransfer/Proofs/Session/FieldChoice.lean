import CardTransfer.Catalog.FieldChoice
import CardTransfer.Proofs.Catalog.Correspondence
import CardTransfer.Proofs.Catalog.Suggestion
import CardTransfer.Proofs.Session.Kept
import CardTransfer.Proofs.Sql.CastType
import CardTransfer.Proofs.Text.Numeral
import CardTransfer.Session.Mappings

/-!
# What a suggested field is

A suggestion is made by name or by the oracle, and each of the two ways names a field of the table that takes
the place of the field's own (`suggestion_is_candidate`). How one comes about is spelled out first
(`Suggesting`); what each way gives is known from the candidates and from the answer.
-/

/-!
## The field that is chosen

By name the best field is chosen: no other scores higher, and none that scores as high has a smaller id
(`best_of_byName?`). It is chosen exactly if a score is high enough (`byName?_eq_none_iff`).

In an answer of the oracle the first number counts that stands behind `field_id:`, with blanks between
them at most (`FirstNumber`). The text is read from its first place on, so it is enough to know what is
found at one place (`idMark?_eq_some_iff`); blanks around the text do not matter (`FirstNumber.of_trim`).
-/

namespace CardTransfer

/-! ### Digits of every script -/

namespace Text

variable {cs : List Char}

theorem isBlank_of_isDigit {c : Char} (h : isDigit c = true) : isBlank c = false := by
  by_contra hblank
  rw [isDigit_of_isBlank (by simpa using hblank)] at h
  cases h

/-- A digit as `0` – `9`. -/
def plainDigit (c : Char) : Char := Nat.digitChar ((digitValue? c).getD 0)

theorem toNat_plainDigit {c : Char} (h : isDigit c = true) :
    (plainDigit c).isDigit = true ∧ (plainDigit c).toNat - 48 = (digitValue? c).getD 0 := by
  obtain ⟨d, hd⟩ := Option.isSome_iff_exists.1 h
  have hlt := digitValue?_lt hd
  rw [plainDigit, hd, Option.getD_some]
  exact ⟨by simp [hlt], by rw [Nat.toNat_digitChar_of_lt_ten hlt]; omega⟩

theorem numeralOf_of_isDigit (h : ∀ c ∈ cs, isDigit c = true) : numeralOf cs = cs.map plainDigit := by
  have hdrop {ds : List Char} (hds : ∀ c ∈ ds, isDigit c = true) : ds.dropWhile isNumeralBlank = ds := by
    cases ds with
    | nil => rfl
    | cons c ds =>
      have hblank := isBlank_of_isDigit (hds c (List.mem_cons_self ..))
      exact List.dropWhile_cons_of_neg (by simp [isNumeralBlank, hblank])
  unfold numeralOf
  rw [hdrop h, hdrop fun c hc => h c (List.mem_reverse.1 hc), List.reverse_reverse]
  refine List.map_congr_left fun c hc => ?_
  obtain ⟨d, hd⟩ := Option.isSome_iff_exists.1 (h c hc)
  rw [plainDigit, hd, Option.getD_some]

theorem digitsValue_map_plainDigit (h : ∀ c ∈ cs, isDigit c = true) :
    digitsValue (cs.map plainDigit) = numberOf cs := by
  unfold digitsValue numberOf
  rw [List.foldl_map]
  exact List.foldl_ext _ _ _ fun n c hc => by rw [(toNat_plainDigit (h c hc)).2]

/-- **A row of digits of any script is read as the number that it spells**, if it is not too long. -/
theorem eq_numberOf_of_toInt {n : Int} (h : ∀ c ∈ cs, isDigit c = true)
    (hread : (Json.str (String.ofList cs)).toInt = .ok n) : n = numberOf cs := by
  have hplain : ∀ c ∈ cs.map plainDigit, c.isDigit = true :=
    List.forall_mem_map.2 fun c hc => (toNat_plainDigit (h c hc)).1
  unfold Json.toInt at hread
  simp only [String.toList_ofList] at hread
  split at hread
  case h_1 => cases hread
  case h_3 => cases hread
  rename_i m _ hm
  obtain rfl := Except.ok.inj hread
  unfold toInt? at hm
  rw [numeralOf_of_isDigit h, takeSign_of_isDigit hplain] at hm
  simp only [joinDigits?_of_isDigit hplain, Option.bind_eq_bind, Option.bind_some] at hm
  split at hm
  · cases hm
  · rw [← digitsValue_map_plainDigit h]
    exact (Option.some.inj hm).symm

end Text

/-! ### The best field -/

/-- How a field scores as a candidate for another, by their names. -/
def Field.Scores (f g : Field) (x : Float) : Prop :=
  ∃ a b, f.naming = .ok a ∧ g.naming = .ok b ∧ x = (a.agreement b).score

/-- The best of some fields for another: no score is higher, and where one is as high, no id is smaller. -/
structure Field.Best (f : Field) (candidates : List Field) (g : Field) (x : Float) : Prop where
  mem : g ∈ candidates
  scores : f.Scores g x
  first : ∀ g' ∈ candidates, ∀ x', f.Scores g' x' →
    x' < x ∨ x' = x ∧ ∀ m n, g.id = .int m → g'.id = .int n → m ≤ n

namespace FieldChoice

variable {f g : Field} {candidates : List Field} {r : Ranked} {ranked : List Ranked} {id : Json}
  {choice : FieldChoice}

/-- What ranks a field among the candidates for another. -/
theorem exists_grade_of_rankField? (hid : ∃ n, g.id = .int n) (h : rankField? f g = .ok (some r)) :
    ∃ a n, r = (Grade.mk a false true n g.name).ranked ∧ g.id = .int n ∧ f.Scores g a.score ∧
      0 < a.score := by
  obtain ⟨a, ha, h⟩ := bind_eq_ok.1 h
  obtain ⟨b, hb, h⟩ := bind_eq_ok.1 h
  obtain ⟨n, hn⟩ := hid
  change ite ((a.agreement b).score > 0) _ _ = _ at h
  split at h
  · rename_i hpos
    cases h
    exact ⟨a.agreement b, n, by rw [hn]; rfl, hn, ⟨a, b, ha, hb, rfl⟩, hpos⟩
  · cases h

/-- The candidates among some fields, and what ranks each. -/
theorem grade_of_rankFields (hids : ∀ g ∈ candidates, ∃ n, g.id = .int n)
    {found : List (Option Ranked)} (h : candidates.mapM (rankField? f) = .ok found) :
    ∀ r ∈ found.filterMap fun o => o, ∃ g ∈ candidates, ∃ a n,
      r = (Grade.mk a false true n g.name).ranked ∧ g.id = .int n ∧ f.Scores g a.score ∧ 0 < a.score := by
  intro r hr
  obtain ⟨o, ho, rfl⟩ := List.mem_filterMap.1 hr
  obtain ⟨g, hg, hrank⟩ := mem_of_mapM h ho
  exact ⟨g, hg, exists_grade_of_rankField? (hids g hg) hrank⟩

/-- A field that scores is among the candidates. -/
theorem exists_found {found : List (Option Ranked)} (h : candidates.mapM (rankField? f) = .ok found)
    (hg : g ∈ candidates) {x : Float} (hx : f.Scores g x) (hpos : 0 < x) :
    ∃ r ∈ found.filterMap fun o => o, r.id = g.id ∧ r.score = x := by
  obtain ⟨a, b, ha, hb, rfl⟩ := hx
  obtain ⟨o, ho, hrank⟩ := exists_of_mapM h hg
  have hfound : rankField? f g =
      .ok (some ⟨(a.agreement b).score, true, g.id, g.name, (a.agreement b).reason⟩) := by
    unfold rankField?
    rw [ha, hb]
    exact if_pos hpos
  rw [hfound] at hrank
  cases hrank
  exact ⟨_, List.mem_filterMap.2 ⟨_, ho, rfl⟩, rfl, rfl⟩

theorem accepted_iff (a : Agreement) : acceptedScore ≤ a.score ↔ 92 ≤ a.weight false := by
  cases a <;> decide +kernel

theorem score_pos_iff (a : Agreement) : 0 < a.score ↔ 0 < a.weight false := by
  cases a <;> decide +kernel

/-- **The first of the candidates in their order is the best field.** -/
theorem best_of_head? (hids : ∀ g ∈ candidates, ∃ n, g.id = .int n) (h : rankFields f candidates = .ok ranked)
    (hr : ranked.head? = some r) : ∃ g ∈ candidates, f.Best candidates g r.score ∧ r.id = g.id := by
  obtain ⟨found, hfound, hsort⟩ := bind_eq_ok.1 h
  have hgrade := grade_of_rankFields hids hfound
  have hgrades : ∀ r ∈ found.filterMap fun o => o, ∃ k : Grade, r = k.ranked := fun r hr => by
    obtain ⟨g, -, a, n, heq, -⟩ := hgrade r hr
    exact ⟨_, heq⟩
  have hmem : r ∈ found.filterMap fun o => o :=
    (Grade.sorted hgrades hsort).1.mem_iff.1 (List.mem_of_head? hr)
  obtain ⟨g, hg, a, n, rfl, hn, hscore, hpos⟩ := hgrade r hmem
  refine ⟨g, hg, ⟨hg, hscore, fun g' hg' x' hx' => ?_⟩, hn.symm⟩
  have hx := hx'
  obtain ⟨b, b', -, -, rfl⟩ := hx
  change _ < a.score ∨ _ = a.score ∧ _
  by_cases hpos' : 0 < (b.agreement b').score
  · obtain ⟨r', hr', hid', hscore'⟩ := exists_found hfound hg' hx' hpos'
    have hle := Grade.head_le hgrades hsort hr hr'
    obtain ⟨g'', -, a', n', rfl, hn', -⟩ := hgrade r' hr'
    obtain ⟨rfl, -⟩ : a' = b.agreement b' ∧ _ := Agreement.eq_of_tableScore (c := false) (d := false) hscore'
    rcases Grade.le_iff.1 hle with hlt | ⟨heq, hids⟩
    · exact .inl ((Agreement.tableScore_lt_iff _ _ false false).2 hlt)
    · obtain ⟨rfl, -⟩ := Agreement.eq_of_weight heq
      refine .inr ⟨rfl, fun m n'' hm hn'' => ?_⟩
      rw [hn] at hm
      rw [hn''] at hid'
      cases hm
      cases hid'
      simpa using hids
  · rw [score_pos_iff] at hpos hpos'
    exact .inl ((Agreement.tableScore_lt_iff _ _ false false).2 (by omega))

/-- **A field that scores high enough is chosen, or another one.** -/
theorem exists_of_accepted (hids : ∀ g ∈ candidates, ∃ n, g.id = .int n)
    (h : rankFields f candidates = .ok ranked) (hg : g ∈ candidates) {x : Float} (hx : f.Scores g x)
    (haccepted : acceptedScore ≤ x) (id : Json) : ∃ choice, byName? id ranked = some choice := by
  obtain ⟨found, hfound, hsort⟩ := bind_eq_ok.1 h
  have hgrades : ∀ r ∈ found.filterMap fun o => o, ∃ k : Grade, r = k.ranked := fun r hr => by
    obtain ⟨g, -, a, n, heq, -⟩ := grade_of_rankFields hids hfound r hr
    exact ⟨_, heq⟩
  have hx' := hx
  obtain ⟨a, b, -, -, rfl⟩ := hx'
  have hweight := (accepted_iff _).1 haccepted
  obtain ⟨r, hr, -, hscore⟩ := exists_found hfound hg hx ((score_pos_iff _).2 (by omega))
  cases ranked with
  | nil => exact absurd ((Grade.sorted hgrades hsort).1.mem_iff.2 hr) List.not_mem_nil
  | cons best rest =>
    obtain ⟨g', -, hbest, -⟩ := best_of_head? hids h rfl
    refine ⟨_, if_pos ?_⟩
    obtain ⟨c, d, -, -, hc⟩ := hbest.scores
    rw [hc]
    rcases hbest.first g hg _ hx with hlt | ⟨heq, -⟩
    · rw [hc] at hlt
      have hle := (Agreement.tableScore_lt_iff _ _ false false).1 hlt
      exact (accepted_iff _).2 (by omega)
    · rw [← hc, ← heq]
      exact haccepted

/-- **A choice by name is the best field, and scores high enough.** -/
theorem best_of_byName? (hids : ∀ g ∈ candidates, ∃ n, g.id = .int n)
    (h : rankFields f candidates = .ok ranked) (hchoice : byName? id ranked = some choice) :
    choice.method = .heuristic ∧ acceptedScore ≤ choice.score ∧
      ∃ g, f.Best candidates g choice.score ∧ choice.target = g.id := by
  unfold byName? at hchoice
  split at hchoice
  · rename_i r rest
    split at hchoice
    · rename_i haccepted
      cases hchoice
      obtain ⟨g, -, hbest, hid⟩ := best_of_head? hids h rfl
      exact ⟨rfl, haccepted, g, hbest, hid⟩
    · cases hchoice
  · cases hchoice

/-! ### The number in an answer -/

variable {cs rest text before digits left right : List Char}

/-- A text that starts with `field_id:` in any case, blanks and digits: all the digits there are. -/
inductive Marked : List Char → List Char → Prop
  | intro {word gap digits rest : List Char} (hword : Sql.Folds "field_id:".toList word)
      (hgap : ∀ c ∈ gap, Text.isBlank c = true) (hne : digits ≠ [])
      (hdigits : ∀ c ∈ digits, Text.isDigit c = true)
      (hrest : ∀ c, rest.head? = some c → Text.isDigit c = false) :
      Marked (word ++ (gap ++ (digits ++ rest))) digits

/-- The first number that stands behind `field_id:` in a text, as it is written. -/
def FirstNumber (text digits : List Char) : Prop :=
  ∃ before rest, text = before ++ rest ∧ Marked rest digits ∧
    ∀ before' rest' digits', text = before' ++ rest' → Marked rest' digits' →
      before.length ≤ before'.length

/-- What is found at a place is what stands there. -/
theorem idMark?_eq_some_iff : (idMark? cs).map Prod.snd = some digits ↔ Marked cs digits := by
  constructor
  · intro h
    obtain ⟨⟨n, digits⟩, h, rfl⟩ := Option.map_eq_some_iff.1 h
    unfold idMark? at h
    dsimp only at h
    split at h
    case isFalse => cases h
    rename_i hstart
    split at h
    case isTrue => cases h
    rename_i hne
    cases h
    generalize hafter : cs.drop "field_id:".toList.length = after at hne ⊢
    have hdrop : cs.drop ("field_id:".toList.length + Text.blankLength after) = after.dropWhile Text.isBlank := by
      rw [← List.drop_drop, hafter, Text.drop_blankLength]
    rw [hdrop] at hne ⊢
    have hcs := List.take_append_drop "field_id:".toList.length cs
    rw [hafter] at hcs
    have hmarked : Marked (cs.take "field_id:".toList.length ++ (after.takeWhile Text.isBlank ++
        ((after.dropWhile Text.isBlank).takeWhile Text.isDigit ++
          (after.dropWhile Text.isBlank).dropWhile Text.isDigit)))
        ((after.dropWhile Text.isBlank).takeWhile Text.isDigit) := by
      refine .intro (Sql.folds_of_startsWith hstart) (fun c hc => List.mem_takeWhile_imp hc)
        (List.isEmpty_eq_false_iff.1 (by simpa using hne)) (fun c hc => List.mem_takeWhile_imp hc)
        fun c hc => ?_
      have hnot := List.head?_dropWhile_not Text.isDigit (after.dropWhile Text.isBlank)
      rw [hc] at hnot
      simpa using hnot
    rw [List.takeWhile_append_dropWhile, List.takeWhile_append_dropWhile, hcs] at hmarked
    exact hmarked
  · rintro ⟨hword, hgap, hne, hdigits, hrest⟩
    rename_i word gap rest
    have hlength : "field_id:".toList.length = word.length := hword.length_eq
    have hblank : Text.blankLength (gap ++ (digits ++ rest)) = gap.length := by
      rw [Text.blankLength, Text.takeWhile_append_of_head hgap fun c hc => ?_]
      cases digits with
      | nil => exact absurd rfl hne
      | cons d digits =>
        cases hc
        exact Text.isBlank_of_isDigit (hdigits _ (List.mem_cons_self ..))
    have hall : ((word ++ (gap ++ (digits ++ rest))).drop (word.length + gap.length)).takeWhile Text.isDigit =
        digits := by
      rw [← List.drop_drop, List.drop_left, List.drop_left, Text.takeWhile_append_of_head hdigits hrest]
    unfold idMark?
    simp only [Sql.startsWith_of_folds hword, hlength, List.drop_left, hblank, hall,
      List.isEmpty_eq_false_iff.2 hne, if_true, if_false, Option.map_some, Bool.false_eq_true]

/-- A character in front does not matter if no number is marked there. -/
theorem FirstNumber.cons {c : Char} (h : FirstNumber text digits)
    (hc : ∀ digits', ¬Marked (c :: text) digits') : FirstNumber (c :: text) digits := by
  obtain ⟨before, rest, rfl, hmarked, hfirst⟩ := h
  refine ⟨c :: before, rest, rfl, hmarked, fun before' rest' digits' heq hmarked' => ?_⟩
  cases before' with
  | nil =>
    rw [List.nil_append] at heq
    exact absurd (heq ▸ hmarked') (hc _)
  | cons d before' =>
    obtain ⟨rfl, hlater⟩ := List.cons.inj heq
    exact Nat.succ_le_succ (hfirst before' rest' digits' hlater hmarked')

/-- **What is read from an answer is its first number.** -/
theorem firstNumber_of_readAnswer? (h : readAnswer? cs = some (digits, rest)) : FirstNumber cs digits := by
  induction cs generalizing digits rest with
  | nil => cases h
  | cons c cs ih =>
    unfold readAnswer? at h
    split at h
    · rename_i n found hmark
      cases h
      exact ⟨[], c :: cs, rfl, idMark?_eq_some_iff.1 (congrArg (Option.map Prod.snd) hmark),
        fun _ _ _ _ _ => Nat.zero_le _⟩
    · rename_i hmark
      obtain ⟨⟨found, later⟩, hlater, heq⟩ := Option.map_eq_some_iff.1 h
      cases heq
      refine (ih hlater).cons fun digits' hmarked => ?_
      rw [← idMark?_eq_some_iff, hmark] at hmarked
      cases hmarked

/-! ### Blanks around an answer -/

/-- A number is not marked where there are only blanks. -/
theorem Marked.exists_cons (h : Marked cs digits) : ∃ c rest, cs = c :: rest ∧ Text.isBlank c = false := by
  obtain ⟨hword, -, -, -, -⟩ := h
  rw [show "field_id:".toList = 'f' :: "ield_id:".toList by decide +kernel] at hword
  obtain ⟨c, word, hc, -, rfl⟩ := List.forall₂_cons_left_iff.1 hword
  refine ⟨c, _, rfl, ?_⟩
  have hall : ∀ b ∈ Text.blanks, Text.foldsTo 'f' b = false := by decide +kernel
  by_contra hblank
  rw [hall c (Text.mem_blanks (by simpa using hblank))] at hc
  cases hc

/-- What follows a number does not matter if it is blank. -/
theorem Marked.append (h : Marked cs digits) (hright : ∀ c ∈ right, Text.isBlank c = true) :
    Marked (cs ++ right) digits := by
  obtain ⟨hword, hgap, hne, hdigits, hrest⟩ := h
  rename_i word gap rest
  rw [List.append_assoc, List.append_assoc, List.append_assoc]
  refine .intro hword hgap hne hdigits fun c hc => ?_
  cases rest with
  | nil => exact Text.isDigit_of_isBlank (hright c (List.mem_of_head? hc))
  | cons d rest => exact hrest c hc

/-- A number marked in front of blanks is marked without them. -/
theorem Marked.of_append (h : Marked (cs ++ right) digits) (hright : ∀ c ∈ right, Text.isBlank c = true) :
    Marked cs digits := by
  generalize htext : cs ++ right = text at h
  obtain ⟨hword, hgap, hne, hdigits, hrest⟩ := h
  rename_i word gap rest
  rw [← List.append_assoc, ← List.append_assoc] at htext
  have hend (x : List Char) (hx : ∀ c, x.head? = some c → Text.isDigit c = false) :
      Marked (word ++ gap ++ digits ++ x) digits := by
    rw [List.append_assoc, List.append_assoc]
    exact .intro hword hgap hne hdigits hx
  rcases List.append_eq_append_iff.1 htext with ⟨x, hx, rfl⟩ | ⟨x, rfl, rfl⟩
  · cases x using List.reverseRecOn with
    | nil =>
      have hmarked := hend [] nofun
      rwa [List.append_nil, hx, List.append_nil] at hmarked
    | append_singleton x d =>
      -- the last of the digits would be a blank
      obtain ⟨start, e, rfl⟩ : ∃ start e, digits = start ++ [e] :=
        ⟨_, _, (List.dropLast_append_getLast hne).symm⟩
      rw [← List.append_assoc, ← List.append_assoc] at hx
      obtain ⟨-, hlast⟩ := List.append_inj' hx rfl
      have hdigit := hdigits e (List.mem_append_right _ (List.mem_singleton_self e))
      have hblank := hright d (List.mem_append_left _ (List.mem_append_right _ (List.mem_singleton_self d)))
      rw [List.singleton_inj.1 hlast, Text.isDigit_of_isBlank hblank] at hdigit
      cases hdigit
  · refine hend x fun c hc => hrest c ?_
    cases x with
    | nil => cases hc
    | cons d x => exact hc

/-- **Blanks around a text do not matter.** -/
theorem FirstNumber.of_trim (h : FirstNumber (Text.trim text) digits) : FirstNumber text digits := by
  obtain ⟨left, right, heq, hleft, hright⟩ := Text.exists_blanks text
  have hend : FirstNumber (Text.trim text ++ right) digits := by
    obtain ⟨before, rest, hsplit, hmarked, hfirst⟩ := h
    refine ⟨before, rest ++ right, by rw [hsplit, List.append_assoc], hmarked.append hright, ?_⟩
    intro before' rest' digits' heq' hmarked'
    rcases List.append_eq_append_iff.1 heq' with ⟨x, rfl, rfl⟩ | ⟨x, hx, rfl⟩
    · obtain ⟨c, later, rfl, hc⟩ := hmarked'.exists_cons
      rw [hright c (List.mem_append_right _ (List.mem_cons_self ..))] at hc
      cases hc
    · exact hfirst before' x digits' hx (hmarked'.of_append hright)
  rw [heq, List.append_assoc]
  clear heq h
  induction left with
  | nil => exact hend
  | cons c left ih =>
    refine (ih fun d hd => hleft d (List.mem_cons_of_mem _ hd)).cons fun digits' hmarked => ?_
    obtain ⟨d, rest, heq, hd⟩ := hmarked.exists_cons
    obtain ⟨rfl, -⟩ := List.cons.inj heq
    rw [hleft c (List.mem_cons_self ..)] at hd
    cases hd

/-! ### The field in an answer -/

theorem FirstNumber.isDigit (h : FirstNumber text digits) : ∀ c ∈ digits, Text.isDigit c = true := by
  obtain ⟨-, -, -, ⟨-, -, -, hdigits, -⟩, -⟩ := h
  exact hdigits

/-- **A choice of the oracle is a candidate, and the first number in its answer.** -/
theorem of_ofAnswer? {answer : String} (hids : ∀ g ∈ candidates, ∃ n, g.id = .int n)
    (h : ofAnswer? f candidates answer = .ok (some choice)) : choice.method = .external ∧
      (∃ g ∈ candidates, choice.target = g.id) ∧
      ∃ digits, FirstNumber answer.toList digits ∧ choice.target = .int (Text.numberOf digits) := by
  unfold ofAnswer? at h
  split at h
  case h_1 => cases h
  rename_i digits rest hread
  obtain ⟨n, hn, h⟩ := bind_eq_ok.1 h
  have hfirst := (firstNumber_of_readAnswer? hread).of_trim
  split at h
  case isFalse => cases h
  rename_i hhas
  cases h
  obtain ⟨_, hid, hkey⟩ := (Ids.has_iff _ _).1 hhas
  obtain ⟨g, hg, rfl⟩ := List.mem_map.1 hid
  obtain ⟨m, hm⟩ := hids g hg
  rw [hm, Json.key_int, Json.key_int] at hkey
  cases hkey
  exact ⟨rfl, ⟨g, hg, hm.symm⟩, digits, hfirst,
    congrArg Json.int (Text.eq_numberOf_of_toInt hfirst.isDigit hn)⟩

end FieldChoice
end CardTransfer

namespace CardTransfer

/-- A catalog whose tables and fields have integers for ids. -/
def Catalog.Numbered (c : Catalog) : Prop :=
  ∀ u ∈ c.tables, (∃ n, u.id = .int n) ∧ ∀ g ∈ u.fields, ∃ n, g.id = .int n

namespace Session

open FieldChoice (FirstNumber)

variable {s t : Session} {id : Json} {f : Field} {u : Table} {candidates : List Field}
  {ranked : List Ranked} {choice : FieldChoice} {r : Except Fault (Option FieldChoice)}

/-- The fields that may take the place of a field are those of the table that takes the place of its own. -/
theorem exists_table_of_candidates (hids : s.correspondence.target.Numbered)
    (hf : s.correspondence.source.fieldById? id = some f)
    (h : s.correspondence.candidates id = .ok candidates) (hne : candidates ≠ []) :
    ∃ place u, s.correspondence.resolveTable f.table = some place ∧
      s.correspondence.target.tableById? place = some u ∧ candidates = u.fields := by
  unfold Correspondence.candidates at h
  rw [hf] at h
  obtain ⟨key, hkey, h⟩ := bind_eq_ok.1 h
  obtain rfl := Json.eq_of_asKey hkey
  cases hu : s.correspondence.target.tableById? ((IdMap.get? s.correspondence.tables f.table).getD .null) with
  | none =>
    rw [hu] at h
    cases h
    exact absurd rfl hne
  | some u =>
    rw [hu] at h
    cases h
    obtain ⟨⟨n, hn⟩, -⟩ := hids u (mem_of_tableById? hu)
    have hid := (Json.sameId_iff _ _).1 (sameId_of_tableById? hu)
    rw [hn] at hid
    cases hplace : IdMap.get? s.correspondence.tables f.table with
    | none =>
      rw [hplace] at hid
      cases hid
    | some place =>
      rw [hplace] at hu hid
      refine ⟨place, u, ?_, hu, rfl⟩
      unfold Correspondence.resolveTable
      rw [hplace]
      cases place <;> first | rfl | cases hid

/-- How a suggestion comes about. -/
inductive Suggesting (s : Session) (id : Json) : Except Fault (Option FieldChoice) → Session → Prop
  | nothing {r : Except Fault (Option FieldChoice)} (h : ∀ choice, r ≠ .ok (some choice)) : Suggesting s id r s
  | named {f : Field} {candidates : List Field} {ranked : List Ranked} {choice : FieldChoice}
      (hf : s.correspondence.source.fieldById? id = some f)
      (hcandidates : s.correspondence.candidates id = .ok candidates) (hne : candidates ≠ [])
      (hranked : rankFields f candidates = .ok ranked)
      (hchoice : FieldChoice.byName? id ranked = some choice) : Suggesting s id (.ok (some choice)) s
  | asked {f : Field} {candidates : List Field} {ranked : List Ranked}
      {r : Except Fault (Option FieldChoice)} {t : Session}
      (hf : s.correspondence.source.fieldById? id = some f)
      (hcandidates : s.correspondence.candidates id = .ok candidates) (hne : candidates ≠ [])
      (hranked : rankFields f candidates = .ok ranked) (hnone : FieldChoice.byName? id ranked = none)
      (hrun : (askField f candidates).run s = (r, t)) : Suggesting s id r t

theorem suggesting (s : Session) (id : Json) :
    Suggesting s id ((suggestField id).run s).1 ((suggestField id).run s).2 := by
  unfold suggestField
  cases hid : id.asKey with
  | error fault => exact .nothing fun _ h => nomatch h
  | ok key =>
    rw [Json.eq_of_asKey hid, Steps.run_ofExcept_bind_ok, Steps.run_get_bind]
    cases hf : s.correspondence.source.fieldById? id with
    | none => exact .nothing fun _ h => nomatch h
    | some f =>
      dsimp only
      cases hcandidates : s.correspondence.candidates id with
      | error fault => exact .nothing fun _ h => nomatch h
      | ok candidates =>
        rw [Steps.run_ofExcept_bind_ok]
        cases candidates with
        | nil => exact .nothing fun _ h => nomatch h
        | cons g rest =>
          dsimp only
          cases hranked : rankFields f (g :: rest) with
          | error fault => exact .nothing fun _ h => nomatch h
          | ok ranked =>
            rw [Steps.run_ofExcept_bind_ok]
            cases hchoice : FieldChoice.byName? id ranked with
            | some choice => exact .named hf hcandidates (List.cons_ne_nil _ _) hranked hchoice
            | none =>
              dsimp only
              split
              · exact .nothing fun _ h => nomatch h
              · exact .asked hf hcandidates (List.cons_ne_nil _ _) hranked hchoice rfl

/-- A text that the oracle gives is its next answer. -/
theorem exists_text_of_ask {s : Session} {prompt text : String} (h : ((ask prompt).run s).1 = .ok (some text)) :
    ∃ rest, s.oracle = some (.text text :: rest) := by
  unfold ask at h
  rw [Steps.run_bind, Steps.run_modify] at h
  simp only at h
  rw [Steps.run_get_bind] at h
  split at h
  · rename_i answer rest horacle
    cases answer <;> cases h
    exact ⟨rest, horacle⟩
  · cases h

/-- The oracle is asked once, and a choice is made from its answer. -/
theorem of_askField (h : (askField f candidates).run s = (r, t)) :
    ∃ prompt, t = ((ask prompt).run s).2 ∧ ∀ choice, r = .ok (some choice) → ∃ answer rest,
      s.oracle = some (.text answer :: rest) ∧
        FieldChoice.ofAnswer? f candidates answer = .ok (some choice) := by
  unfold askField at h
  rw [Steps.run_get_bind] at h
  dsimp only at h
  rw [Steps.run_outcome_bind] at h
  refine ⟨FieldChoice.prompt (s.correspondence.fieldLabel f.id).2 f candidates, ?_⟩
  have htext := @exists_text_of_ask s (FieldChoice.prompt (s.correspondence.fieldLabel f.id).2 f candidates)
  generalize (ask (FieldChoice.prompt (s.correspondence.fieldLabel f.id).2 f candidates)).run s = asked at h htext ⊢
  obtain ⟨answer, u⟩ := asked
  cases answer with
  | error fault =>
    dsimp only at h
    split at h
    · cases h
      exact ⟨rfl, fun _ h => nomatch h⟩
    · cases h
      exact ⟨rfl, fun _ h => nomatch h⟩
  | ok answer =>
    cases answer with
    | none =>
      cases h
      exact ⟨rfl, fun _ h => nomatch h⟩
    | some answer =>
      obtain ⟨rest, horacle⟩ := htext rfl
      cases h
      exact ⟨rfl, fun choice h => ⟨answer, rest, horacle, h⟩⟩

/-- What a suggestion of a field is, for a field `f` whose table has the table `u` in its place. -/
structure Suggests (s t : Session) (f : Field) (u : Table) (choice : FieldChoice) : Prop where
  candidate : ∃ g ∈ u.fields, choice.target = g.id
  heuristic_iff : choice.method = .heuristic ↔
    ∃ g ∈ u.fields, ∃ x, f.Scores g x ∧ FieldChoice.acceptedScore ≤ x
  byName : choice.method = .heuristic →
    t = s ∧ ∃ g, f.Best u.fields g choice.score ∧ choice.target = g.id
  byOracle : choice.method ≠ .heuristic → choice.method = .external ∧
    ∃ prompt answer rest digits, s.oracle = some (.text answer :: rest) ∧
      t = { s with
        oracle := some rest
        journal := { s.journal with prompts := s.journal.prompts ++ [prompt] } } ∧
      FirstNumber answer.toList digits ∧ choice.target = .int (Text.numberOf digits)

/-- **A suggested field is a field of the table that takes the place of its own.** It is suggested by name exactly
if some field of that table scores 0.9 or more; then it is the best one, and the oracle is not asked. Otherwise the
oracle is asked once, and it is the first number behind `field_id:` in the answer. Nothing is stored, and the
correspondence stays the same, whether or not there is a suggestion. -/
theorem suggestion_is_candidate (hids : s.correspondence.target.Numbered)
    (h : (suggestField id).run s = (r, t)) : t.directory = s.directory ∧
      t.correspondence = s.correspondence ∧ ∀ choice, r = .ok (some choice) → ∃ f place u,
        s.correspondence.source.fieldById? id = some f ∧
        s.correspondence.resolveTable f.table = some place ∧
        s.correspondence.target.tableById? place = some u ∧ Suggests s t f u choice := by
  have hsuggesting := suggesting s id
  rw [h] at hsuggesting
  cases hsuggesting with
  | nothing hnone => exact ⟨rfl, rfl, fun choice hr => absurd hr (hnone choice)⟩
  | named hf hcandidates hne hranked hchoice =>
    refine ⟨rfl, rfl, fun _ hr => ?_⟩
    cases hr
    obtain ⟨place, u, hplace, hu, rfl⟩ := exists_table_of_candidates hids hf hcandidates hne
    obtain ⟨hmethod, haccepted, g, hbest, htarget⟩ :=
      FieldChoice.best_of_byName? (hids u (mem_of_tableById? hu)).2 hranked hchoice
    refine ⟨_, place, u, hf, hplace, hu, ⟨g, hbest.mem, htarget⟩, ?_, fun _ => ⟨rfl, g, hbest, htarget⟩,
      fun hother => absurd hmethod hother⟩
    exact ⟨fun _ => ⟨g, hbest.mem, _, hbest.scores, haccepted⟩, fun _ => hmethod⟩
  | asked hf hcandidates hne hranked hnone hrun =>
    obtain ⟨prompt, rfl, htext⟩ := of_askField hrun
    refine ⟨(asked_ask prompt s).directory, (still_ask prompt s).correspondence, fun choice hr => ?_⟩
    obtain ⟨place, u, hplace, hu, rfl⟩ := exists_table_of_candidates hids hf hcandidates hne
    have hfields := (hids u (mem_of_tableById? hu)).2
    obtain ⟨answer, rest, horacle, hanswer⟩ := htext choice hr
    obtain ⟨hmethod, hcandidate, digits, hfirst, htarget⟩ := FieldChoice.of_ofAnswer? hfields hanswer
    have hother : choice.method ≠ .heuristic := by
      rw [hmethod]
      nofun
    rw [run_ask prompt horacle]
    refine ⟨_, place, u, hf, hplace, hu, hcandidate, ⟨fun h => absurd h hother, ?_⟩, fun h => absurd h hother,
      fun _ => ⟨hmethod, prompt, answer, rest, digits, horacle, rfl, hfirst, htarget⟩⟩
    rintro ⟨g, hg, x, hx, haccepted⟩
    obtain ⟨_, hsome⟩ := FieldChoice.exists_of_accepted hfields hranked hg hx haccepted id
    rw [hnone] at hsome
    cases hsome

/-- A field without namesake, and an oracle that picks one for it. -/
def pickedSession : Session := { (default : Session) with
  oracle := some [.text "Field_ID: 221 | reason: legacy codes were folded into the name, see field_id: 220"]
  correspondence := {
    source := ⟨.int 1, [⟨.int 12, .str "goods", .str "public", .str "Goods",
      [⟨.int 62, .str "legacy_code", .str "Legacy Code", .str "type/Text", .int 12⟩]⟩]⟩
    target := ⟨.int 2, [⟨.int 202, .str "goods", .str "main", .str "Goods",
      [⟨.int 220, .str "id", .str "ID", .str "type/Integer", .int 202⟩,
        ⟨.int 221, .str "name", .str "Name", .str "type/Text", .int 202⟩]⟩]⟩
    tables := [(.int 12, .int 202)]
    fields := []
    unmatchedTables := []
    unmatchedFields := [] } }

/-- What the oracle picks. -/
def pickedChoice : FieldChoice := ⟨.int 62, .int 221, FieldChoice.oracleScore,
  "legacy codes were folded into the name, see field_id: 220", .external⟩

theorem run_pickedSession : ((suggestField (.int 62)).run pickedSession).1 = .ok (some pickedChoice) := by
  rfl

theorem numbered_pickedSession : pickedSession.correspondence.target.Numbered := by
  refine List.forall_mem_singleton.2 ⟨⟨202, rfl⟩, List.forall_mem_cons.2 ⟨⟨220, rfl⟩, ?_⟩⟩
  exact List.forall_mem_singleton.2 ⟨221, rfl⟩

theorem suggestion_is_candidate_picked : ∃ t f place u,
    pickedSession.correspondence.target.Numbered ∧
    (suggestField (.int 62)).run pickedSession = (.ok (some pickedChoice), t) ∧
    t.directory = pickedSession.directory ∧ t.correspondence = pickedSession.correspondence ∧
    pickedSession.correspondence.source.fieldById? (.int 62) = some f ∧
    pickedSession.correspondence.resolveTable f.table = some place ∧
    pickedSession.correspondence.target.tableById? place = some u ∧
    Suggests pickedSession t f u pickedChoice := by
  have hrun : (suggestField (.int 62)).run pickedSession =
      (.ok (some pickedChoice), ((suggestField (.int 62)).run pickedSession).2) :=
    Prod.ext run_pickedSession rfl
  obtain ⟨hdirectory, hcorrespondence, hsuggests⟩ := suggestion_is_candidate numbered_pickedSession hrun
  obtain ⟨f, place, u, hf, hplace, hu, h⟩ := hsuggests pickedChoice rfl
  exact ⟨_, f, place, u, numbered_pickedSession, hrun, hdirectory, hcorrespondence, hf, hplace, hu, h⟩

end Session
end CardTransfer
