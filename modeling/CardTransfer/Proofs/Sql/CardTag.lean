import CardTransfer.Proofs.Except
import CardTransfer.Proofs.Json.Lasting
import CardTransfer.Proofs.Sql.Call
import CardTransfer.Proofs.Text.Numeral
import CardTransfer.Sql.TagTable

/-!
# Card tags and their descriptions

The text of a query and the descriptions of its tags are renamed apart from each other. They stay in step: a
card tag of the text that is named like a description is named like the new description of the same card
(`renameCards_in_step`).

A card tag is what the rule for tags matches (`tagRule_text`, `exists_of_tagRule`). Two of them do not overlap,
as a tag has its opening braces at its start alone, so that the sides of a tag are renamed apart
(`renameTags_append`). The new names of descriptions are different because a name can be read back as a card
and a slug (`tagKey_inj`).
-/

namespace CardTransfer
namespace Sql

open Text (isBlank)

variable {cards : IdMap Json} {cs x y v w : List Char} {before : Option Char}

/-! ### Card tags -/

/-- Nothing, or a hyphen and what may follow it in a slug. -/
def IsSlug (slug : List Char) : Prop := slug = [] ∨ ∃ rest, slug = '-' :: rest ∧ ∀ c ∈ rest, inSlug c = true

/-- A card tag as it stands in a text. -/
structure WrittenTag where
  lead : List Char
  digits : List Char
  slug : List Char
  trail : List Char
  lead_blank : ∀ c ∈ lead, isBlank c = true
  digits_ne_nil : digits ≠ []
  digits_isDigit : ∀ c ∈ digits, Text.isDigit c = true
  slug_isSlug : IsSlug slug
  trail_blank : ∀ c ∈ trail, isBlank c = true

namespace WrittenTag

variable (t : WrittenTag)

/-- What stands between the braces, apart from blanks. -/
def name : List Char := '#' :: t.digits ++ t.slug

/-- The whole tag. -/
def text : List Char := '\x7b' :: '\x7b' :: t.lead ++ t.name ++ t.trail ++ ['\x7d', '\x7d']

/-- The tag without its blanks. -/
def tag : CardTag := ⟨t.digits, t.slug⟩

/-- The card of the tag. -/
def card : Json := .int (Text.numberOf t.digits)

end WrittenTag

theorem head?_of_isSlug {slug : List Char} (h : IsSlug slug) (c : Char) (hc : slug.head? = some c) : c = '-' := by
  rcases h with rfl | ⟨rest, rfl, -⟩
  · cases hc
  · exact (Option.some.inj hc).symm

/-- What follows a slug is neither a hyphen nor part of a slug. -/
def EndsSlug (v : List Char) : Prop := ∀ c, v.head? = some c → c ≠ '-' ∧ inSlug c = false

theorem slugOf_append {slug : List Char} (h : IsSlug slug) (hv : EndsSlug v) : slugOf (slug ++ v) = slug := by
  rcases h with rfl | ⟨rest, rfl, hrest⟩
  · cases v with
    | nil => rfl
    | cons c v =>
      have hc := (hv c rfl).1
      unfold slugOf
      split
      · rename_i heq
        exact absurd (List.cons.inj heq).1 hc
      · rfl
  · rw [List.cons_append, slugOf, List.takeWhile_append_of_pos hrest]
    cases v with
    | nil => simp
    | cons c v => rw [List.takeWhile_cons_of_neg (by simp [(hv c rfl).2]), List.append_nil]

theorem isSlug_slugOf (cs : List Char) : IsSlug (slugOf cs) := by
  unfold slugOf
  split
  · exact .inr ⟨_, rfl, fun c hc => List.mem_takeWhile_imp hc⟩
  · exact .inl rfl

theorem slugOf_prefix (cs : List Char) : slugOf cs <+: cs := by
  unfold slugOf
  split
  · exact (List.cons_prefix_cons).2 ⟨rfl, List.takeWhile_prefix _⟩
  · exact List.nil_prefix

theorem endsSlug_blanks (hx : ∀ c ∈ x, isBlank c = true) (v : List Char) : EndsSlug (x ++ '\x7d' :: v) := by
  intro c hc
  cases x with
  | nil =>
    cases hc
    decide
  | cons d x =>
    cases hc
    have hall : ∀ c ∈ Text.blanks, c ≠ '-' ∧ inSlug c = false := by decide +kernel
    exact hall _ (Text.mem_blanks (hx _ (List.mem_cons_self ..)))

theorem takeWhile_append_cons {p : Char → Bool} {c : Char} (hx : ∀ c ∈ x, p c = true) (hc : p c = false) :
    (x ++ c :: v).takeWhile p = x := by
  rw [List.takeWhile_append_of_pos hx, List.takeWhile_cons_of_neg (by simp [hc]), List.append_nil]

/-- The rule for tags matches a tag. -/
theorem tagRule_text (t : WrittenTag) (before : Option Char) (v : List Char) :
    tagRule before (t.text ++ v) = some (t.text.length, t.tag) := by
  have hends := endsSlug_blanks t.trail_blank ('\x7d' :: v)
  have hafter : (t.slug ++ (t.trail ++ '\x7d' :: '\x7d' :: v)).takeWhile Text.isDigit = [] := by
    rcases t.slug_isSlug with hslug | ⟨rest, hslug, -⟩
    · rw [hslug, List.nil_append]
      cases htrail : t.trail with
      | nil => rfl
      | cons c trail =>
        have hc := Text.isDigit_of_isBlank (t.trail_blank c (htrail ▸ List.mem_cons_self ..))
        exact List.takeWhile_cons_of_neg (by simp [hc])
    · rw [hslug]
      rfl
  have hdigits : (t.digits ++ (t.slug ++ (t.trail ++ '\x7d' :: '\x7d' :: v))).takeWhile Text.isDigit = t.digits := by
    rw [List.takeWhile_append_of_pos t.digits_isDigit, hafter, List.append_nil]
  have htext : t.text ++ v = '\x7b' :: '\x7b' :: (t.lead ++ '#' :: (t.digits ++ (t.slug ++ (t.trail ++
      '\x7d' :: '\x7d' :: v)))) := by
    simp [WrittenTag.text, WrittenTag.name]
  have hlead : Text.blankLength (t.lead ++ '#' :: (t.digits ++ (t.slug ++ (t.trail ++ '\x7d' :: '\x7d' :: v)))) =
      t.lead.length := by
    rw [Text.blankLength, takeWhile_append_cons t.lead_blank (by decide)]
  have htrail : Text.blankLength (t.trail ++ '\x7d' :: '\x7d' :: v) = t.trail.length := by
    rw [Text.blankLength, takeWhile_append_cons t.trail_blank (by decide)]
  have hbody : (t.digits ++ (t.slug ++ (t.trail ++ '\x7d' :: '\x7d' :: v))).drop (t.digits.length + t.slug.length) =
      t.trail ++ '\x7d' :: '\x7d' :: v := by
    rw [← List.drop_drop, List.drop_left, List.drop_left]
  rw [htext, tagRule]
  simp only [hlead, List.drop_left, hdigits, slugOf_append t.slug_isSlug hends, hbody, htrail,
    List.isEmpty_eq_false_iff.2 t.digits_ne_nil, Bool.false_eq_true, if_false]
  simp [WrittenTag.text, WrittenTag.name, WrittenTag.tag]
  omega

/-- The rule for tags matches nothing else. -/
theorem exists_of_tagRule {n : Nat} {tag : CardTag} (h : tagRule before cs = some (n, tag)) :
    ∃ (t : WrittenTag) (v : List Char), cs = t.text ++ v ∧ n = t.text.length ∧ tag = t.tag := by
  unfold tagRule at h
  split at h
  case h_2 => cases h
  rename_i rest
  dsimp only at h
  split at h
  case h_2 => cases h
  rename_i body hbody
  split at h
  case isTrue => cases h
  rename_i hdigits
  split at h
  case h_2 => cases h
  rename_i v hend
  cases h
  obtain ⟨u, hu⟩ := List.takeWhile_prefix (p := Text.isDigit) (l := body)
  have hdrop : body.drop (body.takeWhile Text.isDigit).length = u := by
    conv_lhs => arg 2; rw [← hu]
    exact List.drop_left
  obtain ⟨w, hw⟩ := slugOf_prefix u
  have hdrop' : body.drop ((body.takeWhile Text.isDigit).length + (slugOf u).length) = w := by
    rw [← List.drop_drop, hdrop]
    conv_lhs => arg 2; rw [← hw]
    exact List.drop_left
  rw [hdrop, hdrop'] at hend
  have hrest := List.take_append_drop (Text.blankLength rest) rest
  have htrail := List.take_append_drop (Text.blankLength w) w
  rw [hbody] at hrest
  rw [hend] at htrail
  refine ⟨⟨rest.take (Text.blankLength rest), body.takeWhile Text.isDigit, slugOf u, w.take (Text.blankLength w),
    fun c hc => Text.isBlank_of_mem_take hc, by simpa using hdigits, fun c hc => List.mem_takeWhile_imp hc,
    isSlug_slugOf u, fun c hc => Text.isBlank_of_mem_take hc⟩, v, ?_, ?_, ?_⟩
  · simp only [WrittenTag.text, WrittenTag.name, List.cons_append, List.append_assoc, List.nil_append]
    rw [htrail, hw, hu, hrest]
  · simp only [WrittenTag.text, WrittenTag.name, hdrop, hdrop', List.length_cons, List.length_append,
      List.length_take_of_le (Text.blankLength_le _), List.length_nil]
    omega
  · rw [WrittenTag.tag, hdrop]

theorem tagRule_eq_some_iff {n : Nat} {tag : CardTag} : tagRule before cs = some (n, tag) ↔
    ∃ (t : WrittenTag) (v : List Char), cs = t.text ++ v ∧ n = t.text.length ∧ tag = t.tag := by
  refine ⟨exists_of_tagRule, ?_⟩
  rintro ⟨t, v, rfl, rfl, rfl⟩
  exact tagRule_text t before v

/-- Behind its first two characters a tag has no opening brace. -/
theorem WrittenTag.exists_text (t : WrittenTag) : ∃ inner, t.text = '\x7b' :: '\x7b' :: inner ∧
    '\x7b' ∉ inner := by
  refine ⟨t.lead ++ t.name ++ t.trail ++ ['\x7d', '\x7d'], rfl, fun hmem => ?_⟩
  have hslug {c : Char} (hc : c ∈ t.slug) : inSlug c = true := by
    rcases t.slug_isSlug with hnil | ⟨rest, hrest, hall⟩
    · rw [hnil] at hc
      cases hc
    · rw [hrest] at hc
      rcases List.mem_cons.1 hc with rfl | hc
      · rfl
      · exact hall c hc
  have hblank {x : List Char} (hx : ∀ c ∈ x, isBlank c = true) : '\x7b' ∉ x := fun hc =>
    absurd (hx _ hc) (by decide)
  simp only [WrittenTag.name, List.mem_append, List.mem_cons, List.not_mem_nil, or_false] at hmem
  rcases hmem with ((hmem | (hmem | hmem) | hmem) | hmem) | hmem | hmem
  · exact hblank t.lead_blank hmem
  · cases hmem
  · exact absurd (t.digits_isDigit _ hmem) (by decide)
  · exact absurd (hslug hmem) (by decide)
  · exact hblank t.trail_blank hmem
  · cases hmem
  · cases hmem

/-- A tag does not reach into one that follows it. -/
theorem WrittenTag.prefix_of_append (t u : WrittenTag) {c : Char} (h : t.text ++ v = c :: x ++ (u.text ++ y)) :
    ∃ w, c :: x = t.text ++ w ∧ v = w ++ (u.text ++ y) := by
  obtain ⟨inner, ht, hinner⟩ := t.exists_text
  obtain ⟨other, hu, hother⟩ := u.exists_text
  rcases List.append_eq_append_iff.1 h with ⟨w, hx, hv⟩ | ⟨w, htext, hv⟩
  · exact ⟨w, hx, hv⟩
  · cases w with
    | nil => exact ⟨[], by rw [htext]; simp, hv.symm⟩
    | cons d w =>
      rw [hu, List.cons_append] at hv
      obtain ⟨rfl, hv⟩ := List.cons.inj hv
      rw [ht, List.cons_append] at htext
      obtain ⟨rfl, htext⟩ := List.cons.inj htext
      cases x with
      | nil =>
        -- the brace would be the second one, and another brace would follow
        obtain ⟨-, rfl⟩ := List.cons.inj (List.cons.inj htext).2
        rw [List.cons_append] at hv
        cases inner with
        | nil =>
          have hlength := congrArg List.length ht
          simp [WrittenTag.text, WrittenTag.name] at hlength
        | cons e inner =>
          obtain ⟨rfl, -⟩ := List.cons.inj (List.cons.inj hv).2
          exact absurd (List.mem_cons_self ..) hinner
      | cons e x =>
        obtain ⟨-, rfl⟩ := List.cons.inj (List.cons.inj htext).2
        exact absurd (List.mem_append_right _ (List.mem_cons_self ..)) hinner

/-- **The sides of a tag are renamed apart.** -/
theorem renameTags_append (cards : IdMap Json) (x : List Char) (t : WrittenTag) (y : List Char) :
    renameTags cards (x ++ (t.text ++ y)) =
      renameTags cards x ++ ((renamedTag? cards t.tag).getD t.text ++ renameTags cards y) := by
  have hlocal (before : Option Char) (c : Char) (x : List Char) :
      tagRule before (c :: x ++ (t.text ++ y)) = tagRule before (c :: x) := by
    refine Option.ext fun ⟨n, tag⟩ => ?_
    rw [tagRule_eq_some_iff, tagRule_eq_some_iff]
    constructor
    · rintro ⟨u, v, heq, rfl, rfl⟩
      obtain ⟨w, hw, -⟩ := u.prefix_of_append t heq.symm
      exact ⟨u, w, hw, rfl, rfl⟩
    · rintro ⟨u, v, heq, rfl, rfl⟩
      exact ⟨u, v ++ (t.text ++ y), by rw [heq, List.append_assoc], rfl, rfl⟩
  have hle (before : Option Char) (x : List Char) (n : Nat) (tag : CardTag)
      (h : tagRule before x = some (n, tag)) : n ≤ x.length := by
    obtain ⟨u, v, rfl, rfl, -⟩ := exists_of_tagRule h
    simp
  have hskip (n : Nat) (before : Option Char) (cs : List Char) :
      Text.replaceFrom tagRule (renamedTag? cards) n before cs =
        Text.replaceFrom tagRule (renamedTag? cards) 0 none (cs.drop n) := by
    unfold Text.replaceFrom
    rw [Text.scanFrom_skip]
    cases cs.drop n <;> rfl
  obtain ⟨inner, htext, -⟩ := t.exists_text
  have hcons : t.text ++ y = '\x7b' :: ('\x7b' :: inner ++ y) := by rw [htext]; rfl
  have htag := tagRule_text t (Text.lastOr none x) y
  have htaken : (t.text ++ y).take (t.text.length - 1 + 1) = t.text := by
    rw [Nat.sub_add_cancel (by rw [htext, List.length_cons]; omega), List.take_left]
  have hdrop : ('\x7b' :: inner ++ y).drop (t.text.length - 1) = y := by
    rw [htext, List.length_cons, Nat.add_sub_cancel, List.drop_left]
  unfold renameTags
  rw [Text.replace_eq, Text.replaceFrom_append_of_local hlocal hle (Nat.zero_le _), Text.replace_eq, Text.replace_eq]
  rw [hcons] at htag htaken ⊢
  rw [Text.replaceFrom_cons_some htag, htaken, hskip (t.text.length - 1), hdrop]

/-! ### Texts without tags of replaced cards -/

/-- A tag that is found stands in the text. -/
theorem exists_of_mem_scanFrom {skip : Nat} {tag : CardTag} {taken : List Char}
    (h : .found tag taken ∈ Text.scanFrom tagRule skip before cs) : ∃ t : WrittenTag, t.text <:+: cs ∧ tag = t.tag := by
  induction cs generalizing skip before with
  | nil => simp [Text.scanFrom] at h
  | cons c cs ih =>
    have hlater {skip : Nat} {before : Option Char} (h : .found tag taken ∈ Text.scanFrom tagRule skip before cs) :
        ∃ t : WrittenTag, t.text <:+: c :: cs ∧ tag = t.tag := by
      obtain ⟨t, ht, heq⟩ := ih h
      exact ⟨t, ht.trans (List.suffix_cons c cs).isInfix, heq⟩
    cases skip with
    | succ skip => exact hlater h
    | zero =>
      unfold Text.scanFrom at h
      split at h
      · rename_i n a hrule
        rcases List.mem_cons.1 h with h | h
        · cases h
          obtain ⟨t, v, hcs, -, rfl⟩ := exists_of_tagRule hrule
          exact ⟨t, hcs ▸ (List.prefix_append ..).isInfix, rfl⟩
        · exact hlater h
      · rcases List.mem_cons.1 h with h | h
        · cases h
        · exact hlater h

/-- A text without tags of replaced cards is left as it is. -/
theorem renameTags_eq_self (h : ∀ t : WrittenTag, t.text <:+: cs → cards.get? t.card = none) :
    renameTags cards cs = cs := by
  unfold renameTags
  conv_rhs => rw [← Text.flatMap_source_scan tagRule cs]
  rw [Text.replace_eq]
  refine List.flatMap_congr fun piece hpiece => ?_
  cases piece with
  | plain c => rfl
  | found tag taken =>
    obtain ⟨t, ht, rfl⟩ := exists_of_mem_scanFrom hpiece
    have hnone : renamedTag? cards t.tag = none := by
      rw [renamedTag?, show t.tag.card = t.card from rfl, h t ht]
      rfl
    rw [Text.Piece.written, hnone]
    rfl

/-- A text whose card numbers are not too long is accepted. -/
theorem checkTags_eq_ok (h : ∀ t : WrittenTag, t.text <:+: cs → t.digits.length ≤ Text.digitLimit) :
    checkTags cs = .ok () := by
  have hnone : (Text.matchesOf tagRule cs).find? (fun t => Text.digitLimit < t.digits.length) = none := by
    refine List.find?_eq_none.2 fun tag htag => ?_
    obtain ⟨taken, hfound⟩ := Text.mem_matchesOf_iff.1 htag
    obtain ⟨t, ht, rfl⟩ := exists_of_mem_scanFrom hfound
    have hle : t.tag.digits.length ≤ Text.digitLimit := h t ht
    simpa using hle
  rw [checkTags, hnone]

/-- A tag with too long a number is refused. -/
theorem checkTags_eq_error (t : WrittenTag) (h : Text.digitLimit < t.digits.length) :
    checkTags t.text = .error (tooManyDigits t.digits.length) := by
  obtain ⟨inner, htext, -⟩ := t.exists_text
  have htag := tagRule_text t none []
  have hmatches : Text.matchesOf tagRule t.text = [t.tag] := by
    rw [List.append_nil] at htag
    have hdrop : ('\x7b' :: inner).drop (t.text.length - 1) = [] := by
      rw [htext]
      exact List.drop_length
    rw [htext] at htag
    rw [Text.matchesOf, Text.scan, htext, Text.scanFrom, htag]
    dsimp only
    rw [Text.scanFrom_skip, ← htext, hdrop]
    rfl
  have hlong : decide (Text.digitLimit < t.tag.digits.length) = true := decide_eq_true h
  rw [checkTags, hmatches, List.find?_cons, hlong]
  rfl

/-! ### Names of tags -/

/-- The name of a tag for a card with a slug. -/
def tagKey (n : Int) (slug : List Char) : String := "#" ++ Text.ofInt n ++ String.ofList slug

theorem toList_tagKey (n : Int) (slug : List Char) :
    (tagKey n slug).toList = '#' :: ((Text.ofInt n).toList ++ slug) := by
  simp [tagKey]

theorem tagKey_eq (n : Int) (slug : List Char) : String.ofList (tagName (.int n) slug) = tagKey n slug := by
  rw [← String.toList_inj, toList_tagKey, String.toList_ofList]
  rfl

theorem toList_ofInt_natCast (n : Nat) : (Text.ofInt n).toList = Nat.toDigits 10 n := by
  rw [Text.toList_ofInt, if_neg (by omega), List.nil_append, Int.natAbs_natCast]

theorem isDigit_of_mem_toDigits {n : Nat} {c : Char} (h : c ∈ Nat.toDigits 10 n) : Text.isDigit c = true := by
  rw [Text.isDigit, Text.digitValue?_of_isDigit (Text.isDigit_of_mem_toDigits h)]
  rfl

/-- Digits are told from the slug behind them. -/
theorem eq_of_digits_slug {digits digits' slug slug' : List Char} (hdigits : ∀ c ∈ digits, Text.isDigit c = true)
    (hdigits' : ∀ c ∈ digits', Text.isDigit c = true) (hslug : IsSlug slug) (hslug' : IsSlug slug')
    (h : digits ++ slug = digits' ++ slug') : digits = digits' ∧ slug = slug' := by
  have hends {slug : List Char} (hslug : IsSlug slug) (c : Char) (hc : slug.head? = some c) :
      Text.isDigit c = false := by
    rw [head?_of_isSlug hslug c hc]
    decide
  exact Text.eq_of_stretch hdigits hdigits' (hends hslug) (hends hslug') h

/-- **A name is read back as a card and a slug.** -/
theorem tagKey_inj {m n : Int} {slug slug' : List Char} (hslug : IsSlug slug) (hslug' : IsSlug slug')
    (h : tagKey m slug = tagKey n slug') : m = n ∧ slug = slug' := by
  rw [← String.toList_inj, toList_tagKey, toList_tagKey, Text.toList_ofInt, Text.toList_ofInt] at h
  have hdigit (n : Nat) (slug x : List Char) : Nat.toDigits 10 n ++ slug ≠ '-' :: x := by
    obtain ⟨c, rest, hcs⟩ := List.exists_cons_of_ne_nil (Nat.toDigits_ne_nil (b := 10) (n := n))
    have hc := isDigit_of_mem_toDigits (hcs ▸ List.mem_cons_self .. : c ∈ Nat.toDigits 10 n)
    rw [hcs, List.cons_append]
    intro heq
    rw [(List.cons.inj heq).1] at hc
    revert hc
    decide
  have hsame {m n : Nat} (h : Nat.toDigits 10 m ++ slug = Nat.toDigits 10 n ++ slug') : m = n ∧ slug = slug' := by
    obtain ⟨hdigits, rfl⟩ := eq_of_digits_slug (fun _ => isDigit_of_mem_toDigits) (fun _ => isDigit_of_mem_toDigits)
      hslug hslug' h
    have hvalue := congrArg Text.numberOf hdigits
    rw [Text.numberOf_toDigits, Text.numberOf_toDigits] at hvalue
    exact ⟨hvalue, rfl⟩
  rw [List.cons_eq_cons, List.append_assoc, List.append_assoc] at h
  split at h <;> split at h
  · obtain ⟨habs, rfl⟩ := hsame (List.cons.inj h.2).2
    exact ⟨by omega, rfl⟩
  · exact (hdigit _ _ _ h.2.symm).elim
  · exact (hdigit _ _ _ h.2).elim
  · obtain ⟨habs, rfl⟩ := hsame h.2
    exact ⟨by omega, rfl⟩

/-- A name as a tag without blanks. -/
def nameTag (n : Nat) {slug : List Char} (hslug : IsSlug slug) : WrittenTag where
  lead := []
  digits := Nat.toDigits 10 n
  slug := slug
  trail := []
  lead_blank := List.forall_mem_nil _
  digits_ne_nil := Nat.toDigits_ne_nil
  digits_isDigit _ := isDigit_of_mem_toDigits
  slug_isSlug := hslug
  trail_blank := List.forall_mem_nil _

/-- The key of a description goes over to the new card with its slug. -/
theorem renamedKey_tagKey (n : Nat) {slug : List Char} (hslug : IsSlug slug) (m : Int) :
    renamedKey (tagKey n slug) (.int m) = tagKey m slug := by
  have htext : braced (tagKey n slug).toList = (nameTag n hslug).text ++ [] := by
    rw [toList_tagKey, toList_ofInt_natCast]
    simp [braced, WrittenTag.text, WrittenTag.name, nameTag]
  rw [renamedKey, htext, tagRule_text]
  exact tagKey_eq m slug

/-! ### Descriptions -/

/-- Whether a description is one of a card. -/
def IsCardTag (description : Json) : Prop :=
  ∃ ms : Members, description = .obj ms ∧ ms.get? "type" = some (.str "card")

/-- A description of a card under the name of a tag of the card, and the card that takes its place. -/
structure Names (cards : IdMap Json) (key : String) (ms : Members) (n : Nat) (m : Int) (slug : List Char) :
    Prop where
  slug_isSlug : IsSlug slug
  key_eq : key = tagKey n slug
  type : ms.get? "type" = some (.str "card")
  card : ms.get? "card-id" = some (.int n)
  shown : ∀ v, ms.get? "display-name" = some v → ∃ s, v = .str s
  replaced : cards.get? (.int n) = some (.int m)

/-- Descriptions of which all those of cards are under names of tags for them, and no others under names that
start like one. Different cards among them are replaced by different cards. -/
structure WellNamed (cards : IdMap Json) (table : Members) : Prop where
  once : (table.map (·.1)).Nodup
  cardTags : ∀ p ∈ table, IsCardTag p.2 → ∃ ms n m slug, p.2 = .obj ms ∧ Names cards p.1 ms n m slug
  others : ∀ p ∈ table, ¬IsCardTag p.2 → p.1.toList.head? ≠ some '#'
  apart : ∀ p ∈ table, ∀ q ∈ table, ∀ n n' : Nat, taggedCard? p.2 = some (.int n) →
    taggedCard? q.2 = some (.int n') → cards.get? (.int n) = cards.get? (.int n') → n = n'

/-- The members of a description after its card has been replaced. -/
structure Redescribed (ms : Members) (key : String) (m : Int) (new : Members) : Prop where
  card : new.get? "card-id" = some (.int m)
  name : new.get? "name" = some (.str key)
  shown : ∀ s, ms.get? "display-name" = some (.str s) →
    new.get? "display-name" = some (.str (if s.toList.head? = some '#' then key else s))
  unshown : ms.get? "display-name" = none → new.get? "display-name" = none
  rest : ∀ field ∉ ["card-id", "name", "display-name"], new.get? field = ms.get? field

/-- A tag with its description before and after cards have been replaced. -/
inductive Renamed (cards : IdMap Json) : String × Json → String × Json → Prop
  | card {key : String} {ms new : Members} {n : Nat} {m : Int} {slug : List Char}
      (names : Names cards key ms n m slug) (redescribed : Redescribed ms (tagKey m slug) m new) :
      Renamed cards (key, .obj ms) (tagKey m slug, .obj new)
  | other {p : String × Json} (h : ¬IsCardTag p.2) : Renamed cards p p

theorem exists_redescribe {ms : Members} (hshown : ∀ v, ms.get? "display-name" = some v → ∃ s, v = .str s)
    (key : String) (m : Int) : ∃ new, redescribe ms key (.int m) = .ok new ∧ Redescribed ms key m new := by
  have hrest {field : String} (hfield : field ∉ ["card-id", "name", "display-name"]) :
      ((ms.insert "card-id" (.int m)).insert "name" (.str key)).get? field = ms.get? field := by
    simp only [List.mem_cons, List.not_mem_nil, or_false, not_or] at hfield
    rw [Members.get?_insert_of_ne _ _ hfield.2.1, Members.get?_insert_of_ne _ _ hfield.1]
  have hdisplay : ((ms.insert "card-id" (.int m)).insert "name" (.str key)).get? "display-name" =
      ms.get? "display-name" := by
    rw [Members.get?_insert_of_ne _ _ (by decide), Members.get?_insert_of_ne _ _ (by decide)]
  have hcard : ((ms.insert "card-id" (.int m)).insert "name" (.str key)).get? "card-id" = some (.int m) := by
    rw [Members.get?_insert_of_ne _ _ (by decide), Members.get?_insert_self]
  have hname := Members.get?_insert_self (ms.insert "card-id" (.int m)) "name" (.str key)
  unfold redescribe
  dsimp only
  rw [hdisplay]
  generalize (ms.insert "card-id" (.int m)).insert "name" (.str key) = new at *
  cases hms : ms.get? "display-name" with
  | none =>
    refine ⟨new, rfl, hcard, hname, fun s hs => ?_, fun _ => hdisplay.trans hms, fun _ => hrest⟩
    rw [hms] at hs
    cases hs
  | some v =>
    obtain ⟨s, rfl⟩ := hshown v hms
    have hunshown (h : ms.get? "display-name" = none) : False := by
      rw [hms] at h
      cases h
    have hsame {t : String} (h : ms.get? "display-name" = some (.str t)) : t = s := by
      rw [hms] at h
      cases h
      rfl
    by_cases hhead : s.toList.head? = some '#'
    · refine ⟨new.insert "display-name" (.str key), ?_, ?_, ?_, fun t ht => ?_, fun h => (hunshown h).elim,
        fun field hfield => ?_⟩
      · change Except.ok (if (s.toList.head? == some '#') = true then _ else _) = _
        rw [if_pos (beq_iff_eq.2 hhead)]
      · rw [Members.get?_insert_of_ne _ _ (by decide), hcard]
      · rw [Members.get?_insert_of_ne _ _ (by decide), hname]
      · rw [hsame ht, Members.get?_insert_self, if_pos hhead]
      · rw [Members.get?_insert_of_ne _ _ (fun heq => hfield (by simp [heq])), hrest hfield]
    · refine ⟨new, ?_, hcard, hname, fun t ht => ?_, fun h => (hunshown h).elim, fun _ => hrest⟩
      · change Except.ok (if (s.toList.head? == some '#') = true then _ else _) = _
        rw [if_neg (by simpa using hhead)]
      · rw [hdisplay, hms, hsame ht, if_neg hhead]

theorem taggedCard?_of_names {key : String} {ms : Members} {n : Nat} {m : Int} {slug : List Char}
    (h : Names cards key ms n m slug) : taggedCard? (.obj ms) = some (.int n) := by
  change describedCard? ms = _
  rw [describedCard?, h.type, h.card]
  rfl

theorem taggedCard?_eq_none {description : Json} (h : ¬IsCardTag description) : taggedCard? description = none := by
  cases description with
  | obj ms =>
    change describedCard? ms = none
    unfold describedCard?
    split
    · rename_i htype _
      exact absurd ⟨ms, rfl, htype⟩ h
    · rfl
  | _ => rfl

/-- **A description is renamed with its card.** -/
theorem exists_renameEntry {table : Members} (h : WellNamed cards table) {p : String × Json} (hp : p ∈ table) :
    ∃ q, renameEntry cards p.1 p.2 = .ok q ∧ Renamed cards p q := by
  obtain ⟨key, description⟩ := p
  by_cases hcard : IsCardTag description
  · obtain ⟨ms, n, m, slug, rfl, hnames⟩ := h.cardTags _ hp hcard
    obtain ⟨new, hnew, hredescribed⟩ := exists_redescribe hnames.shown (tagKey m slug) m
    refine ⟨_, ?_, .card hnames hredescribed⟩
    have hkey : renamedKey key (.int m) = tagKey m slug := by
      rw [show key = _ from hnames.key_eq, renamedKey_tagKey n hnames.slug_isSlug]
    unfold renameEntry
    rw [taggedCard?_of_names hnames]
    dsimp only
    rw [hnames.replaced]
    dsimp only
    rw [hkey, hnew]
    rfl
  · refine ⟨_, ?_, .other hcard⟩
    unfold renameEntry
    rw [taggedCard?_eq_none hcard]

/-! ### Texts and descriptions -/

section

variable {table tags : Members}

/-- Descriptions under different names get different names. -/
theorem eq_of_renamed (h : WellNamed cards table) {p q p' q' : String × Json} (hp : p ∈ table) (hq : q ∈ table)
    (hpp : Renamed cards p p') (hqq : Renamed cards q q') (hkey : p'.1 = q'.1) : p.1 = q.1 := by
  have hhash {n : Int} {slug : List Char} {key : String} (hkey : tagKey n slug = key) :
      key.toList.head? = some '#' := by
    rw [← hkey, toList_tagKey]
    rfl
  cases hpp with
  | card hnames _ =>
    cases hqq with
    | card hnames' _ =>
      obtain ⟨rfl, rfl⟩ := tagKey_inj hnames.slug_isSlug hnames'.slug_isSlug hkey
      obtain rfl := h.apart _ hp _ hq _ _ (taggedCard?_of_names hnames) (taggedCard?_of_names hnames')
        (hnames.replaced.trans hnames'.replaced.symm)
      exact hnames.key_eq.trans hnames'.key_eq.symm
    | other hcard => exact absurd (hhash hkey) (h.others _ hq hcard)
  | other hcard =>
    cases hqq with
    | card _ _ => exact absurd (hhash hkey.symm) (h.others _ hp hcard)
    | other _ => exact hkey

theorem exists_of_mem_renamed (h : List.Forall₂ (Renamed cards) table tags) {q : String × Json} (hq : q ∈ tags) :
    ∃ p ∈ table, Renamed cards p q := by
  induction h with
  | nil => cases hq
  | @cons p q' table tags hpq _ ih =>
    rcases List.mem_cons.1 hq with rfl | hq
    · exact ⟨p, List.mem_cons_self .., hpq⟩
    · obtain ⟨p', hp', hrenamed⟩ := ih hq
      exact ⟨p', List.mem_cons_of_mem _ hp', hrenamed⟩

theorem nodup_of_renamed (h : WellNamed cards table) (hall : List.Forall₂ (Renamed cards) table tags) :
    (tags.map (·.1)).Nodup := by
  have hsub {part tags : Members} (hall : List.Forall₂ (Renamed cards) part tags) (hpart : ∀ p ∈ part, p ∈ table)
      (honce : (part.map (·.1)).Nodup) : (tags.map (·.1)).Nodup := by
    induction hall with
    | nil => exact List.nodup_nil
    | @cons p q part tags hpq hrest ih =>
      rw [List.map_cons, List.nodup_cons] at honce ⊢
      rw [List.forall_mem_cons] at hpart
      refine ⟨fun hmem => ?_, ih hpart.2 honce.2⟩
      obtain ⟨q', hq', hkey⟩ := List.mem_map.1 hmem
      obtain ⟨p', hp', hrenamed⟩ := exists_of_mem_renamed hrest hq'
      exact honce.1 (eq_of_renamed h (hpart.2 p' hp') hpart.1 hrenamed hpq hkey ▸ List.mem_map_of_mem hp')
  exact hsub hall (fun _ hp => hp) h.once

/-- **Descriptions keep their number and order,** each is renamed with its card, and no two get one name. -/
theorem exists_renameEntries (h : WellNamed cards table) : ∃ tags, renameEntries cards table = .ok tags ∧
    List.Forall₂ (Renamed cards) table tags ∧ (tags.map (·.1)).Nodup := by
  have hall {part : Members} (hpart : ∀ p ∈ part, p ∈ table) : ∃ tags : Members,
      (part.mapM fun p => renameEntry cards p.1 p.2) = .ok tags ∧ List.Forall₂ (Renamed cards) part tags := by
    induction part with
    | nil => exact ⟨[], rfl, .nil⟩
    | cons p part ih =>
      rw [List.forall_mem_cons] at hpart
      obtain ⟨q, hq, hrenamed⟩ := exists_renameEntry h hpart.1
      obtain ⟨tags, htags, hlater⟩ := ih hpart.2
      exact ⟨q :: tags, mapM_cons_eq_ok.2 ⟨q, tags, hq, htags, rfl⟩, .cons hrenamed hlater⟩
  obtain ⟨tags, htags, hrenamed⟩ := hall fun _ hp => hp
  have honce := nodup_of_renamed h hrenamed
  refine ⟨tags, ?_, hrenamed, honce⟩
  rw [renameEntries, htags, ok_bind, Members.ofList_eq_self honce]
  rfl

theorem mem_of_mem_zip (h : List.Forall₂ (Renamed cards) table tags) {p q : String × Json}
    (hpq : (p, q) ∈ table.zip tags) : p ∈ table ∧ Renamed cards p q := by
  refine ⟨(List.of_mem_zip hpq).1, ?_⟩
  induction h with
  | nil => cases hpq
  | cons hrenamed _ ih =>
    rw [List.zip_cons_cons] at hpq
    rcases List.mem_cons.1 hpq with heq | hpq
    · cases heq
      exact hrenamed
    · exact ih hpq

/-- A tag that is named like a description gets the name that the description gets. -/
theorem renamedTag?_of_name (h : WellNamed cards table) {p q : String × Json} (hp : p ∈ table)
    (hrenamed : Renamed cards p q) (t : WrittenTag) (hname : t.name = p.1.toList) :
    renamedTag? cards t.tag = some (braced q.1.toList) := by
  cases hrenamed with
  | @card key ms new n m slug hnames _ =>
    dsimp only at hname ⊢
    rw [hnames.key_eq, toList_tagKey, toList_ofInt_natCast, WrittenTag.name, List.cons_append,
      List.cons_eq_cons] at hname
    obtain ⟨hdigits, hslug⟩ := eq_of_digits_slug t.digits_isDigit (fun _ => isDigit_of_mem_toDigits) t.slug_isSlug
      hnames.slug_isSlug hname.2
    have hcard : t.tag.card = .int n := by
      rw [CardTag.card, WrittenTag.tag, hdigits, Text.numberOf_toDigits]
    rw [renamedTag?, hcard, hnames.replaced, WrittenTag.tag, hslug, ← tagKey_eq, String.toList_ofList]
    rfl
  | other hcard =>
    refine absurd ?_ (h.others p hp hcard)
    rw [← hname]
    rfl

/-- **Tags and descriptions are renamed in step,** if every description of a card is under the name of a tag of
the card. The descriptions keep their number and order, and each goes over to the card that takes the place of
its card. The sides of a tag in the text are renamed apart; a tag that is named like a description becomes the
tag of the name that the description has got, and a text without tags of replaced cards stays. Numbers of cards
in the text must not be too long. -/
theorem renameCards_in_step (cards : IdMap Json) (sql : String) (table : Members) (h : WellNamed cards table)
    (hshort : ∀ t : WrittenTag, t.text <:+: sql.toList → t.digits.length ≤ Text.digitLimit) :
    ∃ tags unknown, renameCards cards (.str sql) (.obj table) =
        .ok (String.ofList (renameTags cards sql.toList), tags, unknown) ∧
      List.Forall₂ (Renamed cards) table tags ∧ (tags.map (·.1)).Nodup ∧
      (∀ (x y : List Char) (t : WrittenTag), renameTags cards (x ++ (t.text ++ y)) =
        renameTags cards x ++ (renameTags cards t.text ++ renameTags cards y)) ∧
      (∀ p q, (p, q) ∈ table.zip tags → ∀ t : WrittenTag, t.name = p.1.toList →
        renameTags cards t.text = braced q.1.toList) ∧
      ∀ text, (∀ t : WrittenTag, t.text <:+: text → cards.get? t.card = none) → renameTags cards text = text := by
  obtain ⟨tags, htags, hrenamed, honce⟩ := exists_renameEntries h
  have halone (t : WrittenTag) : renameTags cards t.text = (renamedTag? cards t.tag).getD t.text := by
    have hparts := renameTags_append cards [] t []
    have hnil : renameTags cards [] = [] := rfl
    rwa [hnil, List.append_nil, List.append_nil, List.nil_append, List.nil_append] at hparts
  refine ⟨tags, (unknownEntries cards table).foldl Ids.add (unknownTags cards sql.toList), ?_, hrenamed, honce,
    fun x y t => ?_, fun p q hpq t hname => ?_, fun _ => renameTags_eq_self⟩
  · have htable : (Json.obj table).orElse (.obj []) = .obj table := by cases table <;> rfl
    unfold renameCards
    dsimp only
    rw [checkTags_eq_ok hshort, ok_bind, htable, Json.membersFor, ok_bind, htags]
    rfl
  · rw [renameTags_append, halone]
  · obtain ⟨hp, hpq⟩ := mem_of_mem_zip hrenamed hpq
    rw [halone, renamedTag?_of_name h hp hpq t hname]
    rfl

end

/-- The descriptions of two card tags and of another one. -/
def twoCardTags : Members :=
  [("#1-base", .obj [("id", .str "aaa"), ("type", .str "card"), ("card-id", .int 1), ("display-name", .str "#1")]),
    ("start", .obj [("type", .str "date"), ("name", .str "start")]),
    ("#2-base", .obj [("type", .str "card"), ("card-id", .int 2), ("display-name", .str "Base")])]

/-- Card 2 takes the place of card 1, and card 3 that of card 2. -/
theorem renameCards_in_step_twoCardTags :
    let cards : IdMap Json := [(.int 1, .int 2), (.int 2, .int 3)]
    let sql := "select * from \x7b\x7b#1-base\x7d\x7d join \x7b\x7b #2-base\x7d\x7d on d > \x7b\x7bstart\x7d\x7d"
    WellNamed cards twoCardTags ∧
      (∀ t : WrittenTag, t.text <:+: sql.toList → t.digits.length ≤ Text.digitLimit) ∧
      ∃ tags unknown, renameCards cards (.str sql) (.obj twoCardTags) =
          .ok ("select * from \x7b\x7b#2-base\x7d\x7d join \x7b\x7b#3-base\x7d\x7d on d > \x7b\x7bstart\x7d\x7d", tags, unknown) ∧
        List.Forall₂ (Renamed cards) twoCardTags tags ∧ tags.map (·.1) = ["#2-base", "start", "#3-base"] := by
  intro cards sql
  have hslug : IsSlug "-base".toList := .inr ⟨"base".toList, rfl, by decide⟩
  have hdate : ¬IsCardTag (.obj [("type", .str "date"), ("name", .str "start")]) := by
    rintro ⟨ms, heq, htype⟩
    cases heq
    exact absurd (Json.str.inj (Option.some.inj htype)) (by decide)
  have hnames : WellNamed cards twoCardTags := by
    refine ⟨by decide, ?_, ?_, ?_⟩
    · simp only [twoCardTags, List.forall_mem_cons]
      refine ⟨fun _ => ⟨_, 1, 2, "-base".toList, rfl, hslug, by decide +kernel, rfl, rfl, ?_, rfl⟩,
        fun h => absurd h hdate, fun _ => ⟨_, 2, 3, "-base".toList, rfl, hslug, by decide +kernel, rfl, rfl, ?_, rfl⟩, List.forall_mem_nil _⟩
      · rintro v ⟨⟩
        exact ⟨_, rfl⟩
      · rintro v ⟨⟩
        exact ⟨_, rfl⟩
    · simp only [twoCardTags, List.forall_mem_cons]
      exact ⟨fun h => absurd ⟨_, rfl, rfl⟩ h, fun _ => by decide, fun h => absurd ⟨_, rfl, rfl⟩ h,
        List.forall_mem_nil _⟩
    · have hcards : ∀ p ∈ twoCardTags, ∀ n : Nat, taggedCard? p.2 = some (.int n) →
          n = 1 ∧ cards.get? (.int n) = some (.int 2) ∨ n = 2 ∧ cards.get? (.int n) = some (.int 3) := by
        simp only [twoCardTags, List.forall_mem_cons]
        refine ⟨fun n hn => .inl ?_, fun n hn => ?_, fun n hn => .inr ?_, List.forall_mem_nil _⟩
        · obtain rfl : n = 1 := Int.natCast_inj.1 (Json.int.inj (Option.some.inj hn)).symm
          exact ⟨rfl, rfl⟩
        · rw [taggedCard?_eq_none hdate] at hn
          cases hn
        · obtain rfl : n = 2 := Int.natCast_inj.1 (Json.int.inj (Option.some.inj hn)).symm
          exact ⟨rfl, rfl⟩
      intro p hp q hq n n' hn hn' heq
      rcases hcards p hp n hn with ⟨rfl, hget⟩ | ⟨rfl, hget⟩ <;>
        rcases hcards q hq n' hn' with ⟨rfl, hget'⟩ | ⟨rfl, hget'⟩
      · rfl
      · rw [hget, hget'] at heq
        cases heq
      · rw [hget, hget'] at heq
        cases heq
      · rfl
  have hshort : ∀ t : WrittenTag, t.text <:+: sql.toList → t.digits.length ≤ Text.digitLimit := by
    intro t ht
    have hlength := ht.length_le
    have hsql : sql.toList.length ≤ Text.digitLimit := by decide
    have htext : t.digits.length ≤ t.text.length := by
      simp only [WrittenTag.text, WrittenTag.name, List.length_append, List.length_cons]
      omega
    omega
  obtain ⟨tags, unknown, hrenamed, hall, -⟩ := renameCards_in_step cards sql twoCardTags hnames hshort
  have htext : (renameCards cards (.str sql) (.obj twoCardTags)).toOption.map (fun r => (r.1, r.2.1.map (·.1))) =
      some ("select * from \x7b\x7b#2-base\x7d\x7d join \x7b\x7b#3-base\x7d\x7d on d > \x7b\x7bstart\x7d\x7d",
        ["#2-base", "start", "#3-base"]) := by
    decide +kernel
  rw [hrenamed] at htext
  obtain ⟨hsql, hkeys⟩ := Prod.mk.inj (Option.some.inj htext)
  exact ⟨hnames, hshort, tags, unknown, by rw [hrenamed]; exact congrArg (fun s => Except.ok (s, tags, unknown)) hsql,
    hall, hkeys⟩

/-- A text is refused if the number of a card in it is spelt with too many zeros. -/
theorem renameCards_zeros {n : Nat} (h : Text.digitLimit < n) (cards : IdMap Json) (table : Json) :
    renameCards cards (.str (String.ofList ("\x7b\x7b#".toList ++ List.replicate n '0' ++ "\x7d\x7d".toList))) table =
      .error (tooManyDigits n) := by
  let t : WrittenTag := ⟨[], List.replicate n '0', [], [], List.forall_mem_nil _, by simp; omega,
    fun c hc => by rw [List.eq_of_mem_replicate hc]; decide, .inl rfl, List.forall_mem_nil _⟩
  have htext : "\x7b\x7b#".toList ++ List.replicate n '0' ++ "\x7d\x7d".toList = t.text := by
    simp [WrittenTag.text, WrittenTag.name, t]
  have hlength : t.digits.length = n := List.length_replicate
  unfold renameCards
  dsimp only
  rw [String.toList_ofList, htext, checkTags_eq_error t (by omega), hlength]
  rfl

/-- **A description of a card with a negative id keeps its key,** although it describes the new card, and a text
is refused in which the number of a card is too long. -/
theorem negative_card_keeps_key :
    tagKey (-5) [] = "#-5" ∧ tagKey 9 [] = "#9" ∧
      (renameCards [(.int (-5), .int 9)] (.str "select 1") (.obj [("#-5", .obj [("type", .str "card"),
        ("card-id", .int (-5)), ("name", .str "#-5")])])).toOption.map (·.2.1.map (·.1)) = some ["#-5"] ∧
      renameCards [] (.str (String.ofList ("\x7b\x7b#".toList ++ List.replicate 4301 '0' ++ "\x7d\x7d".toList)))
        (.obj []) = .error (tooManyDigits 4301) :=
  ⟨by decide +kernel, by decide +kernel, by decide +kernel, renameCards_zeros (by decide) [] _⟩

end Sql
end CardTransfer
