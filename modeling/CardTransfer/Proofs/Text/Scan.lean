import CardTransfer.Text.Scan
import Mathlib.Data.List.Infix

/-!
# Texts that a scan passes over

Where a rule matches depends on what comes after, so that a stretch of text has no match of its own only
together with the text behind it (`Clear`). A scan passes over such a stretch: it is copied, and the rest
is scanned as if it stood there alone (`replaceFrom_append`).

What a replacement keeps are the parts that no match starts in or runs into (`infix_replaceFrom`).
-/

namespace CardTransfer
namespace Text

variable {α : Type}

/-- What is said of all characters of a text is decided by going through the text, not through all characters
there are. -/
instance (priority := high) decidableForallMem {l : List Char} {p : Char → Prop} [DecidablePred p] :
    Decidable (∀ c ∈ l, p c) :=
  List.decidableBAll p l

/-! ### Parts -/

section

variable {c : α} {w a b : List α}

/-- Two texts are the same up to the first place of a character, and behind it. -/
theorem eq_of_append_cons {x y b' : List α} (hx : c ∉ x) (hy : c ∉ y)
    (h : x ++ c :: b = y ++ c :: b') : x = y ∧ b = b' := by
  induction x generalizing y with
  | nil =>
    cases y with
    | nil => exact ⟨rfl, (List.cons.inj h).2⟩
    | cons d y => exact absurd (List.mem_cons.2 (.inl (List.cons.inj h).1)) hy
  | cons d x ih =>
    rw [List.mem_cons, not_or] at hx
    cases y with
    | nil => exact absurd (List.cons.inj h).1.symm hx.1
    | cons e y =>
      obtain ⟨rfl, hlater⟩ := List.cons.inj h
      obtain ⟨rfl, rfl⟩ := ih hx.2 (fun hc => hy (List.mem_cons_of_mem _ hc)) hlater
      exact ⟨rfl, rfl⟩

/-- A part does not start before its first character can be met. -/
theorem infix_of_head_not_mem (h : c :: w <:+: a ++ b) (hc : c ∉ a) : c :: w <:+: b := by
  rcases List.infix_append_iff.1 h with h | h | ⟨x, y, hw, hx, hy⟩
  · exact absurd (h.subset (List.mem_cons_self ..)) hc
  · exact h
  · cases x with
    | nil =>
      rw [hw]
      exact hy.isInfix
    | cons d x =>
      cases hw
      exact absurd (hx.subset (List.mem_cons_self ..)) hc

/-- A part does not end after its last character can be met. -/
theorem infix_of_last_not_mem (h : w ++ [c] <:+: a ++ b) (hc : c ∉ b) : w ++ [c] <:+: a := by
  rw [← List.reverse_infix, List.reverse_append] at h ⊢
  rw [List.reverse_append] at h
  exact infix_of_head_not_mem h (by rwa [List.mem_reverse])

/-- A part without a character does not reach over it. -/
theorem infix_or_of_not_mem (h : w <:+: a ++ c :: b) (hc : c ∉ w) : w <:+: a ∨ w <:+: b := by
  rcases List.infix_append_iff.1 h with h | h | ⟨x, y, rfl, hx, hy⟩
  · exact .inl h
  · rcases List.infix_cons_iff.1 h with h | h
    · rcases List.prefix_cons_iff.1 h with rfl | ⟨t, rfl, -⟩
      · exact .inl (List.nil_infix ..)
      · exact absurd (List.mem_cons_self ..) hc
    · exact .inr h
  · rcases List.prefix_cons_iff.1 hy with rfl | ⟨t, rfl, -⟩
    · rw [List.append_nil]
      exact .inl hx.isInfix
    · exact absurd (List.mem_append_right _ (List.mem_cons_self ..)) hc

end

/-! ### Places where nothing is seen -/

/-- The character before a place, given the one before the text that leads there. -/
def lastOr (before : Option Char) : List Char → Option Char
  | [] => before
  | c :: cs => lastOr (some c) cs

@[simp] theorem lastOr_append (before : Option Char) (x y : List Char) :
    lastOr before (x ++ y) = lastOr (lastOr before x) y := by
  induction x generalizing before with
  | nil => rfl
  | cons c x ih => exact ih (some c)

/-- Whether something is seen at no place of `x`, when `v` comes after it. -/
def Clear (sees : Option Char → List Char → Bool) : Option Char → List Char → List Char → Prop
  | _, [], _ => True
  | before, c :: x, v => sees before (c :: x ++ v) = false ∧ Clear sees (some c) x v

instance decidableClear (sees : Option Char → List Char → Bool) :
    ∀ before x v, Decidable (Clear sees before x v)
  | _, [], _ => .isTrue trivial
  | before, c :: x, v =>
    have := decidableClear sees (some c) x v
    inferInstanceAs (Decidable (sees before (c :: x ++ v) = false ∧ Clear sees (some c) x v))

variable {sees : Option Char → List Char → Bool} {before : Option Char} {x y v : List Char}

theorem clear_append : Clear sees before (x ++ y) v ↔
    Clear sees before x (y ++ v) ∧ Clear sees (lastOr before x) y v := by
  induction x generalizing before with
  | nil => exact (true_and _).symm ▸ Iff.rfl
  | cons c x ih =>
    rw [List.cons_append, Clear, Clear, ih, and_assoc, List.cons_append, List.cons_append,
      List.append_assoc]
    rfl

/-- What is seen less often is seen at no place, either. -/
theorem Clear.imp {sees' : Option Char → List Char → Bool}
    (h : ∀ before cs, sees before cs = false → sees' before cs = false) (hclear : Clear sees before x v) :
    Clear sees' before x v := by
  induction x generalizing before with
  | nil => trivial
  | cons c x ih => exact ⟨h _ _ hclear.1, ih hclear.2⟩

/-- What stands before a text counts for its first place only. -/
theorem clear_before {after : Option Char} (h : sees before (x ++ v) = sees after (x ++ v)) :
    Clear sees before x v ↔ Clear sees after x v := by
  cases x with
  | nil => rfl
  | cons c x =>
    unfold Clear
    rw [h]

/-- Whether a rule matches at a place. -/
def isMatch (rule : Rule α) : Option Char → List Char → Bool := fun before cs =>
  (rule before cs).isSome

theorem isMatch_eq_false {rule : Rule α} {cs : List Char} :
    isMatch rule before cs = false ↔ rule before cs = none := by
  unfold isMatch
  rw [Option.isSome_eq_false_iff, Option.isNone_iff_eq_none]

theorem mem_matchesOf_iff {rule : Rule α} {a : α} {cs : List Char} :
    a ∈ matchesOf rule cs ↔ ∃ taken, .found a taken ∈ scan rule cs := by
  unfold matchesOf
  rw [List.mem_filterMap]
  constructor
  · rintro ⟨piece, h, ha⟩
    cases piece with
    | plain => cases ha
    | found b taken =>
      cases ha
      exact ⟨taken, h⟩
  · rintro ⟨taken, h⟩
    exact ⟨_, h, rfl⟩

/-- A rule has no matches exactly if it matches at no place. -/
theorem matchesOf_eq_nil_iff {rule : Rule α} {cs : List Char} :
    matchesOf rule cs = [] ↔ Clear (isMatch rule) none cs [] := by
  have hfrom (before : Option Char) :
      (∀ a taken, .found a taken ∉ scanFrom rule 0 before cs) ↔ Clear (isMatch rule) before cs [] := by
    induction cs generalizing before with
    | nil => simp [scanFrom, Clear]
    | cons c cs ih =>
      unfold scanFrom Clear
      rw [List.append_nil, isMatch_eq_false]
      split
      · rename_i n a hrule
        rw [hrule]
        exact ⟨fun h => absurd (List.mem_cons_self ..) (h a _), fun h => absurd h.1 (Option.some_ne_none _)⟩
      · rename_i hrule
        rw [hrule, ← ih]
        simp
  rw [← hfrom, List.eq_nil_iff_forall_not_mem]
  simp only [mem_matchesOf_iff, not_exists, scan]

/-- Behind a match the text is scanned by itself. -/
theorem scanFrom_skip (rule : Rule α) (n : Nat) (before : Option Char) (cs : List Char) :
    scanFrom rule n before cs = scanFrom rule 0 (lastOr before (cs.take n)) (cs.drop n) := by
  induction cs generalizing n before with
  | nil => simp [scanFrom]
  | cons c cs ih =>
    cases n with
    | zero => rfl
    | succ n => exact ih n (some c)

/-- What a piece becomes. -/
def Piece.written (write : α → Option (List Char)) : Piece α → List Char
  | plain c => [c]
  | found a taken => (write a).getD taken

/-- A replacement from a place on. -/
def replaceFrom (rule : Rule α) (write : α → Option (List Char)) (skip : Nat) (before : Option Char)
    (cs : List Char) : List Char :=
  (scanFrom rule skip before cs).flatMap (Piece.written write)

variable {rule : Rule α} {write : α → Option (List Char)}

theorem replace_eq (rule : Rule α) (write : α → Option (List Char)) (cs : List Char) :
    replace rule write cs = replaceFrom rule write 0 none cs := by
  unfold replace replaceFrom scan
  refine List.flatMap_congr fun piece _ => ?_
  cases piece <;> rfl

theorem replaceFrom_cons_none {c : Char} {cs : List Char} (h : rule before (c :: cs) = none) :
    replaceFrom rule write 0 before (c :: cs) = c :: replaceFrom rule write 0 (some c) cs := by
  unfold replaceFrom
  rw [scanFrom, h]
  rfl

theorem replaceFrom_cons_some {c : Char} {cs : List Char} {n : Nat} {a : α}
    (h : rule before (c :: cs) = some (n, a)) : replaceFrom rule write 0 before (c :: cs) =
      (write a).getD ((c :: cs).take (n - 1 + 1)) ++ replaceFrom rule write (n - 1) (some c) cs := by
  unfold replaceFrom
  rw [scanFrom, h]
  rfl

/-- **A replacement passes over a text without matches.** -/
theorem replaceFrom_append (h : Clear (isMatch rule) before x v) :
    replaceFrom rule write 0 before (x ++ v) = x ++ replaceFrom rule write 0 (lastOr before x) v := by
  induction x generalizing before with
  | nil => rfl
  | cons c x ih =>
    have hnone : rule before (c :: (x ++ v)) = none := isMatch_eq_false.1 h.1
    rw [List.cons_append, replaceFrom_cons_none hnone, ih h.2]
    rfl

/-- Behind a match the text is replaced by itself. -/
theorem replaceFrom_append_some {taken : List Char} {a : α} (h : rule before (taken ++ x) = some (taken.length, a))
    (hne : taken ≠ []) : replaceFrom rule write 0 before (taken ++ x) =
      (write a).getD taken ++ replaceFrom rule write 0 (lastOr before taken) x := by
  obtain ⟨c, taken, rfl⟩ := List.exists_cons_of_ne_nil hne
  rw [List.cons_append] at h ⊢
  rw [replaceFrom_cons_some h]
  unfold replaceFrom
  rw [scanFrom_skip, List.length_cons, Nat.add_sub_cancel, List.take_succ_cons, List.take_left, List.drop_left]
  rfl

/-- What stands before a text counts for its first place only. -/
theorem replaceFrom_before {after : Option Char} (h : rule before x = rule after x) :
    replaceFrom rule write 0 before x = replaceFrom rule write 0 after x := by
  cases x with
  | nil => rfl
  | cons c x =>
    unfold replaceFrom
    rw [scanFrom, scanFrom, h]

/-- **A replacement treats a text apart from what follows it** if another rule sees in the text alone what is seen in
front of that. -/
theorem replaceFrom_append_of_agree {rule' : Rule α} {y : List Char} {skip : Nat}
    (hagree : ∀ before c z, c :: z <:+ x → rule' before (c :: z ++ y) = rule before (c :: z))
    (hle : ∀ before x n a, rule before x = some (n, a) → n ≤ x.length) (hskip : skip ≤ x.length) :
    replaceFrom rule' write skip before (x ++ y) =
      replaceFrom rule write skip before x ++ replaceFrom rule' write 0 (lastOr before x) y := by
  induction x generalizing skip before with
  | nil =>
    cases Nat.le_zero.1 hskip
    rfl
  | cons c x ih =>
    have hlater (before : Option Char) (d : Char) (z : List Char) (hz : d :: z <:+ x) :
        rule' before (d :: z ++ y) = rule before (d :: z) := hagree before d z (hz.trans (List.suffix_cons c x))
    cases skip with
    | succ skip => exact ih hlater (Nat.le_of_succ_le_succ hskip)
    | zero =>
      have hhere : rule' before (c :: (x ++ y)) = rule before (c :: x) := hagree before c x (List.suffix_refl _)
      cases hrule : rule before (c :: x) with
      | none =>
        rw [hrule] at hhere
        rw [List.cons_append, replaceFrom_cons_none hhere, replaceFrom_cons_none hrule, ih hlater (Nat.zero_le _)]
        rfl
      | some p =>
        obtain ⟨n, a⟩ := p
        rw [hrule] at hhere
        have hn : n - 1 ≤ x.length := by
          have hlength := hle _ _ _ _ hrule
          rw [List.length_cons] at hlength
          omega
        have htake : (c :: (x ++ y)).take (n - 1 + 1) = (c :: x).take (n - 1 + 1) := by
          rw [List.take_succ_cons, List.take_succ_cons, List.take_append_of_le_length hn]
        rw [List.cons_append, replaceFrom_cons_some hhere, replaceFrom_cons_some hrule, ih hlater hn, htake,
          List.append_assoc]
        rfl

theorem replaceFrom_append_of_local {y : List Char} {skip : Nat}
    (hlocal : ∀ before c x, rule before (c :: x ++ y) = rule before (c :: x))
    (hle : ∀ before x n a, rule before x = some (n, a) → n ≤ x.length) (hskip : skip ≤ x.length) :
    replaceFrom rule write skip before (x ++ y) =
      replaceFrom rule write skip before x ++ replaceFrom rule write 0 (lastOr before x) y :=
  replaceFrom_append_of_agree (fun before c z _ => hlocal before c z) hle hskip

/-- **A replacement keeps a part that no match starts in** if no match holds the first character of the
part. -/
theorem infix_replaceFrom {c : Char} {w : List Char}
    (hmatch : ∀ before cs n a, rule before cs = some (n, a) → c ∉ cs.take (n - 1 + 1))
    (hclear : ∀ before v, Clear (isMatch rule) before (c :: w) v) {skip : Nat} {cs : List Char}
    (h : c :: w <:+: cs.drop skip) : c :: w <:+: replaceFrom rule write skip before cs := by
  induction cs generalizing skip before with
  | nil =>
    rw [List.drop_nil, List.infix_nil] at h
    cases h
  | cons d cs ih =>
    cases skip with
    | succ skip => exact ih h
    | zero =>
      rw [List.drop_zero] at h
      cases hrule : rule before (d :: cs) with
      | none =>
        rw [replaceFrom_cons_none hrule]
        rcases List.infix_cons_iff.1 h with ⟨v, hv⟩ | h
        · -- the part starts here, and is copied
          have hcopy : replaceFrom rule write 0 before (c :: w ++ v) = _ :=
            replaceFrom_append (hclear before v)
          rw [hv, replaceFrom_cons_none hrule] at hcopy
          rw [hcopy]
          exact (List.prefix_append _ _).isInfix
        · have hlater : c :: w <:+: replaceFrom rule write 0 (some d) cs := ih h
          exact hlater.trans (List.suffix_cons _ _).isInfix
      | some p =>
        obtain ⟨n, a⟩ := p
        rw [replaceFrom_cons_some hrule]
        have hafter : c :: w <:+: cs.drop (n - 1) := by
          have htaken := hmatch before (d :: cs) n a hrule
          rw [← List.take_append_drop (n - 1 + 1) (d :: cs)] at h
          exact infix_of_head_not_mem h htaken
        exact (ih hafter).trans (List.suffix_append _ _).isInfix

end Text
end CardTransfer
