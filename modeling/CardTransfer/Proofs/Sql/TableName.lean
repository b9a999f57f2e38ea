import CardTransfer.Proofs.Sql.Literal
import CardTransfer.Sql.TableName

/-!
# A quoted table name, and what is written for it

A text in which table names are replaced falls into parts: literals, names, and single characters between
them (`parts`). The parts are the text (`textOf_parts`), and what is written for each of them is
the result (`writeTargets_eq`).

A table name in double quotes is a part of its own wherever a part ends in front of it and nothing adjoins
it (`exists_parts_quotedName`). In front of it a part ends unless a literal or an earlier name reaches over
its first quote.
-/

namespace CardTransfer
namespace Sql

open Text (Piece lastOr scanFrom scanFrom_skip)

/-! ### The parts of a text -/

/-- What stands at a place, and the key if it is a table name. -/
abbrev Part := Option (List Char) × List Char

/-- The part that a piece is. -/
def partOf : Piece (List Char) → Part
  | .plain c => (none, [c])
  | .found key taken => (some key, taken)

/-- The parts of a text, from a stretch outside of literals on; `run` is what has been read of the stretch,
last character first. -/
def partsFrom : (run : List Char) → List (Piece Unit) → List Part
  | run, [] => (Text.scan tableRule run.reverse).map partOf
  | run, .plain c :: pieces => partsFrom (c :: run) pieces
  | run, .found _ taken :: pieces =>
    (Text.scan tableRule run.reverse).map partOf ++ (none, taken) :: partsFrom [] pieces

/-- The parts of a text. -/
def parts (cs : List Char) : List Part := partsFrom [] (Text.scan literalRule cs)

/-- The text that parts stand for. -/
def textOf (ps : List Part) : List Char := ps.flatMap (·.2)

/-- What is written for a part. -/
def written (names : TableNames) (p : Part) : List Char :=
  ((p.1.bind (target? names)).map (·.shown.toList)).getD p.2

@[simp] theorem textOf_cons (p : Part) (ps : List Part) : textOf (p :: ps) = p.2 ++ textOf ps := rfl

@[simp] theorem textOf_append (ps qs : List Part) : textOf (ps ++ qs) = textOf ps ++ textOf qs :=
  List.flatMap_append

variable {run : List Char} {pieces : List (Piece Unit)}

theorem textOf_map_partOf (ps : List (Piece (List Char))) :
    textOf (ps.map partOf) = ps.flatMap Piece.source := by
  rw [textOf, List.flatMap_map]
  refine List.flatMap_congr fun p _ => ?_
  cases p <;> rfl

theorem textOf_partsFrom (run : List Char) (pieces : List (Piece Unit)) :
    textOf (partsFrom run pieces) = run.reverse ++ pieces.flatMap Piece.source := by
  induction pieces generalizing run with
  | nil => rw [partsFrom, textOf_map_partOf, Text.flatMap_source_scan, List.flatMap_nil, List.append_nil]
  | cons p pieces ih =>
    cases p with
    | plain c => rw [partsFrom, ih, List.reverse_cons, List.append_assoc]; rfl
    | found a taken =>
      rw [partsFrom, textOf_append, textOf_map_partOf, Text.flatMap_source_scan, textOf_cons, ih]
      rfl

/-- **The parts of a text are the text.** -/
theorem textOf_parts (cs : List Char) : textOf (parts cs) = cs := by
  rw [parts, textOf_partsFrom, Text.flatMap_source_scan]
  rfl

theorem replace_tableRule (names : TableNames) (cs : List Char) :
    Text.replace tableRule (fun key => (target? names key).map (·.shown.toList)) cs =
      ((Text.scan tableRule cs).map partOf).flatMap (written names) := by
  rw [List.flatMap_map, Text.replace]
  refine List.flatMap_congr fun p _ => ?_
  cases p <;> rfl

/-- **What is written for the parts is the result.** -/
theorem writeTargets_eq (names : TableNames) (cs : List Char) :
    writeTargets names cs = (parts cs).flatMap (written names) := by
  have hfrom (run : List Char) (pieces : List (Piece Unit)) :
      mapRuns (Text.replace tableRule fun key => (target? names key).map (·.shown.toList)) run pieces =
        (partsFrom run pieces).flatMap (written names) := by
    induction pieces generalizing run with
    | nil => rw [mapRuns, partsFrom, replace_tableRule]
    | cons p pieces ih =>
      cases p with
      | plain c => exact ih _
      | found a taken =>
        rw [mapRuns, partsFrom, replace_tableRule, ih, List.flatMap_append, List.flatMap_cons,
          List.append_assoc]
        rfl
  exact hfrom [] _

/-! ### A name in double quotes -/

/-- A schema or table that can stand in double quotes, and within a stretch outside of literals. -/
structure IsQuotable (name : List Char) : Prop where
  nonempty : name ≠ []
  unquoted : '"' ∉ name ∧ '\'' ∉ name

/-- A qualified name with both its parts in double quotes. -/
def quotedName (schema table : List Char) : List Char :=
  '"' :: schema ++ '"' :: '.' :: '"' :: table ++ ['"']

/-- The text before and after a name does not adjoin it. -/
structure Alone (before after : List Char) : Prop where
  left : before.getLast?.any (fun c => adjoins c || c == '.') = false
  right : after.head?.any adjoins = false

variable {schema table before after : List Char}

theorem namePart?_quoted {name : List Char} (h : IsQuotable name) (rest : List Char) :
    namePart? ('"' :: name ++ '"' :: rest) = some (name.length + 2, name) := by
  have htake : (name ++ '"' :: rest).takeWhile (· != '"') = name := by
    rw [List.takeWhile_append_of_pos fun c hc => by
      simpa using fun he : c = '"' => h.unquoted.1 (he ▸ hc)]
    simp
  unfold namePart?
  simp only [List.cons_append, htake, List.drop_left, List.isEmpty_cons, Bool.or_false]
  rw [if_neg (by simpa using h.nonempty)]

theorem drop_quoted (name rest : List Char) : ('"' :: name ++ '"' :: rest).drop (name.length + 2) = rest := by
  rw [List.append_cons, List.drop_left' (by simp)]

/-- **A quoted name is found** where nothing adjoins it. -/
theorem tableRule_quotedName (hschema : IsQuotable schema) (htable : IsQuotable table)
    {prev : Option Char} (hprev : prev.any (fun c => adjoins c || c == '.') = false)
    (hafter : after.head?.any adjoins = false) :
    tableRule prev (quotedName schema table ++ after) =
      some ((quotedName schema table).length, Text.lower (schema ++ '.' :: table)) := by
  have hfirst : quotedName schema table ++ after =
      '"' :: schema ++ '"' :: ('.' :: ('"' :: table ++ '"' :: after)) := by
    simp [quotedName]
  have hlength : (quotedName schema table).length = schema.length + 2 + 1 + (table.length + 2) := by
    simp [quotedName]
    omega
  unfold tableRule
  rw [hprev, if_neg Bool.false_ne_true, hfirst, namePart?_quoted hschema]
  show (if _ then _ else _) = _
  rw [drop_quoted, List.head?_cons, if_pos (beq_self_eq_true _), List.drop_one, List.tail_cons,
    namePart?_quoted htable]
  show (if _ then _ else _) = _
  rw [List.drop_succ_cons, drop_quoted, hafter, if_neg Bool.false_ne_true, hlength]

/-! ### Where a part ends -/

/-- Behind the pieces that end in front of a text, the text is scanned by itself. -/
theorem scanFrom_of_append {α : Type} {rule : Text.Rule α} {prev : Option Char} {x y : List Char}
    {ps qs : List (Piece α)} (h : scanFrom rule 0 prev (x ++ y) = ps ++ qs)
    (hx : ps.flatMap Piece.source = x) : qs = scanFrom rule 0 (lastOr prev x) y := by
  induction ps generalizing prev x with
  | nil =>
    cases hx
    exact h.symm
  | cons p ps ih =>
    rw [List.flatMap_cons] at hx
    cases hcs : x ++ y with
    | nil =>
      rw [hcs] at h
      cases h
    | cons c cs =>
      rw [hcs, scanFrom] at h
      split at h
      · rename_i n a hrule
        obtain ⟨rfl, hlater⟩ := List.cons.inj h
        change (c :: cs).take (n - 1 + 1) ++ _ = x at hx
        have hrest : cs.drop (n - 1) = ps.flatMap Piece.source ++ y := by
          rw [← List.take_append_drop (n - 1 + 1) (c :: cs), ← hx, List.append_assoc] at hcs
          exact (List.append_cancel_left hcs).symm
        rw [scanFrom_skip, hrest] at hlater
        rw [ih hlater rfl, ← hx, Text.lastOr_append]
        rfl
      · obtain ⟨rfl, hlater⟩ := List.cons.inj h
        change c :: ps.flatMap Piece.source = x at hx
        subst hx
        obtain ⟨-, rfl⟩ := List.cons.inj hcs
        show qs = scanFrom rule 0 (lastOr (some c) (ps.flatMap Piece.source)) y
        exact ih hlater rfl

variable {ps qs : List Part}

theorem lastOr_none (x : List Char) : lastOr none x = x.getLast? := by
  induction x using List.reverseRecOn with
  | nil => rfl
  | append_singleton x c => rw [Text.lastOr_append, List.getLast?_concat]; rfl

/-- The parts of a stretch from a quoted name on. -/
theorem exists_stretch_quotedName (hschema : IsQuotable schema) (htable : IsQuotable table)
    (halone : Alone before after)
    (h : (Text.scan tableRule (before ++ (quotedName schema table ++ after))).map partOf = ps ++ qs)
    (hps : textOf ps = before) :
    ∃ rest, qs = (some (Text.lower (schema ++ '.' :: table)), quotedName schema table) :: rest := by
  obtain ⟨x, y, hxy, rfl, rfl⟩ := List.map_eq_append_iff.1 h
  rw [textOf_map_partOf] at hps
  have hy := scanFrom_of_append hxy hps
  have hrule := tableRule_quotedName hschema htable (lastOr_none before ▸ halone.left) halone.right
  have htake : (quotedName schema table ++ after).take ((quotedName schema table).length - 1 + 1) =
      quotedName schema table := List.take_left' rfl
  rw [show quotedName schema table ++ after = '"' :: (schema ++ '"' :: '.' :: '"' :: table ++ ['"'] ++ after)
    from rfl] at hy hrule htake
  rw [scanFrom, hrule] at hy
  dsimp only at hy
  rw [htake] at hy
  rw [hy]
  exact ⟨_, rfl⟩

/-- Texts that are the same up to a character that the second one does not have in front. -/
theorem exists_of_append_cons {c : Char} {w x y z : List Char} (hc : c ∉ w) (h : z ++ c :: x = w ++ y) :
    ∃ v, z = w ++ v ∧ y = v ++ c :: x := by
  rcases List.append_eq_append_iff.1 h with ⟨v, hw, hx⟩ | ⟨v, hz, hy⟩
  · cases v with
    | nil => exact ⟨[], by rw [hw, List.append_nil, List.append_nil], hx.symm⟩
    | cons d v =>
      obtain ⟨rfl, -⟩ := List.cons.inj hx
      exact absurd (hw ▸ List.mem_append_right _ (List.mem_cons_self ..)) hc
  · exact ⟨v, hz, hy⟩

theorem not_mem_quotedName (hschema : IsQuotable schema) (htable : IsQuotable table) :
    '\'' ∉ quotedName schema table := by
  have hs := hschema.unquoted.2
  have ht := htable.unquoted.2
  simp [quotedName, hs, ht]

theorem Alone.of_append_left {x : List Char} (h : Alone (x ++ before) after) : Alone before after where
  left := by
    have hleft := h.left
    rw [List.getLast?_append] at hleft
    cases hlast : before.getLast? with
    | none => rfl
    | some c => rwa [hlast] at hleft
  right := h.right

theorem Alone.of_append_right {x : List Char} (h : Alone before (after ++ x)) : Alone before after where
  left := h.left
  right := by
    have hright := h.right
    rw [List.head?_append] at hright
    cases hfirst : after.head? with
    | none => rfl
    | some c => rwa [hfirst] at hright

/-- A quoted name among the parts from a stretch on. -/
theorem exists_partsFrom_quotedName (hschema : IsQuotable schema) (htable : IsQuotable table)
    (halone : Alone before after)
    (hpieces : ∀ a taken, .found a taken ∈ pieces → ∃ inner, taken = '\'' :: inner ++ ['\''])
    (htext : run.reverse ++ pieces.flatMap Piece.source = before ++ (quotedName schema table ++ after))
    (h : partsFrom run pieces = ps ++ qs) (hps : textOf ps = before) :
    ∃ rest, qs = (some (Text.lower (schema ++ '.' :: table)), quotedName schema table) :: rest := by
  induction pieces generalizing run before ps with
  | nil =>
    rw [List.flatMap_nil, List.append_nil] at htext
    rw [partsFrom, htext] at h
    exact exists_stretch_quotedName hschema htable halone h hps
  | cons p pieces ih =>
    have hlater := fun a taken h => hpieces a taken (List.mem_cons_of_mem _ h)
    cases p with
    | plain c =>
      refine @ih (c :: run) _ _ halone hlater ?_ h hps
      rwa [List.reverse_cons, List.append_assoc]
    | found a taken =>
      obtain ⟨inner, rfl⟩ := hpieces a taken (List.mem_cons_self ..)
      rw [partsFrom] at h
      rw [List.flatMap_cons] at htext
      have hstretch : textOf ((Text.scan tableRule run.reverse).map partOf) = run.reverse := by
        rw [textOf_map_partOf, Text.flatMap_source_scan]
      rcases List.append_eq_append_iff.1 h with ⟨us, rfl, hus⟩ | ⟨us, hus, rfl⟩
      · rw [textOf_append, hstretch] at hps
        subst hps
        rw [List.append_assoc] at htext
        have htext := List.append_cancel_left htext
        cases us with
        | nil =>
          -- a literal does not start with the first character of the name
          exact absurd (List.cons.inj htext).1 (by decide)
        | cons u us =>
          obtain ⟨rfl, hrest⟩ := List.cons.inj hus
          rw [textOf_cons, List.append_assoc] at htext
          rw [textOf_cons, ← List.append_assoc] at halone
          exact @ih [] _ _ halone.of_append_left hlater (List.append_cancel_left htext) hrest rfl
      · rw [hus, textOf_append, hps] at hstretch
        rw [← hstretch, List.append_assoc] at htext
        obtain ⟨y, hy, rfl⟩ :=
          exists_of_append_cons (not_mem_quotedName hschema htable) (List.append_cancel_left htext)
        rw [← hstretch, hy] at hus
        obtain ⟨rest, rfl⟩ := exists_stretch_quotedName hschema htable halone.of_append_right hus hps
        exact ⟨_, rfl⟩

/-- A part of a text ends after `before`: neither a literal nor a name that starts there goes on after it. -/
def BreaksAfter (before cs : List Char) : Prop := ∃ ps qs, parts (before ++ cs) = ps ++ qs ∧ textOf ps = before

/-- **A quoted name is a part of its own** where a part ends in front of it and nothing adjoins it. -/
theorem exists_parts_quotedName (hschema : IsQuotable schema) (htable : IsQuotable table)
    (halone : Alone before after) (hbreak : BreaksAfter before (quotedName schema table ++ after)) :
    ∃ ps rest, parts (before ++ (quotedName schema table ++ after)) =
        ps ++ (some (Text.lower (schema ++ '.' :: table)), quotedName schema table) :: rest ∧
      textOf ps = before ∧ textOf rest = after := by
  obtain ⟨ps, qs, h, hps⟩ := hbreak
  obtain ⟨rest, rfl⟩ := exists_partsFrom_quotedName hschema htable halone
    (fun a taken h => quotes_of_found h) (show [].reverse ++ _ = _ from Text.flatMap_source_scan ..)
    (show partsFrom [] _ = _ from h) hps
  refine ⟨ps, rest, h, hps, ?_⟩
  have htext := textOf_parts (before ++ (quotedName schema table ++ after))
  rw [h, textOf_append, textOf_cons, hps] at htext
  exact List.append_cancel_left (List.append_cancel_left htext)

/-! ### Without faults -/

theorem oddTarget?_eq_none {names : TableNames} (h : ∀ key v, target? names key = some v → ∃ s, v = .str s)
    (n : Nat) (inGap : Bool) (ps : List (Piece (List Char))) : oddTarget? names n inGap ps = none := by
  induction ps generalizing n inGap with
  | nil => rfl
  | cons p ps ih =>
    cases p with
    | plain c => exact ih ..
    | found key taken =>
      unfold oddTarget?
      split
      · exact ih ..
      · exact ih ..
      · rename_i v hstr hv
        obtain ⟨s, rfl⟩ := h key v hv
        exact absurd rfl (hstr s)

/-- **Names of tables are written without fault** if all targets are texts. -/
theorem replaceTables_eq_ok {names : TableNames}
    (h : ∀ key v, target? names key = some v → ∃ s, v = .str s) (cs : List Char) :
    replaceTables names cs = .ok (writeTargets names cs) := by
  have hnone : ((outside cs).findSome? fun run => oddTarget? names 0 false (Text.scan tableRule run)) =
      none := List.findSome?_eq_none_iff.2 fun run _ => oddTarget?_eq_none h ..
  unfold replaceTables
  rw [hnone]

end Sql
end CardTransfer
