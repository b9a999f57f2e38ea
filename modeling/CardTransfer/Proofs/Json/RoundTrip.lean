import CardTransfer.Proofs.Json.Number
import CardTransfer.Proofs.Json.Text

/-!
# Documents read back

What is read back from a written document is `reread?` of it (`parse_write`), however it is set out:

| value | read back as |
| --- | --- |
| null, true, false | itself |
| integer | itself; refused if it has too many digits |
| double | a double |
| text, date, point in time | the text, with pairs of halves joined |
| list | the list of its items read back |
| object | its members read back, in the order in which they are written |

Two keys that differ only by halves may become one; the last of its values remains then, at the place
of the first.
-/

namespace CardTransfer
namespace Json

/-! ### What is read back -/

/-- A text with each two neighbours that form a pair made one character. -/
def rereadText (s : String) : String := String.ofList (joinHalves s.toList)

/-- A text without halves is read back as it is. -/
theorem rereadText_eq_self {s : String} (h : ∀ c ∈ s.toList, Text.half? c = none) :
    rereadText s = s := by
  unfold rereadText
  rw [joinHalves_eq_self h, String.ofList_toList]

/-- The double that a written double is read as. -/
def rereadFloat (x : Float) : Float :=
  match readScalar (writtenFloat.write x).toList with
  | .ok (float y, _) => y
  | _ => x

mutual

/-- The value that a written value is read as, or why it is refused. -/
def reread? (style : Style) : Json → Except Refusal Json
  | null => .ok null
  | bool b => .ok (bool b)
  | int n =>
    if Text.digitLimit < Text.digitCount n then .error (.tooLong (Text.digitCount n))
    else .ok (int n)
  | float x => .ok (float (rereadFloat x))
  | str s => .ok (str (rereadText s))
  | arr items => (rereadItems style items).map arr
  | obj ms => do
    let pairs ← (style.arrange (rereadMembers style ms)).mapM fun p =>
      p.2.map fun v => (rereadText p.1, v)
    return obj (Members.ofList pairs)
  | moment s _ => .ok (str (rereadText s))

/-- The items that written items are read as. -/
def rereadItems (style : Style) : List Json → Except Refusal (List Json)
  | [] => .ok []
  | v :: vs => do return (← reread? style v) :: (← rereadItems style vs)

/-- Members, with what their values are read as. -/
def rereadMembers (style : Style) : List (String × Json) → List (String × Except Refusal Json)
  | [] => []
  | (k, v) :: ms => (k, reread? style v) :: rereadMembers style ms

end

theorem rereadItems_eq_mapM (style : Style) (items : List Json) :
    rereadItems style items = items.mapM (reread? style) := by
  induction items with
  | nil => rfl
  | cons v vs ih => rw [rereadItems, List.mapM_cons, ih]

theorem rereadMembers_eq_map (style : Style) (ms : Members) :
    rereadMembers style ms = ms.map fun p => (p.1, reread? style p.2) := by
  induction ms with
  | nil => rfl
  | cons p ms ih => rw [rereadMembers, List.map_cons, ih]

theorem writeItems_eq_map (style : Style) (depth : Nat) (items : List Json) :
    writeItems style depth items = items.map (writeAt style depth) := by
  induction items with
  | nil => rfl
  | cons v vs ih => rw [writeItems, List.map_cons, ih]

theorem writeMembers_eq_map (style : Style) (depth : Nat) (ms : Members) :
    writeMembers style depth ms = ms.map fun p => (p.1, writeAt style depth p.2) := by
  induction ms with
  | nil => rfl
  | cons p ms ih => rw [writeMembers, List.map_cons, ih]

/-- The order of members does not depend on their values. -/
theorem arrange_map {α β : Type} (style : Style) (f : α → β) (parts : List (String × α)) :
    style.arrange (parts.map fun p => (p.1, f p.2)) =
      (style.arrange parts).map fun p => (p.1, f p.2) := by
  unfold Style.arrange
  split
  · exact (Sorting.map_sort (fun _ _ => rfl) parts).symm
  · rfl

theorem mem_arrange {α : Type} {style : Style} {parts : List (String × α)} {p : String × α} :
    p ∈ style.arrange parts ↔ p ∈ parts := by
  unfold Style.arrange
  split
  · exact Sorting.mem_sort
  · exact Iff.rfl

/-- The object that a written object is read as. -/
theorem reread?_obj (style : Style) (ms : Members) :
    reread? style (obj ms) = ((style.arrange ms).mapM fun p =>
      (reread? style p.2).map fun v => (rereadText p.1, v)).map fun pairs =>
        obj (Members.ofList pairs) := by
  rw [reread?, rereadMembers_eq_map, arrange_map, List.mapM_map]
  rfl

/-! ### Written values -/

/-- A text that is read as the given value wherever it stands in a document. It starts with no gap and
closes nothing, and holds no carriage return. -/
structure Reads (text : List Char) (r : Except Refusal Json) : Prop where
  read : ∀ fuel rest, 2 * text.length < fuel → Ends rest →
    readValue fuel (text ++ rest) = r.map fun v => (v, rest)
  start : ∃ c cs, text = c :: cs ∧ isGap c = false ∧ c ≠ ']' ∧ c ≠ '\x7d' ∧ c ≠ '\ufeff'
  plain : '\r' ∉ text

/-- Text between the parts of a document. -/
def Gap (gap : List Char) : Prop := ∀ c ∈ gap, isGap c = true

/-- The text after a gap. -/
theorem skipGap_append {gap : List Char} (h : Gap gap) {c : Char} (hc : isGap c = false)
    (cs : List Char) : skipGap (gap ++ c :: cs) = c :: cs := by
  unfold skipGap
  rw [List.dropWhile_append_of_pos h, List.dropWhile_cons_of_neg (by simp [hc])]

theorem skipGap_cons {c : Char} (hc : isGap c = false) (cs : List Char) :
    skipGap (c :: cs) = c :: cs := by
  unfold skipGap
  rw [List.dropWhile_cons_of_neg (by simp [hc])]

/-- No number goes on where the next part or the end of a list or an object follows. -/
theorem ends_cons {c : Char} (hc : c = ',' ∨ c = ']' ∨ c = '\x7d') (cs : List Char) :
    Ends (c :: cs) := by
  intro d hd
  rw [List.head?_cons, Option.mem_some_iff] at hd
  subst hd
  rcases hc with rfl | rfl | rfl <;> decide

/-- Nor does it after a gap. -/
theorem ends_append {gap : List Char} (h : Gap gap) {c : Char}
    (hc : c = ',' ∨ c = ']' ∨ c = '\x7d') (cs : List Char) : Ends (gap ++ c :: cs) := by
  cases gap with
  | nil => exact ends_cons hc cs
  | cons g gap =>
    intro d hd
    rw [List.cons_append, List.head?_cons, Option.mem_some_iff] at hd
    subst hd
    have hg := h g (List.mem_cons_self ..)
    simp only [isGap, Bool.or_eq_true, beq_iff_eq] at hg
    rcases hg with ((rfl | rfl) | rfl) | rfl <;> decide

/-- Parts put together start as the first of them does. -/
theorem exists_intercalate_eq_cons {c : Char} {cs : List Char} (separator : List Char)
    (parts : List (List Char)) : ∃ more, List.intercalate separator ((c :: cs) :: parts) = c :: more := by
  cases parts with
  | nil => exact ⟨cs, List.intercalate_singleton⟩
  | cons p ps => exact ⟨_, List.intercalate_cons_cons⟩

variable {text : Json → List Char} {value : Json → Except Refusal Json} {gap close : List Char}

/-- The items of a list are read one after the other. -/
theorem readItems_intercalate (hgap : Gap gap) (hclose : Gap close) (rest : List Char)
    {v : Json} {vs : List Json} (h : ∀ w ∈ v :: vs, Reads (text w) (value w)) (fuel : Nat)
    (hfuel : 2 * (List.intercalate (',' :: gap) ((v :: vs).map text)).length + 2 ≤ fuel)
    (acc : List Json) :
    readItems fuel acc
        (List.intercalate (',' :: gap) ((v :: vs).map text) ++ (close ++ ']' :: rest)) =
      ((v :: vs).mapM value).map fun ws => (acc.reverse ++ ws, rest) := by
  induction vs generalizing v fuel acc with
  | nil =>
    obtain ⟨fuel, rfl⟩ := Nat.exists_eq_add_of_le' (Nat.lt_of_lt_of_le (Nat.succ_pos _) hfuel)
    have hv := h v (List.mem_cons_self ..)
    rw [List.map_singleton, List.intercalate_singleton] at hfuel ⊢
    rw [readItems, hv.read fuel _ (by omega) (ends_append hclose (.inr (.inl rfl)) rest),
      List.mapM_cons, List.mapM_nil]
    cases value v with
    | error e => rfl
    | ok w =>
      simp only [Except.map, skipGap_append hclose (c := ']') rfl]
      show Except.ok ((w :: acc).reverse, rest) = Except.ok (acc.reverse ++ [w], rest)
      rw [List.reverse_cons]
  | cons w ws ih =>
    obtain ⟨fuel, rfl⟩ := Nat.exists_eq_add_of_le' (Nat.lt_of_lt_of_le (Nat.succ_pos _) hfuel)
    have hv := h v (List.mem_cons_self ..)
    obtain ⟨c, cs, hw, hc, -, -, -⟩ := (h w (by simp)).start
    -- the text of the items from the second on, which starts with no gap
    obtain ⟨more, hmore⟩ : ∃ more,
        List.intercalate (',' :: gap) ((w :: ws).map text) = c :: more := by
      rw [List.map_cons, hw]
      exact exists_intercalate_eq_cons ..
    rw [List.map_cons, List.map_cons, List.intercalate_cons_cons, ← List.map_cons] at hfuel ⊢
    simp only [List.length_append, List.length_cons] at hfuel
    rw [List.append_assoc, List.append_assoc, List.cons_append, readItems,
      hv.read fuel _ (by omega) (ends_cons (.inl rfl) _), List.mapM_cons]
    cases value v with
    | error e => rfl
    | ok u =>
      have hrest := ih (fun x hx => h x (List.mem_cons_of_mem _ hx)) fuel (by omega) (u :: acc)
      rw [hmore, List.cons_append] at hrest ⊢
      simp only [Except.map, skipGap_cons (c := ',') rfl, skipGap_append hgap hc]
      rw [hrest]
      cases (w :: ws).mapM value with
      | error e => rfl
      | ok us =>
        show Except.ok ((u :: acc).reverse ++ us, rest) = Except.ok (acc.reverse ++ u :: us, rest)
        rw [List.reverse_cons, List.append_assoc]
        rfl

/-- A written member. -/
def memberText (text : Json → List Char) (p : String × Json) : List Char :=
  (writeText p.1).toList ++ ':' :: ' ' :: text p.2

/-- What a written member is read as. -/
def memberValue (value : Json → Except Refusal Json) (p : String × Json) :
    Except Refusal (String × Json) :=
  (value p.2).map fun v => (rereadText p.1, v)

/-- A key is read up to its value. -/
theorem readMembers_memberText {p : String × Json} (h : Reads (text p.2) (value p.2)) (fuel : Nat)
    (hfuel : 2 * (text p.2).length < fuel) (acc : Members) {rest : List Char} (hrest : Ends rest) :
    readMembers (fuel + 1) acc (memberText text p ++ rest) =
      match value p.2 with
      | .error e => .error e
      | .ok v =>
        match skipGap rest with
        | '\x7d' :: after => .ok (acc.insert (rereadText p.1) v, after)
        | ',' :: more => readMembers fuel (acc.insert (rereadText p.1) v) (skipGap more)
        | other => .error (.unexpected "Expecting ',' delimiter" other) := by
  obtain ⟨c, cs, hp, hc, -, -, -⟩ := h.start
  have hkey := readText_writeText p.1
  have hgap : skipGap (' ' :: (text p.2 ++ rest)) = text p.2 ++ rest := by
    have hspace : Gap [' '] := by
      intro d hd
      rw [List.mem_singleton] at hd
      subst hd
      rfl
    rw [hp]
    exact skipGap_append hspace hc _
  unfold memberText
  rw [toList_writeText]
  simp only [List.cons_append, List.append_assoc, List.nil_append, readMembers, hkey,
    skipGap_cons (c := ':') rfl, hgap, h.read fuel rest hfuel hrest]
  cases value p.2 <;> rfl

/-- The members of an object are read one after the other. -/
theorem readMembers_intercalate (hgap : Gap gap) (hclose : Gap close) (rest : List Char)
    {p : String × Json} {ps : Members} (h : ∀ q ∈ p :: ps, Reads (text q.2) (value q.2)) (fuel : Nat)
    (hfuel : 2 * (List.intercalate (',' :: gap) ((p :: ps).map (memberText text))).length + 2 ≤ fuel)
    (acc : Members) :
    readMembers fuel acc (List.intercalate (',' :: gap) ((p :: ps).map (memberText text)) ++
        (close ++ '\x7d' :: rest)) =
      ((p :: ps).mapM (memberValue value)).map fun qs =>
        (qs.foldl (fun ms q => Members.insert ms q.1 q.2) acc, rest) := by
  have size (q : String × Json) : (text q.2).length < (memberText text q).length := by
    unfold memberText
    rw [List.length_append, List.length_cons, List.length_cons]
    omega
  induction ps generalizing p fuel acc with
  | nil =>
    obtain ⟨fuel, rfl⟩ := Nat.exists_eq_add_of_le' (Nat.lt_of_lt_of_le (Nat.succ_pos _) hfuel)
    have hp := h p (List.mem_cons_self ..)
    have hsize := size p
    rw [List.map_singleton, List.intercalate_singleton] at hfuel ⊢
    rw [readMembers_memberText hp fuel (by omega) acc (ends_append hclose (.inr (.inr rfl)) rest),
      List.mapM_cons, List.mapM_nil]
    unfold memberValue
    cases value p.2 with
    | error e => rfl
    | ok w =>
      simp only [skipGap_append hclose (c := '\x7d') rfl]
      rfl
  | cons q qs ih =>
    obtain ⟨fuel, rfl⟩ := Nat.exists_eq_add_of_le' (Nat.lt_of_lt_of_le (Nat.succ_pos _) hfuel)
    have hp := h p (List.mem_cons_self ..)
    have hsize := size p
    -- the text of the members from the second on, which starts with a quote
    obtain ⟨more, hmore⟩ : ∃ more,
        List.intercalate (',' :: gap) ((q :: qs).map (memberText text)) = '"' :: more := by
      rw [List.map_cons, memberText, toList_writeText]
      exact exists_intercalate_eq_cons ..
    rw [List.map_cons, List.map_cons, List.intercalate_cons_cons, ← List.map_cons] at hfuel ⊢
    simp only [List.length_append, List.length_cons] at hfuel
    rw [List.append_assoc, List.append_assoc, List.cons_append,
      readMembers_memberText hp fuel (by omega) acc (ends_cons (.inl rfl) _), List.mapM_cons]
    unfold memberValue
    cases value p.2 with
    | error e => rfl
    | ok u =>
      have hrest := ih (fun x hx => h x (List.mem_cons_of_mem _ hx)) fuel (by omega)
        (acc.insert (rereadText p.1) u)
      rw [hmore, List.cons_append] at hrest ⊢
      simp only [skipGap_cons (c := ',') rfl, skipGap_append hgap (c := '"') rfl]
      rw [hrest]
      unfold memberValue
      cases (q :: qs).mapM fun r => (value r.2).map fun v => (rereadText r.1, v) <;> rfl

/-! ### Lists and objects -/

/-- The blanks that set out a document. -/
def Blank (gap : List Char) : Prop := ∀ c ∈ gap, c = '\n' ∨ c = ' '

theorem Blank.isGap {gap : List Char} (h : Blank gap) : Gap gap := by
  intro c hc
  rcases h c hc with rfl | rfl <;> rfl

theorem Blank.plain {gap : List Char} (h : Blank gap) : '\r' ∉ gap := by
  intro hc
  rcases h _ hc with h | h <;> exact absurd h (by decide)

theorem blank_lineStart (depth : Nat) : Blank (lineStart depth).toList := by
  intro c hc
  unfold lineStart at hc
  rw [String.toList_ofList, List.mem_cons, List.mem_replicate] at hc
  exact hc.imp id And.right

/-- Parts between brackets have blanks around them and after the commas. -/
theorem toList_enclose (style : Style) (depth : Nat) (left right : String) {parts : List String}
    (hne : parts ≠ []) : ∃ start gap close, Blank start ∧ Blank gap ∧ Blank close ∧
      (style.enclose depth left right parts).toList = left.toList ++ (start ++
        (List.intercalate (',' :: gap) (parts.map String.toList) ++ (close ++ right.toList))) := by
  have hempty : parts.isEmpty = false := List.isEmpty_eq_false_iff.2 hne
  have hnil : Blank [] := fun _ h => absurd h (by simp)
  unfold Style.enclose
  rw [hempty]
  simp only [Bool.false_eq_true, ↓reduceIte]
  split
  · refine ⟨_, _, _, blank_lineStart (depth + 1), blank_lineStart (depth + 1),
      blank_lineStart depth, ?_⟩
    simp only [String.toList_append, String.toList_intercalate, List.append_assoc]
    rfl
  · refine ⟨[], [' '], [], hnil, fun c hc => .inr (List.mem_singleton.1 hc), hnil, ?_⟩
    simp only [String.toList_append, String.toList_intercalate, List.append_assoc, List.nil_append]
    rfl

/-- Text put together from parts holds nothing that is in none of them. -/
theorem not_mem_intercalate {c : Char} {separator : List Char} {parts : List (List Char)}
    (hs : c ∉ separator) (h : ∀ part ∈ parts, c ∉ part) : c ∉ List.intercalate separator parts := by
  induction parts with
  | nil => exact List.not_mem_nil
  | cons p ps ih =>
    have hp := h p (List.mem_cons_self ..)
    cases ps with
    | nil => rwa [List.intercalate_singleton]
    | cons q qs =>
      rw [List.intercalate_cons_cons, List.mem_append, List.mem_append]
      exact not_or.2 ⟨not_or.2 ⟨hp, hs⟩, ih fun part hpart => h part (List.mem_cons_of_mem _ hpart)⟩

/-- Brackets around nothing are written without blanks. -/
theorem toList_enclose_nil (style : Style) (depth : Nat) (left right : String) :
    (style.enclose depth left right []).toList = left.toList ++ right.toList :=
  String.toList_append ..

/-- A list is read back if its items are. -/
theorem reads_list (style : Style) (depth : Nat) {write : Json → String} {items : List Json}
    (h : ∀ v ∈ items, Reads (write v).toList (value v)) :
    Reads (style.enclose depth "[" "]" (items.map write)).toList ((items.mapM value).map arr) := by
  cases items with
  | nil =>
    rw [List.map_nil, toList_enclose_nil]
    refine ⟨fun fuel rest hfuel _ => ?_, ⟨'[', [']'], rfl, rfl, by decide, by decide, by decide⟩,
      by decide⟩
    obtain ⟨fuel, rfl⟩ := Nat.exists_eq_add_of_le' (Nat.lt_of_le_of_lt (Nat.zero_le _) hfuel)
    rfl
  | cons v vs =>
    obtain ⟨start, gap, close, hstart, hgap, hclose, htext⟩ :=
      toList_enclose style depth "[" "]" (show (v :: vs).map write ≠ [] by simp)
    rw [List.map_map, Function.comp_def] at htext
    have hleft : "[".toList = ['['] := rfl
    have hright : "]".toList = [']'] := rfl
    rw [hleft, hright] at htext
    refine ⟨fun fuel rest hfuel _ => ?_, ?_, ?_⟩
    · obtain ⟨c, cs, hv, hc, hne, -, -⟩ := (h v (List.mem_cons_self ..)).start
      obtain ⟨more, hmore⟩ : ∃ more, List.intercalate (',' :: gap)
          ((v :: vs).map fun w => (write w).toList) = c :: more := by
        rw [List.map_cons, hv]
        exact exists_intercalate_eq_cons ..
      rw [htext] at hfuel ⊢
      obtain ⟨fuel, rfl⟩ := Nat.exists_eq_add_of_le' (Nat.lt_of_le_of_lt (Nat.zero_le _) hfuel)
      simp only [List.length_append, List.length_cons, List.length_nil] at hfuel
      have hitems := readItems_intercalate hgap.isGap hclose.isGap rest h fuel (by omega) []
      rw [hmore] at hitems ⊢
      simp only [List.cons_append, List.append_assoc, List.nil_append] at hitems ⊢
      simp only [readValue, skipGap_append hstart.isGap hc]
      split
      · rename_i heq
        rw [List.cons.injEq] at heq
        exact absurd heq.1 hne
      · rw [hitems]
        cases (v :: vs).mapM value <;> rfl
    · rw [htext]
      exact ⟨'[', _, rfl, rfl, by decide, by decide, by decide⟩
    · rw [htext]
      simp only [List.mem_append, not_or]
      refine ⟨by decide, hstart.plain, ?_, hclose.plain, by decide⟩
      refine not_mem_intercalate ?_ ?_
      · rw [List.mem_cons, not_or]
        exact ⟨by decide, hgap.plain⟩
      · intro part hpart
        obtain ⟨w, hw, rfl⟩ := List.mem_map.1 hpart
        exact (h w hw).plain

/-- An object is read back if its values are. -/
theorem reads_object (style : Style) (depth : Nat) {write : Json → String} {ms : Members}
    (h : ∀ p ∈ ms, Reads (write p.2).toList (value p.2)) :
    Reads (style.enclose depth "\x7b" "\x7d" (ms.map fun p => writeText p.1 ++ ": " ++ write p.2)).toList
      ((ms.mapM (memberValue value)).map fun pairs => obj (Members.ofList pairs)) := by
  cases ms with
  | nil =>
    rw [List.map_nil, toList_enclose_nil]
    refine ⟨fun fuel rest hfuel _ => ?_,
      ⟨'\x7b', ['\x7d'], rfl, rfl, by decide, by decide, by decide⟩, by decide⟩
    obtain ⟨fuel, rfl⟩ := Nat.exists_eq_add_of_le' (Nat.lt_of_le_of_lt (Nat.zero_le _) hfuel)
    rfl
  | cons p ps =>
    obtain ⟨start, gap, close, hstart, hgap, hclose, htext⟩ := toList_enclose style depth "\x7b" "\x7d"
      (show (p :: ps).map (fun p => writeText p.1 ++ ": " ++ write p.2) ≠ [] by simp)
    have hleft : "\x7b".toList = ['\x7b'] := rfl
    have hright : "\x7d".toList = ['\x7d'] := rfl
    have hmember (q : String × Json) : (writeText q.1 ++ ": " ++ write q.2).toList =
        memberText (fun v => (write v).toList) q := by
      rw [String.toList_append, String.toList_append, List.append_assoc]
      rfl
    have hparts : ((p :: ps).map fun p => writeText p.1 ++ ": " ++ write p.2).map String.toList =
        (p :: ps).map (memberText fun v => (write v).toList) := by
      rw [List.map_map]
      exact List.map_congr_left fun q _ => hmember q
    rw [hparts, hleft, hright] at htext
    refine ⟨fun fuel rest hfuel _ => ?_, ?_, ?_⟩
    · obtain ⟨more, hmore⟩ : ∃ more, List.intercalate (',' :: gap)
          ((p :: ps).map (memberText fun v => (write v).toList)) = '"' :: more := by
        rw [List.map_cons, memberText, toList_writeText]
        exact exists_intercalate_eq_cons ..
      rw [htext] at hfuel ⊢
      obtain ⟨fuel, rfl⟩ := Nat.exists_eq_add_of_le' (Nat.lt_of_le_of_lt (Nat.zero_le _) hfuel)
      simp only [List.length_append, List.length_cons, List.length_nil] at hfuel
      have hmembers := @readMembers_intercalate (fun v => (write v).toList) value gap close
        hgap.isGap hclose.isGap rest p ps h fuel (by omega) []
      rw [hmore] at hmembers ⊢
      simp only [List.cons_append, List.append_assoc, List.nil_append] at hmembers ⊢
      simp only [readValue, skipGap_append hstart.isGap (c := '"') rfl]
      split
      · rename_i heq
        rw [List.cons.injEq] at heq
        exact absurd heq.1 (by decide)
      · rw [hmembers]
        cases (p :: ps).mapM (memberValue value) <;> rfl
    · rw [htext]
      exact ⟨'\x7b', _, rfl, rfl, by decide, by decide, by decide⟩
    · rw [htext]
      simp only [List.mem_append, not_or]
      refine ⟨by decide, hstart.plain, ?_, hclose.plain, by decide⟩
      refine not_mem_intercalate ?_ ?_
      · rw [List.mem_cons, not_or]
        exact ⟨by decide, hgap.plain⟩
      · intro part hpart
        obtain ⟨q, hq, rfl⟩ := List.mem_map.1 hpart
        unfold memberText
        simp only [List.mem_append, List.mem_cons, not_or]
        exact ⟨not_mem_writeText q.1, by decide, by decide, (h q hq).plain⟩

/-! ### All documents -/

/-- A text that starts neither a text nor a list nor an object is a word or a number. -/
theorem readValue_scalar {c : Char} (quote : c ≠ '"') (list : c ≠ '[') (object : c ≠ '\x7b')
    (fuel : Nat) (cs : List Char) : readValue (fuel + 1) (c :: cs) = readScalar (c :: cs) := by
  rw [readValue]
  · rintro rest h
    exact quote (List.cons.inj h).1
  · rintro rest h
    exact list (List.cons.inj h).1
  · rintro rest h
    exact object (List.cons.inj h).1

/-- How a word or a number may start. -/
def inScalar (c : Char) : Bool := c.isAlphanum || c == '-' || c == '+' || c == '.'

/-- A word or a number is read back if it is one wherever no number goes on. -/
theorem reads_scalar {cs : List Char} {r : Except Refusal Json} (hne : cs ≠ [])
    (hcs : ∀ c ∈ cs, inScalar c = true)
    (h : ∀ rest, Ends rest → readScalar (cs ++ rest) = r.map fun v => (v, rest)) : Reads cs r := by
  obtain ⟨c, cs, rfl⟩ := List.exists_cons_of_ne_nil hne
  have hc := hcs c (List.mem_cons_self ..)
  have other (d : Char) (hd : inScalar d = false) : c ≠ d := by
    rintro rfl
    exact absurd (hc.symm.trans hd) (by decide)
  refine ⟨fun fuel rest hfuel hrest => ?_, ⟨c, cs, rfl, ?_, other _ rfl, other _ rfl, other _ rfl⟩,
    fun h => absurd (hcs _ h) (by decide)⟩
  · obtain ⟨fuel, rfl⟩ := Nat.exists_eq_add_of_le' (Nat.lt_of_le_of_lt (Nat.zero_le _) hfuel)
    exact (readValue_scalar (other _ rfl) (other _ rfl) (other _ rfl) fuel _).trans (h rest hrest)
  · rw [Bool.eq_false_iff]
    intro hg
    simp only [isGap, Bool.or_eq_true, beq_iff_eq] at hg
    rcases hg with ((rfl | rfl) | rfl) | rfl <;> exact absurd hc (by decide)

/-- A text is read back. -/
theorem reads_writeText (s : String) : Reads (writeText s).toList (.ok (str (rereadText s))) := by
  refine ⟨fun fuel rest hfuel _ => ?_, ?_, not_mem_writeText s⟩
  · obtain ⟨fuel, rfl⟩ := Nat.exists_eq_add_of_le' (Nat.lt_of_le_of_lt (Nat.zero_le _) hfuel)
    rw [toList_writeText, List.cons_append, List.append_assoc]
    show readValue (fuel + 1) ('"' :: _) = _
    rw [readValue]
    exact congrArg (Except.map fun p : String × List Char => (str p.1, p.2))
      (readText_writeText s _ rest)
  · rw [toList_writeText]
    exact ⟨'"', _, rfl, rfl, by decide, by decide, by decide⟩

theorem inScalar_of_isDigit {c : Char} (h : c.isDigit = true) : inScalar c = true := by
  unfold inScalar Char.isAlphanum
  simp [h]

/-- The characters of a spelling. -/
theorem inScalar_of_spelling {cs : List Char} (h : Decimal.Spelling cs) :
    ∀ c ∈ cs, inScalar c = true := by
  have hwhole {whole : List Char} (hw : Decimal.Whole whole) : ∀ c ∈ whole, inScalar c = true :=
    fun c hc => inScalar_of_isDigit (whole_digits hw c hc)
  have hexp (width : Nat) (p : Int) :
      ∀ c ∈ (Decimal.exponentText width p).toList, inScalar c = true := by
    intro c hc
    unfold Decimal.exponentText at hc
    simp only [String.toList_append, String.toList_ofList, List.mem_append] at hc
    rcases hc with hc | hc | hc
    · have hsign : ∀ d ∈ "e-".toList ++ "e+".toList, inScalar d = true :=
        List.all_eq_true.1 (by decide)
      split at hc
      · exact hsign c (List.mem_append_left _ hc)
      · exact hsign c (List.mem_append_right _ hc)
    · rw [(List.mem_replicate.1 hc).2]
      rfl
    · exact inScalar_of_isDigit (Text.isDigit_of_mem_toDigits hc)
  have hfrac {ds : List Char} (hd : ∀ c ∈ ds, c.isDigit = true) :
      ∀ c ∈ '.' :: ds, inScalar c = true := by
    intro c hc
    rcases List.mem_cons.1 hc with rfl | hc
    · rfl
    · exact inScalar_of_isDigit (hd c hc)
  intro c hc
  cases h with
  | fraction hw hd _ => exact (List.mem_append.1 hc).elim (hwhole hw c) (hfrac hd c)
  | power hw width p => exact (List.mem_append.1 hc).elim (hwhole hw c) (hexp width p c)
  | both hw hd _ width p =>
    rcases List.mem_append.1 hc with hc | hc
    · exact (List.mem_append.1 hc).elim (hwhole hw c) (hfrac hd c)
    · exact hexp width p c hc

/-- An integer is read back. -/
theorem reads_ofInt (n : Int) : Reads (Text.ofInt n).toList
    (if Text.digitLimit < Text.digitCount n then .error (.tooLong (Text.digitCount n))
      else .ok (int n)) := by
  refine reads_scalar ?_ (fun c hc => ?_) fun rest hrest => ?_
  · rw [Text.toList_ofInt]
    exact List.append_ne_nil_of_right_ne_nil _ Nat.toDigits_ne_nil
  · have h := Text.inDecimal_of_mem_ofInt hc
    simp only [Text.inDecimal, Bool.or_eq_true, beq_iff_eq] at h
    rcases h with rfl | h
    · rfl
    · exact inScalar_of_isDigit h
  · rw [readScalar_ofInt n hrest]
    split <;> rfl

/-- A double is read back as a double. -/
theorem reads_writtenFloat (x : Float) :
    Reads (writtenFloat.write x).toList (.ok (float (rereadFloat x))) := by
  obtain ⟨y, hy⟩ := readScalar_writtenFloat x
  have hx : rereadFloat x = y := by
    have h := hy [] ends_nil
    rw [List.append_nil] at h
    unfold rereadFloat
    rw [h]
  have hchars : (writtenFloat.write x).toList ≠ [] ∧
      ∀ c ∈ (writtenFloat.write x).toList, inScalar c = true := by
    rcases Decimal.write_spec (show writtenFloat.wholeMark = ".0" from rfl) x with
      h | h | h | ⟨text, ht, h⟩
    · rw [h]
      exact ⟨by decide, List.all_eq_true.1 (by decide)⟩
    · rw [h]
      exact ⟨by decide, List.all_eq_true.1 (by decide)⟩
    · rw [h]
      exact ⟨by decide, List.all_eq_true.1 (by decide)⟩
    · obtain ⟨d, tail, htext, -⟩ := exists_cons_of_spelling ht
      rcases h with h | h
      · rw [h]
        exact ⟨by rw [htext]; exact List.cons_ne_nil _ _, inScalar_of_spelling ht⟩
      · rw [h]
        refine ⟨List.cons_ne_nil _ _, fun c hc => ?_⟩
        rcases List.mem_cons.1 hc with rfl | hc
        · rfl
        · exact inScalar_of_spelling ht c hc
  refine reads_scalar hchars.1 hchars.2 fun rest hrest => ?_
  rw [hx]
  exact hy rest hrest

theorem reads_null : Reads "null".toList (.ok null) :=
  reads_scalar (by decide) (List.all_eq_true.1 (by decide)) fun _ _ => rfl

theorem reads_bool (b : Bool) : Reads (if b then "true" else "false").toList (.ok (bool b)) := by
  cases b
  · exact reads_scalar (by decide) (List.all_eq_true.1 (by decide)) fun _ _ => rfl
  · exact reads_scalar (by decide) (List.all_eq_true.1 (by decide)) fun _ _ => rfl

mutual

/-- **Every written value is read as `reread?` says**, wherever it stands in a document. -/
theorem reads_writeAt (style : Style) (depth : Nat) :
    ∀ v : Json, Reads (writeAt style depth v).toList (reread? style v)
  | null => reads_null
  | bool b => reads_bool b
  | int n => reads_ofInt n
  | float x => reads_writtenFloat x
  | str s => reads_writeText s
  | arr items => by
    rw [writeAt, reread?, writeItems_eq_map, rereadItems_eq_mapM]
    exact reads_list style depth (reads_writeItems style (depth + 1) items)
  | obj ms => by
    rw [writeAt, reread?_obj, writeMembers_eq_map, arrange_map, List.map_map]
    exact reads_object style depth fun p hp =>
      reads_writeMembers style (depth + 1) ms p (mem_arrange.1 hp)
  | moment s _ => reads_writeText s

theorem reads_writeItems (style : Style) (depth : Nat) :
    ∀ items : List Json, ∀ v ∈ items, Reads (writeAt style depth v).toList (reread? style v)
  | [] => fun _ h => absurd h List.not_mem_nil
  | v :: vs =>
    List.forall_mem_cons.2 ⟨reads_writeAt style depth v, reads_writeItems style depth vs⟩

theorem reads_writeMembers (style : Style) (depth : Nat) :
    ∀ ms : List (String × Json), ∀ p ∈ ms, Reads (writeAt style depth p.2).toList (reread? style p.2)
  | [] => fun _ h => absurd h List.not_mem_nil
  | (_, v) :: ms =>
    List.forall_mem_cons.2 ⟨reads_writeAt style depth v, reads_writeMembers style depth ms⟩

end

/-- **A written document is read as `reread?` of it.** -/
theorem parse_write (style : Style) (v : Json) :
    parse (write style v) = (reread? style v).mapError (Refusal.fault (write style v).toList) := by
  have h := reads_writeAt style 0 v
  obtain ⟨c, cs, hcs, hc, -, -, hmark⟩ := h.start
  have hread := h.read (2 * (write style v).toList.length + 2) [] (by unfold write; omega) ends_nil
  rw [List.append_nil] at hread
  change readValue _ (write style v).toList = _ at hread
  have hskip : skipGap (write style v).toList = (write style v).toList := by
    rw [write, hcs, skipGap_cons hc]
  have hhead : ((write style v).toList.head? == some '\ufeff') = false := by
    rw [write, hcs, beq_eq_false_iff_ne]
    simpa using hmark
  unfold parse
  simp only [hhead, hskip, hread]
  cases reread? style v <;> rfl

end Json
end CardTransfer
