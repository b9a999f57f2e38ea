import CardTransfer.Proofs.Decimal.Exact
import CardTransfer.Proofs.Json.Double
import CardTransfer.Proofs.Json.IdMap
import CardTransfer.Proofs.Sorting

/-!
# Ids in order

Ids that are not compound compare by their keys alone (`order?_congr`): the key of an id tells at which place
of the line it is, if it is a number (`number?_congr`), and else which text it is. So it does not matter for
their order how ids are spelled, and any two of them compare (`le_total`).

Being written and read back leaves such an id alone, except that a text may become another one
(`reread?_cases`). So ids that have an order have one when they are read back (`sortable_of_reread`), and
those that are whole numbers stay what they are (`key_iff_of_reread`).

Different integers in increasing order do not depend on the order in which they come (`sorted_congr`).
-/

namespace CardTransfer

open Decimal (Line)

/-! ### Ids that compare by their keys -/

namespace Json

variable {a b c d : Json}

/-- The key of a double is the whole number that it is, or tells its bits. -/
theorem key_float (x : Float) : (∃ n, (float x).key = .whole n ∧ Decimal.place? x = some (.at n)) ∨
    (float x).key = .fraction x.toBits.toNat := by
  simp only [key]
  split
  · rename_i n hn
    split
    · rename_i heq
      exact .inl ⟨n, rfl, Decimal.place?_of_compareInt (beq_iff_eq.1 heq)⟩
    · exact .inr rfl
  · exact .inr rfl

/-- An id with the key of a whole number is at the place of this number. -/
theorem exists_number_of_key {n : Int} (h : a.key = .whole n) :
    ∃ x, a.number? = some x ∧ x.place? = some (.at n) := by
  cases a with
  | bool b =>
    cases h
    exact ⟨_, rfl, rfl⟩
  | int m =>
    cases h
    exact ⟨_, rfl, rfl⟩
  | float x =>
    rcases key_float x with ⟨m, hkey, hplace⟩ | hkey <;> rw [hkey] at h <;> cases h
    exact ⟨_, rfl, hplace⟩
  | _ => cases h

/-- An id whose key tells bits is the double with these bits. -/
theorem exists_float_of_key {bits : Nat} (h : a.key = .fraction bits) :
    ∃ x, a = float x ∧ x.toBits.toNat = bits := by
  cases a with
  | float x =>
    rcases key_float x with ⟨m, hkey, -⟩ | hkey <;> rw [hkey] at h <;> cases h
    exact ⟨x, rfl, rfl⟩
  | _ => cases h

/-- All other ids are no numbers. -/
theorem number?_eq_none (hwhole : ∀ n, a.key ≠ .whole n) (hfraction : ∀ bits, a.key ≠ .fraction bits) :
    a.number? = none := by
  cases a with
  | bool b => exact absurd rfl (hwhole _)
  | int n => exact absurd rfl (hwhole _)
  | float x =>
    rcases key_float x with ⟨n, hkey, -⟩ | hkey
    · exact absurd hkey (hwhole n)
    · exact absurd hkey (hfraction _)
  | _ => rfl

/-- **Two ids of one thing are at the same place**, if they are numbers. -/
theorem number?_congr (h : a.key = b.key) :
    a.number?.map Number.place? = b.number?.map Number.place? := by
  cases hkey : b.key with
  | whole n =>
    obtain ⟨x, hx, hplace⟩ := exists_number_of_key (h.trans hkey)
    obtain ⟨y, hy, hplace'⟩ := exists_number_of_key hkey
    rw [hx, hy, Option.map_some, Option.map_some, hplace, hplace']
  | fraction bits =>
    obtain ⟨x, rfl, hx⟩ := exists_float_of_key (h.trans hkey)
    obtain ⟨y, rfl, hy⟩ := exists_float_of_key hkey
    rw [Decimal.eq_of_toBits (hx.trans hy.symm)]
  | _ =>
    have hnone : b.number? = none := number?_eq_none (by simp [hkey]) (by simp [hkey])
    have hnone' : a.number? = none := number?_eq_none (by simp [h, hkey]) (by simp [h, hkey])
    rw [hnone, hnone']

/-- Two ids of one thing are both numbers, or none is. -/
theorem isSome_number?_congr (h : a.key = b.key) : a.number?.isSome = b.number?.isSome := by
  simpa only [Option.isSome_map] using congrArg Option.isSome (number?_congr h)

/-- The text that an id is is its key. -/
theorem str?_eq (a : Json) : a.str? = match a.key with
    | .text s => some s
    | _ => none := by
  cases a with
  | float x => rcases key_float x with ⟨n, hkey, -⟩ | hkey <;> rw [hkey] <;> rfl
  | _ => rfl

theorem str?_congr (h : a.key = b.key) : a.str? = b.str? := by
  rw [str?_eq, str?_eq, h]

/-- The order of ids that are not compound: of texts character by character, of numbers by their places. -/
theorem order?_eq (ha : a.isCompound = false) : Ids.order? a b =
    match a.str?, b.str? with
    | some s, some t => some (compare s t)
    | _, _ => Line.order? (a.number?.map Number.place?).join (b.number?.map Number.place?).join := by
  have hnumbers (b : Json) : (do (← a.number?).compare (← b.number?)) =
      Line.order? (a.number?.map Number.place?).join (b.number?.map Number.place?).join := by
    cases a.number? with
    | none => rfl
    | some x =>
      cases b.number? with
      | none => cases hx : x.place? <;> simp [hx, Line.order?]
      | some y => exact Number.compare_eq x y
  rw [← hnumbers]
  cases a with
  | arr vs => cases ha
  | _ => cases b <;> rfl

/-- The order of ids that are not compound does not depend on how they are written. -/
theorem order?_congr (ha : a.isCompound = false) (hc : c.isCompound = false) (hac : a.key = c.key)
    (hbd : b.key = d.key) : Ids.order? a b = Ids.order? c d := by
  rw [order?_eq ha, order?_eq hc, number?_congr hac, number?_congr hbd, str?_congr hac, str?_congr hbd]

/-- It is the other way around for the other one. -/
theorem order?_swap (ha : a.isCompound = false) (hb : b.isCompound = false) :
    (Ids.order? a b).map Ordering.swap = Ids.order? b a := by
  rw [order?_eq ha, order?_eq hb]
  cases a.str? with
  | none => cases b.str? <;> exact Number.order?_swap _ _
  | some s =>
    cases b.str? with
    | none => exact Number.order?_swap _ _
    | some t => exact congrArg some Std.OrientedOrd.eq_swap.symm

/-- One of two such ids does not come after the other. -/
theorem le_total (ha : a.isCompound = false) (hb : b.isCompound = false) :
    Ids.le a b = true ∨ Ids.le b a = true := by
  unfold Ids.le
  rw [← order?_swap ha hb]
  cases Ids.order? a b with
  | none => exact .inl rfl
  | some o =>
    cases o with
    | gt => exact .inr rfl
    | _ => exact .inl rfl

theorem isCompound_of_isInt (h : a.isInt = true) : a.isCompound = false := by
  cases a <;> first | rfl | cases h

theorem isSome_number?_of_isInt (h : a.isInt = true) : a.number?.isSome = true := by
  cases a <;> first | rfl | cases h

theorem exists_key_of_isInt (h : a.isInt = true) : ∃ n, a.key = .whole n := by
  cases a <;> first | exact ⟨_, rfl⟩ | cases h

/-! ### Ids that are read back -/

/-- **What is not compound is read back as it is**, but for texts and dates, which become texts. -/
theorem reread?_cases {style : Style} (ha : a.isCompound = false) (h : reread? style a = .ok b) :
    b = a ∨ (∃ s t, a = .str s ∧ b = .str t) ∨ ∃ s timed t, a = .moment s timed ∧ b = .str t := by
  cases a with
  | null => exact .inl (Except.ok.inj h).symm
  | bool b => exact .inl (Except.ok.inj h).symm
  | int n =>
    rw [reread?] at h
    split at h
    · cases h
    · exact .inl (Except.ok.inj h).symm
  | float x =>
    rw [reread?, rereadFloat_eq_self] at h
    exact .inl (Except.ok.inj h).symm
  | str s => exact .inr (.inl ⟨s, _, rfl, (Except.ok.inj h).symm⟩)
  | arr items => cases ha
  | obj ms => cases ha
  | moment s timed => exact .inr (.inr ⟨s, timed, _, rfl, (Except.ok.inj h).symm⟩)

/-- An id is read back as a whole number if it is this number. -/
theorem key_iff_of_reread {style : Style} {n : Int} (ha : a.isCompound = false)
    (h : reread? style a = .ok b) : b.key = .whole n ↔ a.key = .whole n := by
  rcases reread?_cases ha h with rfl | ⟨s, t, rfl, rfl⟩ | ⟨s, timed, t, rfl, rfl⟩
  · exact Iff.rfl
  · exact iff_of_false (fun h => nomatch h) fun h => nomatch h
  · exact iff_of_false (fun h => nomatch h) fun h => nomatch h

theorem isCompound_of_reread {style : Style} (ha : a.isCompound = false)
    (h : reread? style a = .ok b) : b.isCompound = false := by
  rcases reread?_cases ha h with rfl | ⟨s, t, rfl, rfl⟩ | ⟨s, timed, t, rfl, rfl⟩
  · exact ha
  · rfl
  · rfl

theorem isSome_number?_of_reread {style : Style} (ha : a.isCompound = false)
    (h : reread? style a = .ok b) : b.number?.isSome = a.number?.isSome := by
  rcases reread?_cases ha h with rfl | ⟨s, t, rfl, rfl⟩ | ⟨s, timed, t, rfl, rfl⟩ <;> rfl

theorem isSome_str?_of_reread {style : Style} (hstr : a.str?.isSome = true)
    (h : reread? style a = .ok b) : b.str?.isSome = true := by
  cases a with
  | str s =>
    cases h
    rfl
  | _ => cases hstr

end Json

namespace Ids

variable {ids others : Ids} {a b : Json} {m n : Int}

/-! ### Ids that have an order -/

/-- Whether ids have an order, spelled out. -/
theorem sortable_iff : ids.sortable = true ↔ ids.length ≤ 1 ∨
    (∀ a ∈ ids, a.number?.isSome = true) ∨ ∀ a ∈ ids, a.str?.isSome = true := by
  unfold sortable
  rw [Bool.or_eq_true, Bool.or_eq_true, decide_eq_true_eq, List.all_eq_true, List.all_eq_true, or_assoc]

/-- Ids that have an order are all numbers if one of them is. -/
theorem isSome_number?_of_sortable (h : ids.sortable = true) (ha : ids.has a = true) (hb : ids.has b = true)
    (hnumber : a.number?.isSome = true) : b.number?.isSome = true := by
  obtain ⟨a', ha', hka⟩ := (has_iff _ _).1 ha
  obtain ⟨b', hb', hkb⟩ := (has_iff _ _).1 hb
  rw [← Json.isSome_number?_congr hka] at hnumber
  rw [← Json.isSome_number?_congr hkb]
  rcases sortable_iff.1 h with hlength | hnumbers | hstrs
  · cases ids with
    | nil => cases ha'
    | cons c rest =>
      obtain rfl : rest = [] := List.eq_nil_of_length_eq_zero (Nat.le_zero.1 (Nat.le_of_succ_le_succ hlength))
      rw [List.mem_singleton] at ha' hb'
      rwa [hb', ← ha']
  · exact hnumbers b' hb'
  · -- no text is a number
    have hstr := hstrs a' ha'
    cases a' with
    | str s => exact nomatch hnumber
    | _ => cases hstr

/-- Ids have an order if there are no more of them than of others that have one, and each is a number or a
text if one of the others is. -/
theorem sortable_of (h : ids.sortable = true) (hlength : others.length ≤ ids.length)
    (hkind : ∀ b ∈ others, ∃ a ∈ ids, (a.number?.isSome = true → b.number?.isSome = true) ∧
      (a.str?.isSome = true → b.str?.isSome = true)) : others.sortable = true := by
  rw [sortable_iff] at h ⊢
  rcases h with h | h | h
  · exact .inl (hlength.trans h)
  · refine .inr (.inl fun b hb => ?_)
    obtain ⟨a, ha, hnumber, -⟩ := hkind b hb
    exact hnumber (h a ha)
  · refine .inr (.inr fun b hb => ?_)
    obtain ⟨a, ha, -, hstr⟩ := hkind b hb
    exact hstr (h a ha)

/-- Ids that have an order have one when they are read back. -/
theorem sortable_of_reread {style : Json.Style} (h : ids.sortable = true)
    (hsimple : ∀ a ∈ ids, a.isCompound = false) (hread : ids.mapM (Json.reread? style) = .ok others) :
    others.sortable = true := by
  have hlength := congrArg List.length (map_eq_of_mapM (k := fun _ => ()) (g := fun _ => ()) hread
    fun _ _ _ _ => rfl)
  rw [List.length_map, List.length_map] at hlength
  refine sortable_of h hlength.le fun b hb => ?_
  obtain ⟨a, ha, hab⟩ := mem_of_mapM hread hb
  refine ⟨a, ha, fun hnumber => ?_, fun hstr => Json.isSome_str?_of_reread hstr hab⟩
  rw [Json.isSome_number?_of_reread (hsimple a ha) hab, hnumber]

/-! ### Integers in order -/

theorem le_of_int? (ha : a.int? = some m) (hb : b.int? = some n) : le a b = true ↔ m ≤ n := by
  have hle : le a b = le (.int m) (.int n) := by
    cases a <;> cases ha <;> cases b <;> cases hb <;> rfl
  rw [hle, le_int]

theorem key_of_int? (ha : a.int? = some m) : a.key = .whole m := by
  cases a <;> cases ha <;> rfl

theorem isChain_sorted (h : ∀ a ∈ ids, a.isCompound = false) :
    ids.sorted.IsChain fun a b => le a b = true :=
  Sorting.isChain_sort fun a ha b hb => Json.le_total (h a ha) (h b hb)

theorem sorted_sorted (h : ∀ a ∈ ids, a.isCompound = false) : ids.sorted.sorted = ids.sorted :=
  Sorting.sort_eq_self (isChain_sorted h)

theorem pairwise_sorted (h : ∀ a ∈ ids, a.isInt = true) : ids.sorted.Pairwise fun a b => le a b = true := by
  have hints : ∀ a ∈ ids.sorted, a.isInt = true := fun a ha => h a (mem_sorted.1 ha)
  have hvalues : ids.sorted.IsChain fun a b => a.int?.getD 0 ≤ b.int?.getD 0 := by
    have hchain := isChain_sorted fun a ha => Json.isCompound_of_isInt (h a ha)
    refine hchain.imp_of_mem_imp fun {a b} ha hb hle => ?_
    obtain ⟨m, hm⟩ := Option.isSome_iff_exists.1 (hints a ha)
    obtain ⟨n, hn⟩ := Option.isSome_iff_exists.1 (hints b hb)
    rw [hm, hn]
    exact (le_of_int? hm hn).1 hle
  have htrans : IsTrans Json fun a b => a.int?.getD 0 ≤ b.int?.getD 0 := ⟨fun _ _ _ => Int.le_trans⟩
  refine (List.isChain_iff_pairwise.1 hvalues).imp_of_mem fun {a b} ha hb hle => ?_
  obtain ⟨m, hm⟩ := Option.isSome_iff_exists.1 (hints a ha)
  obtain ⟨n, hn⟩ := Option.isSome_iff_exists.1 (hints b hb)
  rw [hm, hn] at hle
  exact (le_of_int? hm hn).2 hle

/-- **Different integers in increasing order** do not depend on the order in which they come. -/
theorem sorted_congr (hperm : ids.Perm others) (hints : ∀ a ∈ ids, a.isInt = true) (honce : ids.keys.Nodup) :
    ids.sorted = others.sorted := by
  have hints' : ∀ a ∈ others, a.isInt = true := fun a ha => hints a (hperm.mem_iff.2 ha)
  refine List.Perm.eq_of_pairwise (fun a b ha hb hab hba => ?_) (pairwise_sorted hints) (pairwise_sorted hints')
    (((Sorting.sort_perm _ ids).trans hperm).trans (Sorting.sort_perm _ others).symm)
  have ha := mem_sorted.1 ha
  have hb := hperm.mem_iff.2 (mem_sorted.1 hb)
  obtain ⟨m, hm⟩ := Option.isSome_iff_exists.1 (hints a ha)
  obtain ⟨n, hn⟩ := Option.isSome_iff_exists.1 (hints b hb)
  rw [le_of_int? hm hn] at hab
  rw [le_of_int? hn hm] at hba
  refine List.inj_on_of_nodup_map honce ha hb ?_
  rw [key_of_int? hm, key_of_int? hn, Int.le_antisymm hab hba]

end Ids
end CardTransfer
