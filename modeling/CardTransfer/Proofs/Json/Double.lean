import CardTransfer.Proofs.Decimal.Interval
import CardTransfer.Proofs.Json.RoundTrip

/-!
# Doubles read back

**A written double is read as the same double** (`rereadFloat_eq_self`), whatever its bits. The
argument has three parts, and this module puts them together.

* The digits that are written are a decimal in the interval of the double (`near_shortestOf`).
* However they are laid out – with or without an exponent, zeros in front or behind – the reader
  takes them for a whole number and a power of ten that make up the same decimal
  (`readsDecimal_place`).
* The nearest double to a decimal is the one in whose interval it lies (`nearest_eq`).
-/

namespace CardTransfer
namespace Json

open Decimal (Leading Layout Scaled Spelling)

/-- A digit row without the zeros at its end, and how many those are. -/
theorem eq_kept_append_zeros (ds : List Char) :
    ds = (ds.reverse.dropWhile (· == '0')).reverse ++
      List.replicate (ds.length - (ds.reverse.dropWhile (· == '0')).reverse.length) '0' := by
  have hsplit : ds = (ds.reverse.dropWhile (· == '0')).reverse ++
      (ds.reverse.takeWhile (· == '0')).reverse := by
    rw [← List.reverse_append, List.takeWhile_append_dropWhile, List.reverse_reverse]
  have hzeros : (ds.reverse.takeWhile (· == '0')).reverse = List.replicate
      (ds.reverse.takeWhile (· == '0')).reverse.length '0' := by
    rw [List.eq_replicate_iff]
    refine ⟨rfl, fun c hc => ?_⟩
    have := List.mem_takeWhile_imp (List.mem_reverse.1 hc)
    exact beq_iff_eq.1 this
  have hlen := congrArg List.length hsplit
  rw [List.length_append] at hlen
  conv_lhs => rw [hsplit, hzeros]
  congr 2
  omega

/-- Zeros that are not written count as powers of ten. -/
theorem value_normal (s : Scaled) :
    (Text.digitsValue s.normal.1 : ℚ) * 10 ^ s.normal.2 = s.digits * 10 ^ s.exponent := by
  have hdigits := congrArg Text.digitsValue (eq_kept_append_zeros (Nat.toDigits 10 s.digits))
  rw [Text.digitsValue_toDigits, Text.digitsValue_append_zeros] at hdigits
  unfold Scaled.normal
  simp only [Int.ofNat_eq_natCast]
  rw [zpow_add₀ (by norm_num), zpow_natCast]
  conv_rhs => rw [hdigits]
  push_cast
  ring

/-- A text is read as a decimal: as a whole number and a power of ten that make it up. -/
def ReadsDecimal (text : String) (q : ℚ) : Prop :=
  ∃ (m : Nat) (e : Int), (m : ℚ) * 10 ^ e = q ∧ ∀ negative rest, Ends rest →
    readNumber negative (text.toList ++ rest) = .ok (float (Decimal.nearest negative m e), rest)

section Layouts

variable {ds : List Char} {p : Int}

theorem isDigit_of_mem_zeros {n : Nat} {c : Char} (hc : c ∈ List.replicate n '0') : c.isDigit = true := by
  rw [(List.mem_replicate.1 hc).2]
  rfl

/-- A zero, a point, zeros and the digits. -/
theorem readsDecimal_below (h : Leading ds) (hp : p < 0) :
    ReadsDecimal ("0." ++ String.ofList (List.replicate (-p - 1).toNat '0' ++ ds))
      (Text.digitsValue ds * 10 ^ (p + 1 - ds.length)) := by
  refine ⟨Text.digitsValue (['0'] ++ (List.replicate (-p - 1).toNat '0' ++ ds)),
    -Int.ofNat (List.replicate (-p - 1).toNat '0' ++ ds).length, ?_, fun negative rest hr => ?_⟩
  · rw [← List.append_assoc, show ['0'] ++ List.replicate (-p - 1).toNat '0' =
      List.replicate ((-p - 1).toNat + 1) '0' from rfl, Text.digitsValue_zeros_append]
    congr 2
    rw [List.length_append, List.length_replicate, Int.ofNat_eq_natCast]
    omega
  · simp only [String.toList_append, String.toList_ofList]
    show readNumber negative (['0'] ++ '.' :: (List.replicate (-p - 1).toNat '0' ++ ds) ++ rest) = _
    refine readNumber_fraction negative (.inl rfl) (fun c hc => ?_) ?_ hr
    · exact (List.mem_append.1 hc).elim isDigit_of_mem_zeros (h.digits c)
    · exact List.append_ne_nil_of_right_ne_nil _ h.ne_nil

/-- The digits, zeros, a point and a zero. -/
theorem readsDecimal_whole (h : Leading ds) (hp : 0 ≤ p) (hlen : ds.length ≤ p.toNat + 1) :
    ReadsDecimal (String.ofList (ds ++ List.replicate (p.toNat + 1 - ds.length) '0') ++ ".0")
      (Text.digitsValue ds * 10 ^ (p + 1 - ds.length)) := by
  refine ⟨Text.digitsValue (ds ++ List.replicate (p.toNat + 1 - ds.length) '0' ++ ['0']), -1, ?_,
    fun negative rest hr => ?_⟩
  · obtain ⟨j, hj⟩ : ∃ j : Nat, (j : Int) = p + 1 - ds.length := ⟨p.toNat + 1 - ds.length, by omega⟩
    rw [show ['0'] = List.replicate 1 '0' from rfl, Text.digitsValue_append_zeros,
      Text.digitsValue_append_zeros, show p.toNat + 1 - ds.length = j by omega, ← hj, zpow_natCast,
      zpow_neg_one]
    push_cast
    ring
  · rw [String.toList_append, String.toList_ofList]
    exact readNumber_fraction negative (.inr (h.append fun _ => isDigit_of_mem_zeros))
      (List.all_eq_true.1 (by decide : ['0'].all Char.isDigit = true)) (List.cons_ne_nil _ _) hr

/-- Digits on both sides of the point. -/
theorem readsDecimal_between (h : Leading ds) (hp : 0 ≤ p) (hmore : p.toNat + 1 < ds.length) :
    ReadsDecimal (String.ofList (ds.take (p.toNat + 1)) ++ "." ++ String.ofList (ds.drop (p.toNat + 1)))
      (Text.digitsValue ds * 10 ^ (p + 1 - ds.length)) := by
  refine ⟨Text.digitsValue (ds.take (p.toNat + 1) ++ ds.drop (p.toNat + 1)),
    -Int.ofNat (ds.drop (p.toNat + 1)).length, ?_, fun negative rest hr => ?_⟩
  · rw [List.take_append_drop]
    congr 2
    rw [List.length_drop, Int.ofNat_eq_natCast]
    omega
  · simp only [String.toList_append, String.toList_ofList, List.append_assoc]
    show readNumber negative (ds.take (p.toNat + 1) ++ '.' :: (ds.drop (p.toNat + 1) ++ rest)) = _
    rw [← List.cons_append, ← List.append_assoc]
    refine readNumber_fraction negative (.inr (h.take (Nat.succ_pos _)))
      (fun c hc => h.digits c (List.mem_of_mem_drop hc)) ?_ hr
    rw [Ne, List.drop_eq_nil_iff]
    exact Nat.not_le.2 hmore

/-- One digit, a point and the other digits if there are any, and an exponent. -/
theorem readsDecimal_power (h : Leading ds) (p : Int) (width : Nat) :
    ReadsDecimal (String.ofList (ds.take 1) ++
        (if (ds.drop 1).isEmpty then "" else "." ++ String.ofList (ds.drop 1)) ++ Decimal.exponentText width p)
      (Text.digitsValue ds * 10 ^ (p + 1 - ds.length)) := by
  have hlen := List.length_pos_of_ne_nil h.ne_nil
  split
  · rename_i htail
    rw [List.isEmpty_iff, List.drop_eq_nil_iff] at htail
    refine ⟨Text.digitsValue (ds.take 1), p, ?_, fun negative rest hr => ?_⟩
    · rw [List.take_of_length_le htail]
      congr 2
      omega
    · rw [String.append_empty, String.toList_append, String.toList_ofList]
      exact readNumber_power negative (.inr (h.take Nat.one_pos)) _ _ hr
  · rename_i htail
    rw [List.isEmpty_iff] at htail
    refine ⟨Text.digitsValue (ds.take 1 ++ ds.drop 1), p - Int.ofNat (ds.drop 1).length, ?_,
      fun negative rest hr => ?_⟩
    · rw [List.take_append_drop]
      congr 2
      rw [List.length_drop, Int.ofNat_eq_natCast]
      omega
    · simp only [String.toList_append, String.toList_ofList]
      exact readNumber_both negative (.inr (h.take Nat.one_pos))
        (fun c hc => h.digits c (List.mem_of_mem_drop hc)) htail _ _ hr

/-- However digits are laid out, what is read makes up the same decimal. -/
theorem readsDecimal_place {l : Layout} (hmark : l.wholeMark = ".0") (h : Leading ds) (p : Int) :
    ReadsDecimal (l.place ds p) (Text.digitsValue ds * 10 ^ (p + 1 - ds.length)) := by
  unfold Layout.place
  split
  · split
    · rename_i hp
      exact readsDecimal_below h hp
    · rename_i hp
      simp only
      split
      · rename_i hlen
        rw [hmark]
        exact readsDecimal_whole h (Int.not_lt.1 hp) hlen
      · rename_i hlen
        exact readsDecimal_between h (Int.not_lt.1 hp) (Nat.not_le.1 hlen)
  · exact readsDecimal_power h p l.exponentWidth

end Layouts

/-- The digits of a finite double other than zero are read as the double, with its sign. -/
theorem readNumber_write {l : Layout} (hmark : l.wholeMark = ".0") (negative : Bool) {m : Nat}
    {e : Int} (hc : Decimal.Canonical m e) {rest : List Char} (hr : Ends rest) :
    readNumber negative ((l.place (Decimal.shortestOf m e).normal.1
        ((Decimal.shortestOf m e).normal.2 + Int.ofNat (Decimal.shortestOf m e).normal.1.length - 1)
      ).toList ++ rest) = .ok (float (Decimal.ofParts negative hc), rest) := by
  have hdigits := Decimal.digits_shortestOf hc.pos e
  obtain ⟨n, k, hvalue, hread⟩ := readsDecimal_place hmark (Decimal.leading_normal hdigits)
    ((Decimal.shortestOf m e).normal.2 + Int.ofNat (Decimal.shortestOf m e).normal.1.length - 1)
  rw [Int.ofNat_eq_natCast, sub_add_cancel, add_sub_cancel_right, value_normal] at hvalue
  have hn : 0 < n := by
    have hpos : (0 : ℚ) < n * 10 ^ k := by
      rw [hvalue]
      exact mul_pos (by exact_mod_cast hdigits) (Decimal.ten_zpow_pos _)
    have := pos_of_mul_pos_left hpos (Decimal.ten_zpow_pos k).le
    exact_mod_cast this
  rw [hread negative rest hr,
    Decimal.nearest_eq negative hn hc (hvalue ▸ Decimal.near_shortestOf hc)]

/-- A sign in front of a spelling is read as the sign of the number. -/
theorem readScalar_signed {t : String} (ht : Spelling t.toList) {negative : Bool} {x : Float}
    (h : readNumber negative t.toList = .ok (float x, [])) :
    readScalar ((if negative then "-" else "") ++ t).toList = .ok (float x, []) := by
  obtain ⟨d, tail, htext, hd⟩ := exists_cons_of_spelling ht
  rw [htext] at h
  rw [String.toList_append, htext]
  cases negative
  · exact (readScalar_of_isDigit hd tail).trans h
  · refine (readScalar_of_minus hd tail).trans ?_
    rw [h]

/-- **A written double is read as the same double.** -/
theorem rereadFloat_eq_self (x : Float) : rereadFloat x = x := by
  suffices h : readScalar (writtenFloat.write x).toList = .ok (float x, []) by
    unfold rereadFloat
    rw [h]
  unfold Layout.write
  cases h : Decimal.exact x with
  | notANumber =>
    rw [Decimal.eq_of_exact_notANumber h]
    rfl
  | infinite negative =>
    rw [Decimal.eq_of_exact_infinite h]
    cases negative <;> rfl
  | finite negative m e =>
    simp only
    rw [String.append_assoc]
    split
    · rename_i hm
      rw [beq_iff_eq] at hm
      subst hm
      rw [Decimal.eq_of_exact_zero h]
      have hzero : Spelling (['0'] ++ '.' :: ['0']) :=
        .fraction (.inl rfl) (List.all_eq_true.1 (by decide)) (List.cons_ne_nil _ _)
      refine readScalar_signed (t := "0" ++ writtenFloat.wholeMark) hzero ?_
      cases negative <;> rfl
    · rename_i hm
      obtain ⟨hc, hx⟩ := Decimal.eq_ofParts h (Nat.pos_of_ne_zero fun h0 => hm (by rw [h0]; rfl))
      rw [hx]
      refine readScalar_signed (Decimal.spelling_place (l := writtenFloat) rfl
        (Decimal.leading_normal (Decimal.digits_shortestOf hc.pos e)) _) ?_
      have hread := readNumber_write (l := writtenFloat) rfl negative hc ends_nil
      rwa [List.append_nil] at hread

end Json
end CardTransfer
