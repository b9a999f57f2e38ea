import CardTransfer.Decimal.Shortest
import CardTransfer.Proofs.Decimal.Nearest

/-!
# The shortest decimal of a double lies in its interval

The digits that are written for a double are a decimal in the interval of the numbers that round to it
(`near_shortestOf`). They are the first candidate, of `n = 1, 2, …` digits, that lies inside.

* A candidate is one of the two neighbours of the number on a grid of width `10 ^ (k - n)`, where `k`
  is its magnitude (`candidate_spec`, `magnitudeFrom_spec`). If none is found, then both neighbours are
  outside.
* With 17 digits the grid is finer than the interval is wide, and one of the neighbours is inside
  (`exists_between`). So a candidate is always found.

All of this is computed over one denominator, as whole numbers (`within_iff`, `belowPower_iff`).
-/

namespace CardTransfer
namespace Decimal

/-- Between two ends, which count if the interval is closed. -/
def Between (low high : ℚ) (closed : Bool) (v : ℚ) : Prop :=
  if closed then low ≤ v ∧ v ≤ high else low < v ∧ v < high

/-- The same over one denominator, as it is computed. -/
def within (low high : Nat) (closed : Bool) (v : Nat) : Bool :=
  if closed then low ≤ v && v ≤ high else low < v && v < high

variable {num den low high : Nat} {closed : Bool} {k : Int} {n : Nat}

theorem within_iff {up unit : Nat} {g : ℚ} (hden : 0 < den) (hup : 0 < up)
    (hunit : (unit : ℚ) = den * up * g) (d : Nat) :
    within (low * up) (high * up) closed (d * unit) = true ↔
      Between (low / den) (high / den) closed (d * g) := by
  have hdenq : (0 : ℚ) < den := by exact_mod_cast hden
  have hupq : (0 : ℚ) < up := by exact_mod_cast hup
  have hvalue : ((d * unit : Nat) : ℚ) = d * g * den * up := by
    rw [Nat.cast_mul, hunit]
    ring
  have hle₁ : low * up ≤ d * unit ↔ (low : ℚ) / den ≤ d * g := by
    rw [← Nat.cast_le (α := ℚ), hvalue, Nat.cast_mul, mul_le_mul_iff_left₀ hupq, div_le_iff₀ hdenq]
  have hle₂ : d * unit ≤ high * up ↔ (d : ℚ) * g ≤ high / den := by
    rw [← Nat.cast_le (α := ℚ), hvalue, Nat.cast_mul, mul_le_mul_iff_left₀ hupq, le_div_iff₀ hdenq]
  have hlt₁ : low * up < d * unit ↔ (low : ℚ) / den < d * g := by
    rw [← Nat.cast_lt (α := ℚ), hvalue, Nat.cast_mul, mul_lt_mul_iff_left₀ hupq, div_lt_iff₀ hdenq]
  have hlt₂ : d * unit < high * up ↔ (d : ℚ) * g < high / den := by
    rw [← Nat.cast_lt (α := ℚ), hvalue, Nat.cast_mul, mul_lt_mul_iff_left₀ hupq, lt_div_iff₀ hdenq]
  unfold within Between
  cases closed
  · simp [hlt₁, hlt₂]
  · simp [hle₁, hle₂]

/-- The grid point that is picked of the two around a number, by whether they are inside and which is
nearer. -/
def pick (d : Nat) (e : Int) (below above nearer : Bool) : Option Scaled :=
  match below, above with
  | true, true => if nearer then some ⟨d, e⟩ else some ⟨d + 1, e⟩
  | true, false => some ⟨d, e⟩
  | false, true => some ⟨d + 1, e⟩
  | false, false => none

theorem pick_eq_some {d : Nat} {e : Int} {below above nearer : Bool} {s : Scaled}
    (h : pick d e below above nearer = some s) :
    s = ⟨d, e⟩ ∧ below = true ∨ s = ⟨d + 1, e⟩ ∧ above = true := by
  cases below <;> cases above <;> cases nearer <;> cases h
  all_goals first | exact .inl ⟨rfl, rfl⟩ | exact .inr ⟨rfl, rfl⟩

theorem pick_eq_none {d : Nat} {e : Int} {below above nearer : Bool}
    (h : pick d e below above nearer = none) : below = false ∧ above = false := by
  cases below <;> cases above <;> cases nearer <;> cases h <;> exact ⟨rfl, rfl⟩

/-- A candidate is picked from the steps of the grid, as whole numbers over the denominator. -/
theorem exists_pick (den num low high : Nat) (closed : Bool) (k : Int) (n : Nat) :
    ∃ (up unit : Nat) (nearer : Bool), 0 < up ∧ (unit : ℚ) = den * up * 10 ^ (k - n) ∧
      candidate num den low high closed k n =
        pick (num * up / unit) (k - n) (within (low * up) (high * up) closed (num * up / unit * unit))
          (within (low * up) (high * up) closed ((num * up / unit + 1) * unit)) nearer := by
  refine ⟨if k - n ≥ 0 then 1 else Nat.pow 10 (-(k - n)).toNat,
    if k - n ≥ 0 then den * Nat.pow 10 (k - n).toNat else den, _, ?_, ?_, rfl⟩
  · split
    · exact Nat.one_pos
    · exact Nat.pow_pos (by decide)
  · split
    · rename_i h
      obtain ⟨j, hj⟩ := Int.eq_ofNat_of_zero_le h
      rw [hj, Int.toNat_natCast, zpow_natCast, Nat.cast_one, mul_one]
      exact_mod_cast rfl
    · rename_i h
      obtain ⟨j, hj⟩ := Int.eq_ofNat_of_zero_le (by omega : 0 ≤ -(k - n))
      have hpow : ((Nat.pow 10 j : Nat) : ℚ) = 10 ^ j := by exact_mod_cast rfl
      rw [hj, show k - n = -(j : Int) by omega, Int.toNat_natCast, zpow_neg, zpow_natCast, hpow,
        mul_assoc, mul_inv_cancel₀ (by positivity), mul_one]

/-- A number lies between two steps of a grid. -/
theorem grid_bounds {up unit : Nat} {g : ℚ} (hden : 0 < den) (hup : 0 < up) (hg : 0 < g)
    (hunit : (unit : ℚ) = den * up * g) (num : Nat) :
    ((num * up / unit : Nat) : ℚ) * g ≤ num / den ∧
      (num : ℚ) / den < (num * up / unit + 1 : Nat) * g := by
  have hdenq : (0 : ℚ) < den := by exact_mod_cast hden
  have hupq : (0 : ℚ) < up := by exact_mod_cast hup
  have hpos : 0 < unit := by
    have : (0 : ℚ) < unit := by rw [hunit]; positivity
    exact_mod_cast this
  generalize hd : num * up / unit = d
  constructor
  · have hle : ((d * unit : Nat) : ℚ) ≤ (num * up : Nat) := by
      rw [← hd]
      exact_mod_cast Nat.div_mul_le_self ..
    rw [Nat.cast_mul, hunit, Nat.cast_mul] at hle
    rw [le_div_iff₀ hdenq]
    refine le_of_mul_le_mul_right ?_ hupq
    linarith
  · have hlt : ((num * up : Nat) : ℚ) < ((d + 1) * unit : Nat) := by
      rw [← hd, Nat.mul_comm _ unit]
      exact_mod_cast Nat.lt_mul_div_succ (num * up) hpos
    rw [Nat.cast_mul, Nat.cast_mul, hunit] at hlt
    rw [div_lt_iff₀ hdenq]
    refine lt_of_mul_lt_mul_right ?_ hupq.le
    linarith

/-- What a candidate is: a grid point next to the number that lies inside; there is none only if
both grid points around the number lie outside. -/
theorem candidate_spec (num low high : Nat) (hden : 0 < den) (closed : Bool) (k : Int) (n : Nat) :
    (∀ s, candidate num den low high closed k n = some s → s.exponent = k - n ∧
      Between (low / den) (high / den) closed (s.digits * 10 ^ (k - n))) ∧
    (candidate num den low high closed k n = none → ∃ d : Nat,
      (d : ℚ) * 10 ^ (k - n) ≤ num / den ∧ (num : ℚ) / den < (d + 1 : Nat) * 10 ^ (k - n) ∧
        ¬Between (low / den) (high / den) closed (d * 10 ^ (k - n)) ∧
        ¬Between (low / den) (high / den) closed ((d + 1 : Nat) * 10 ^ (k - n))) := by
  obtain ⟨up, unit, nearer, hup, hunit, hcandidate⟩ := exists_pick den num low high closed k n
  have hin (c : Nat) : within (low * up) (high * up) closed (c * unit) = true ↔
      Between (low / den) (high / den) closed (c * 10 ^ (k - n)) := within_iff hden hup hunit c
  rw [hcandidate]
  constructor
  · intro s hs
    rcases pick_eq_some hs with ⟨rfl, hbelow⟩ | ⟨rfl, habove⟩
    · exact ⟨rfl, (hin _).1 hbelow⟩
    · exact ⟨rfl, (hin _).1 habove⟩
  · intro hnone
    obtain ⟨hbelow, habove⟩ := pick_eq_none hnone
    obtain ⟨hle, hlt⟩ := grid_bounds hden hup (ten_zpow_pos (k - n)) hunit num
    refine ⟨num * up / unit, hle, hlt, ?_, ?_⟩
    · rw [← hin, hbelow]
      exact Bool.false_ne_true
    · rw [← hin, habove]
      exact Bool.false_ne_true

/-- `num / den` lies below a power of ten. -/
theorem belowPower_iff (num : Nat) (hden : 0 < den) (k : Int) :
    belowPower num den k = true ↔ (num : ℚ) / den < 10 ^ k := by
  have hdenq : (0 : ℚ) < den := by exact_mod_cast hden
  unfold belowPower
  rw [div_lt_iff₀ hdenq]
  split
  · rename_i h
    obtain ⟨j, rfl⟩ := Int.eq_ofNat_of_zero_le h
    rw [decide_eq_true_eq, Int.toNat_natCast, zpow_natCast, mul_comm]
    exact_mod_cast Iff.rfl
  · rename_i h
    obtain ⟨j, hj⟩ := Int.eq_ofNat_of_zero_le (by omega : 0 ≤ -k)
    have hpow : (0 : ℚ) < 10 ^ j := by positivity
    rw [decide_eq_true_eq, hj, show k = -(j : Int) by omega, Int.toNat_natCast, zpow_neg,
      zpow_natCast, ← div_eq_inv_mul, lt_div_iff₀ hpow]
    exact_mod_cast Iff.rfl

/-- The magnitude of a number is found where it is searched for. -/
theorem magnitudeFrom_spec (num : Nat) (hden : 0 < den) (steps : Nat) (k : Int)
    (low : (10 : ℚ) ^ (k - 1) ≤ num / den) (high : (num : ℚ) / den < 10 ^ (k + steps)) :
    10 ^ (magnitudeFrom num den steps k - 1) ≤ (num : ℚ) / den ∧
      (num : ℚ) / den < 10 ^ magnitudeFrom num den steps k := by
  induction steps generalizing k with
  | zero =>
    rw [Nat.cast_zero, add_zero] at high
    exact ⟨low, high⟩
  | succ steps ih =>
    unfold magnitudeFrom
    split
    · rename_i h
      exact ⟨low, (belowPower_iff num hden k).1 h⟩
    · rename_i h
      rw [belowPower_iff num hden, not_lt] at h
      refine ih (k + 1) ?_ ?_
      · rwa [add_sub_cancel_right]
      · rwa [add_assoc, add_comm 1, ← Nat.cast_succ]

/-- A closed interval for even mantissas, an open one for odd ones. -/
theorem near_iff_between {m : Nat} {e : Int} {v : ℚ} :
    Near m e v ↔
      Between ((m - reach m e) * 2 ^ e) ((m + 1 / 2) * 2 ^ e) (m % 2 == 0) v := by
  unfold Between
  rcases Nat.mod_two_eq_zero_or_one m with h | h
  · simp only [h, beq_self_eq_true, ↓reduceIte]
    exact ⟨fun hn => ⟨hn.low, hn.high⟩, fun ⟨hl, hh⟩ => ⟨hl, hh, fun h1 => by omega⟩⟩
  · rw [h, if_neg (by decide)]
    exact ⟨fun hn => hn.inside h, fun ⟨hl, hh⟩ => ⟨hl.le, hh.le, fun _ => ⟨hl, hh⟩⟩⟩

/-- Two neighbours on a fine grid are not both outside. -/
theorem exists_between {low high v g : ℚ} {closed : Bool} {d : Nat} (hlow : low < v)
    (hhigh : v < high) (hbelow : d * g ≤ v) (habove : v < (d + 1 : Nat) * g) (fine : g < high - low) :
    Between low high closed (d * g) ∨ Between low high closed ((d + 1 : Nat) * g) := by
  by_contra h
  rw [not_or] at h
  obtain ⟨h₁, h₂⟩ := h
  rw [Nat.cast_succ] at habove h₂
  have hd : (d : ℚ) * g ≤ low := by
    by_contra hd
    refine h₁ ?_
    unfold Between
    split
    · exact ⟨by linarith, by linarith⟩
    · exact ⟨by linarith, by linarith⟩
  have hd' : high ≤ ((d : ℚ) + 1) * g := by
    by_contra hd'
    refine h₂ ?_
    unfold Between
    split
    · exact ⟨by linarith, by linarith⟩
    · exact ⟨by linarith, by linarith⟩
  linarith

/-- The shortest decimal is a candidate with at most 17 digits, if there is one. The number and the
ends of its interval are given over one denominator. -/
theorem exists_shortestOf {m : Nat} {e : Int} (hm : 0 < m) : ∃ num den low high : Nat, 0 < den ∧
    (num : ℚ) / den = m * 2 ^ e ∧ (low : ℚ) / den = (m - reach m e) * 2 ^ e ∧
      (high : ℚ) / den = (m + 1 / 2) * 2 ^ e ∧ shortestOf m e =
        match (List.range 17).findSome? fun n =>
          candidate num den low high (m % 2 == 0) (magnitudeFrom num den 700 (-330)) (n + 1) with
        | some s => s
        | none => ⟨m, 0⟩ := by
  have hfour : (2 : ℚ) ^ e = 4 * 2 ^ (e - 2) := by
    rw [zpow_sub₀ (by norm_num)]
    norm_num
    ring
  obtain ⟨scale, den, hden, hscale, hshortest⟩ : ∃ scale den : Nat, 0 < den ∧
      (scale : ℚ) / den = 2 ^ (e - 2) ∧ shortestOf m e =
        match (List.range 17).findSome? fun n => candidate (4 * m * scale) den
            ((4 * m - if (m == Nat.pow 2 52 && decide (e > -1074)) = true then 1 else 2) * scale)
            ((4 * m + 2) * scale) (m % 2 == 0) (magnitudeFrom (4 * m * scale) den 700 (-330))
            (n + 1) with
        | some s => s
        | none => ⟨m, 0⟩ := by
    refine ⟨if e ≥ 2 then Nat.pow 2 (e - 2).toNat else 1,
      if e ≥ 2 then 1 else Nat.pow 2 (2 - e).toNat, ?_, ?_, rfl⟩
    · split
      · exact Nat.one_pos
      · exact Nat.pow_pos (by decide)
    · have hcast (j : Nat) : ((Nat.pow 2 j : Nat) : ℚ) = 2 ^ j := Nat.cast_pow 2 j
      split
      · rename_i h
        obtain ⟨j, hj⟩ := Int.eq_ofNat_of_zero_le (by omega : 0 ≤ e - 2)
        rw [hj, Int.toNat_natCast, hcast, Nat.cast_one, div_one, zpow_natCast]
      · rename_i h
        obtain ⟨j, hj⟩ := Int.eq_ofNat_of_zero_le (by omega : 0 ≤ 2 - e)
        rw [show e - 2 = -(j : Int) by omega, hj, Int.toNat_natCast, hcast, Nat.cast_one, zpow_neg,
          zpow_natCast, one_div]
  have hover (q : Nat) : ((q * scale : Nat) : ℚ) / den = q / 4 * 2 ^ e := by
    rw [Nat.cast_mul, mul_div_assoc, hscale, hfour]
    ring
  refine ⟨_, den, _, _, hden, ?_, ?_, ?_, hshortest⟩
  · rw [hover]
    push_cast
    ring
  · rw [hover]
    congr 1
    have hnarrow : (m == Nat.pow 2 52 && decide (e > -1074)) = true ↔ m = 2 ^ 52 ∧ -1074 < e := by
      simp
    unfold reach
    by_cases h : m = 2 ^ 52 ∧ -1074 < e
    · rw [if_pos h, if_pos (hnarrow.2 h), Nat.cast_sub (by omega)]
      push_cast
      ring
    · rw [if_neg h, if_neg (hnarrow.not.2 h), Nat.cast_sub (by omega)]
      push_cast
      ring
  · rw [hover]
    push_cast
    ring

/-- The search for the magnitude starts below every double. -/
theorem least_le {m : Nat} {e : Int} (hc : Canonical m e) :
    (10 : ℚ) ^ (-330 - 1 : Int) ≤ m * 2 ^ e := by
  have hm : (1 : ℚ) ≤ m := by exact_mod_cast hc.pos
  have hten : (2 : ℚ) ^ (1074 : Int) ≤ 10 ^ (331 : Int) := by
    calc (2 : ℚ) ^ (1074 : Int) = (2 ^ 13) ^ 82 * 2 ^ 8 := by rw [← pow_mul, ← pow_add]; rfl
      _ ≤ (10 ^ 4) ^ 82 * 10 ^ 3 :=
        mul_le_mul (pow_le_pow_left₀ (by norm_num) (by norm_num) 82) (by norm_num) (by positivity)
          (by positivity)
      _ = 10 ^ (331 : Int) := by rw [← pow_mul, ← pow_add]; rfl
  calc (10 : ℚ) ^ (-330 - 1 : Int) = (10 ^ (331 : Int))⁻¹ := by rw [← zpow_neg]; rfl
    _ ≤ (2 ^ (1074 : Int))⁻¹ := inv_anti₀ (two_zpow_pos _) hten
    _ = 2 ^ (-1074 : Int) := (zpow_neg ..).symm
    _ ≤ 2 ^ e := zpow_le_zpow_right₀ (by norm_num) hc.least
    _ ≤ m * 2 ^ e := le_mul_of_one_le_left (two_zpow_pos e).le hm

/-- **The shortest decimal lies in the interval of its double.** -/
theorem near_shortestOf {m : Nat} {e : Int} (hc : Canonical m e) :
    Near m e ((shortestOf m e).digits * 10 ^ (shortestOf m e).exponent) := by
  have hpos := two_zpow_pos e
  obtain ⟨num, den, low, high, hden, hnum, hlow, hhigh, hshortest⟩ :=
    exists_shortestOf (e := e) hc.pos
  obtain ⟨k, hk⟩ : ∃ k, k = magnitudeFrom num den 700 (-330) := ⟨_, rfl⟩
  rw [← hk] at hshortest
  rw [near_iff_between, ← hlow, ← hhigh, hshortest]
  split
  · rename_i s hs
    obtain ⟨n, -, hn⟩ := List.exists_of_findSome?_eq_some hs
    obtain ⟨hexp, hin⟩ := (candidate_spec num low high hden _ k (n + 1)).1 s hn
    rwa [hexp]
  · rename_i hs
    rw [List.findSome?_eq_none_iff] at hs
    obtain ⟨d, hbelow, habove, hout, hout'⟩ :=
      (candidate_spec num low high hden _ k 17).2 (hs 16 (by decide))
    have hm : (m : ℚ) + 1 ≤ 2 ^ 53 := by exact_mod_cast hc.lt
    have hreach := reach_pos m e
    obtain ⟨hmag, -⟩ := magnitudeFrom_spec num hden 700 (-330) (hnum ▸ least_le hc)
      (hnum ▸ (near_bounds hc (near_self m e)).2)
    rw [← hk, hnum] at hmag
    -- 17 digits reach further than the interval is wide
    have fine : (10 : ℚ) ^ (k - 17) < high / den - low / den := by
      have hstep : (10 : ℚ) ^ (k - 1) = 10 ^ 16 * 10 ^ (k - 17) := by
        rw [← zpow_natCast, ← zpow_add₀ (by norm_num)]
        congr 1
        omega
      rw [hstep] at hmag
      have hwide : (m : ℚ) < 10 ^ 16 * (1 / 2 + reach m e) := by
        unfold reach
        split
        · rename_i h
          rw [h.1]
          norm_num
        · linarith
      rw [hlow, hhigh]
      nlinarith
    refine absurd (exists_between ?_ ?_ hbelow habove fine) (not_or.2 ⟨hout, hout'⟩)
    · rw [hlow, hnum]
      exact mul_lt_mul_of_pos_right (by linarith) hpos
    · rw [hhigh, hnum]
      exact mul_lt_mul_of_pos_right (by linarith) hpos

end Decimal
end CardTransfer
