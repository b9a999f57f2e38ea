import CardTransfer.BackOff
import Mathlib.Tactic.Common

/-!
# Where steps lead

Steps *keep* a relation when they lead from each state only to states that are related to it, whether
they end in a fault or not. What holds of single steps holds of steps in a row if the relation is a
preorder, and so it holds of programs by the way they are put together. Steps *ensure* a property of
their results when an invariant of the states, which they keep, brings it about. Steps are *total* when
no state leads to a fault.
-/

namespace CardTransfer
namespace Steps

variable {σ α β : Type} {R R' : σ → σ → Prop}

/-- From every state, the steps lead only to states related to it. -/
def Keeps (R : σ → σ → Prop) (steps : Steps σ α) : Prop := ∀ s, R s (steps.run s).2

@[simp] theorem run_get (s : σ) : (get : Steps σ σ).run s = (.ok s, s) := rfl

@[simp] theorem run_set (s t : σ) : (set t : Steps σ PUnit).run s = (.ok ⟨⟩, t) := rfl

@[simp] theorem run_modify (f : σ → σ) (s : σ) :
    (modify f : Steps σ PUnit).run s = (.ok ⟨⟩, f s) := rfl

/-- Steps after a look at the state. -/
theorem run_get_bind (next : σ → Steps σ α) (s : σ) : (get >>= next).run s = (next s).run s :=
  run_bind ..

/-- Steps after a result. -/
theorem run_ofExcept_bind_ok {a : α} (next : α → Steps σ β) (s : σ) :
    (ofExcept (.ok a) >>= next).run s = (next a).run s :=
  run_bind ..

/-- A fault ends the steps. -/
theorem run_ofExcept_bind_error {f : Fault} (next : α → Steps σ β) (s : σ) :
    (ofExcept (.error f) >>= next).run s = (.error f, s) :=
  run_bind ..

/-- Steps after an outcome, which is never a fault. -/
theorem run_outcome_bind (steps : Steps σ α) (next : Except Fault α → Steps σ β) (s : σ) :
    (steps.outcome >>= next).run s = (next (steps.run s).1).run (steps.run s).2 :=
  run_bind ..

/-- Steps whose result is changed at the end. -/
theorem run_bind_pure (steps : Steps σ α) (g : α → β) (s : σ) :
    (steps >>= fun a => pure (g a)).run s = ((steps.run s).1.map g, (steps.run s).2) := by
  rw [run_bind]
  cases steps.run s with
  | mk r t => cases r <;> rfl

/-- What holds of steps in a row, however the first of them end. -/
theorem run_bind_of {motive : Except Fault β × σ → Prop} {steps : Steps σ α}
    {next : α → Steps σ β} {s : σ}
    (ok : ∀ a t, steps.run s = (.ok a, t) → motive ((next a).run t))
    (error : ∀ f t, steps.run s = (.error f, t) → motive (.error f, t)) :
    motive ((steps >>= next).run s) := by
  rw [run_bind]
  split
  · rename_i a t heq
    exact ok a t heq
  · rename_i f t heq
    exact error f t heq

/-- Steps that go on alike run alike. -/
theorem run_bind_congr {steps : Steps σ α} {next next' : α → Steps σ β} {s : σ}
    (h : ∀ a t, steps.run s = (.ok a, t) → (next a).run t = (next' a).run t) :
    (steps >>= next).run s = (steps >>= next').run s := by
  rw [run_bind, run_bind]
  split
  · rename_i a t heq
    exact h a t heq
  · rfl

/-- Steps in a row end well if all of them do. -/
theorem run_bind_eq_ok {steps : Steps σ α} {next : α → Steps σ β} {s t : σ} {b : β} :
    (steps >>= next).run s = (.ok b, t) ↔
      ∃ a u, steps.run s = (.ok a, u) ∧ (next a).run u = (.ok b, t) := by
  rw [run_bind]
  constructor
  · intro h
    split at h
    · rename_i a u heq
      exact ⟨a, u, heq, h⟩
    · cases h
  · rintro ⟨a, u, heq, h⟩
    rw [heq]
    exact h

theorem Keeps.imp {steps : Steps σ α} (h : Keeps R steps) (himp : ∀ s t, R s t → R' s t) :
    Keeps R' steps := fun s => himp _ _ (h s)

theorem Keeps.outcome {steps : Steps σ α} (h : Keeps R steps) : Keeps R steps.outcome := h

/-- Steps in a row. -/
theorem Keeps.bind [IsTrans σ R] {steps : Steps σ α} {next : α → Steps σ β} (h : Keeps R steps)
    (hnext : ∀ a, Keeps R (next a)) : Keeps R (steps >>= next) := by
  intro s
  have hs := h s
  rw [run_bind]
  split
  · rename_i a t heq
    rw [heq] at hs
    exact IsTrans.trans _ _ _ hs (hnext a t)
  · rename_i f t heq
    rw [heq] at hs
    exact hs

/-- Steps after a look at the state. -/
theorem keeps_get_bind {next : σ → Steps σ α} (h : ∀ s, R s ((next s).run s).2) :
    Keeps R (get >>= next) := by
  intro s
  rw [run_get_bind]
  exact h s

theorem keeps_modify {f : σ → σ} (h : ∀ s, R s (f s)) : Keeps R (modify f : Steps σ PUnit) := h

section

variable [Std.Refl R]

theorem keeps_pure (a : α) : Keeps R (pure a : Steps σ α) := fun s => refl s

theorem keeps_throw (f : Fault) : Keeps R (throw f : Steps σ α) := fun s => refl s

theorem keeps_ofExcept (r : Except Fault α) : Keeps R (ofExcept r : Steps σ α) :=
  fun s => refl s

theorem keeps_get : Keeps R (get : Steps σ σ) := fun s => refl s

end

/-- If the first state has the invariant `I`, then so has the second. -/
def Passes (I : σ → Prop) (s t : σ) : Prop := I s → I t

instance {I : σ → Prop} : Std.Refl (Passes I) := ⟨fun _ h => h⟩

instance {I : σ → Prop} : IsTrans σ (Passes I) := ⟨fun _ _ _ h₁ h₂ h => h₂ (h₁ h)⟩

/-- From states with the invariant `I`, the steps lead only to such states, and to results that `Q`
holds of. -/
def Ensures (I : σ → Prop) (Q : α → Prop) (steps : Steps σ α) : Prop :=
  ∀ s, I s → I (steps.run s).2 ∧ ∀ a, (steps.run s).1 = .ok a → Q a

section

variable {I : σ → Prop} {Q : α → Prop} {Q' : β → Prop} {steps : Steps σ α}

theorem ensures_pure {a : α} (h : Q a) : Ensures I Q (pure a) := by
  refine fun s hs => ⟨hs, ?_⟩
  rintro _ ⟨⟩
  exact h

theorem ensures_throw (f : Fault) : Ensures I Q (throw f) := fun _ hs => ⟨hs, fun _ h => nomatch h⟩

theorem ensures_ofExcept {r : Except Fault α} (h : ∀ a, r = .ok a → Q a) :
    Ensures I Q (ofExcept r) := fun _ hs => ⟨hs, h⟩

theorem ensures_get : Ensures I I (get : Steps σ σ) := by
  refine fun s hs => ⟨hs, ?_⟩
  rintro _ ⟨⟩
  exact hs

/-- Steps that keep the invariant ensure it. -/
theorem Keeps.ensures (h : Keeps (Passes I) steps) : Ensures I (fun _ => True) steps :=
  fun s hs => ⟨h s hs, fun _ _ => trivial⟩

theorem Ensures.keeps (h : Ensures I Q steps) : Keeps (Passes I) steps := fun s hs => (h s hs).1

theorem Ensures.outcome (h : Ensures I Q steps) :
    Ensures I (fun r => ∀ a, r = .ok a → Q a) steps.outcome := by
  refine fun s hs => ⟨(h s hs).1, ?_⟩
  rintro _ ⟨⟩
  exact (h s hs).2

/-- Steps in a row. -/
theorem Ensures.bind {next : α → Steps σ β} (h : Ensures I Q steps)
    (hnext : ∀ a, Q a → Ensures I Q' (next a)) : Ensures I Q' (steps >>= next) := by
  intro s hs
  obtain ⟨hI, hQ⟩ := h s hs
  rw [run_bind]
  split
  · rename_i a t heq
    rw [heq] at hI hQ
    exact hnext a (hQ a rfl) t hI
  · rename_i f t heq
    rw [heq] at hI
    exact ⟨hI, fun _ h => nomatch h⟩

end

/-- From no state, the steps end in a fault. -/
def Total (steps : Steps σ α) : Prop := ∀ s, ∃ a, (steps.run s).1 = .ok a

theorem total_pure (a : α) : Total (pure a : Steps σ α) := fun _ => ⟨a, rfl⟩

theorem total_outcome (steps : Steps σ α) : Total steps.outcome := fun s => ⟨(steps.run s).1, rfl⟩

theorem Total.bind {steps : Steps σ α} {next : α → Steps σ β} (h : Total steps)
    (hnext : ∀ a, Total (next a)) : Total (steps >>= next) := by
  intro s
  rw [run_bind]
  split
  · rename_i a t _
    exact hnext a t
  · rename_i f t heq
    obtain ⟨a, ha⟩ := h s
    rw [heq] at ha
    cases ha

end Steps

open Steps (Keeps)

variable {σ α : Type} {R : σ → σ → Prop} [Std.Refl R] [IsTrans σ R]

/-- Trying again keeps what the attempts and the pauses keep. -/
theorem keeps_backOff {attempt : Steps σ α} {passing : Fault → Bool} {pause : Json → Steps σ Unit}
    (ha : Keeps R attempt) (hp : ∀ delay, Keeps R (pause delay)) (n : Nat) (delay : Json) :
    Keeps R (backOff attempt passing pause n delay) := by
  induction n generalizing delay with
  | zero =>
    unfold backOff
    refine ha.outcome.bind fun r => ?_
    cases r with
    | ok a => exact Steps.keeps_pure a
    | error f =>
      simp only
      split
      · exact Steps.keeps_throw f
      · exact Steps.keeps_throw f
  | succ n ih =>
    unfold backOff
    refine ha.outcome.bind fun r => ?_
    cases r with
    | ok a => exact Steps.keeps_pure a
    | error f =>
      simp only
      split
      · exact (hp delay).bind fun _ => ih _
      · exact Steps.keeps_throw f

theorem keeps_backOffByPowers {attempt : Steps σ α} {passing : Fault → Bool}
    {pause : Json → Steps σ Unit} (ha : Keeps R attempt) (hp : ∀ delay, Keeps R (pause delay))
    (base : Json) (n made : Nat) : Keeps R (backOffByPowers attempt passing pause base n made) := by
  induction n generalizing made with
  | zero =>
    unfold backOffByPowers
    refine ha.outcome.bind fun r => ?_
    cases r with
    | ok a => exact Steps.keeps_pure a
    | error f =>
      simp only
      split
      · exact Steps.keeps_throw f
      · exact Steps.keeps_throw f
  | succ n ih =>
    unfold backOffByPowers
    refine ha.outcome.bind fun r => ?_
    cases r with
    | ok a => exact Steps.keeps_pure a
    | error f =>
      simp only
      split
      · exact (Steps.keeps_ofExcept _).bind fun _ => (hp _).bind fun _ => ih _
      · exact Steps.keeps_throw f

/-- So do attempts that are made again as the settings say. -/
theorem keeps_retry (retry : Retry) (p : Patience) {attempt : Steps σ α} {passing : Fault → Bool}
    {pause : Json → Steps σ Unit} (ha : Keeps R attempt) (hp : ∀ delay, Keeps R (pause delay)) :
    Keeps R (retry.run p attempt passing pause) := by
  unfold Retry.run
  split
  · split
    · exact keeps_backOff ha hp _ _
    · exact keeps_backOffByPowers ha hp _ _ _
  · refine ha.outcome.bind fun r => ?_
    cases r with
    | ok a => exact Steps.keeps_pure a
    | error f => exact Steps.keeps_throw _

section

open Steps (Ensures Passes)

variable {I : σ → Prop} {Q : α → Prop} {attempt : Steps σ α} {passing : Fault → Bool}
  {pause : Json → Steps σ Unit}

/-- What is ensured of an attempt is ensured of the result of trying again. -/
theorem ensures_backOff (ha : Ensures I Q attempt) (hp : ∀ delay, Keeps (Passes I) (pause delay)) (n : Nat)
    (delay : Json) : Ensures I Q (backOff attempt passing pause n delay) := by
  induction n generalizing delay with
  | zero =>
    unfold backOff
    refine ha.outcome.bind fun r hr => ?_
    cases r with
    | ok a => exact Steps.ensures_pure (hr a rfl)
    | error f =>
      simp only
      split
      · exact Steps.ensures_throw f
      · exact Steps.ensures_throw f
  | succ n ih =>
    unfold backOff
    refine ha.outcome.bind fun r hr => ?_
    cases r with
    | ok a => exact Steps.ensures_pure (hr a rfl)
    | error f =>
      simp only
      split
      · exact (hp delay).ensures.bind fun _ _ => ih _
      · exact Steps.ensures_throw f

theorem ensures_backOffByPowers (ha : Ensures I Q attempt)
    (hp : ∀ delay, Keeps (Passes I) (pause delay)) (base : Json) (n made : Nat) :
    Ensures I Q (backOffByPowers attempt passing pause base n made) := by
  induction n generalizing made with
  | zero =>
    unfold backOffByPowers
    refine ha.outcome.bind fun r hr => ?_
    cases r with
    | ok a => exact Steps.ensures_pure (hr a rfl)
    | error f =>
      simp only
      split
      · exact Steps.ensures_throw f
      · exact Steps.ensures_throw f
  | succ n ih =>
    unfold backOffByPowers
    refine ha.outcome.bind fun r hr => ?_
    cases r with
    | ok a => exact Steps.ensures_pure (hr a rfl)
    | error f =>
      simp only
      split
      · exact (Steps.keeps_ofExcept _).ensures.bind fun _ _ =>
          (hp _).ensures.bind fun _ _ => ih _
      · exact Steps.ensures_throw f

theorem ensures_retry (retry : Retry) (p : Patience) (ha : Ensures I Q attempt)
    (hp : ∀ delay, Keeps (Passes I) (pause delay)) : Ensures I Q (retry.run p attempt passing pause) := by
  unfold Retry.run
  split
  · split
    · exact ensures_backOff ha hp _ _
    · exact ensures_backOffByPowers ha hp _ _ _
  · refine ha.outcome.bind fun r hr => ?_
    cases r with
    | ok a => exact Steps.ensures_pure (hr a rfl)
    | error f => exact Steps.ensures_throw _

end

end CardTransfer
