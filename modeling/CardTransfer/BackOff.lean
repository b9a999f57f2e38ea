import CardTransfer.Settings.Basic

/-!
# Trying again

An attempt that fails in a passing way is made again after a pause, which doubles from one time to
the next, until the budget of retries is used up. Any other outcome ends it. There are two loops that
do so: one doubles the delay as it goes (`backOff`), the other counts the retries and takes the delay
at the start times a power of two (`backOffByPowers`).

Attempts run in a state that a failure does not undo.
-/

namespace CardTransfer

/-- Steps that change a state and may end in a fault; the state is kept then. -/
abbrev Steps (σ α : Type) := ExceptT Fault (StateM σ) α

namespace Steps

variable {σ α : Type}

/-- Runs steps from a state. -/
def run (steps : Steps σ α) (s : σ) : Except Fault α × σ := StateT.run (ExceptT.run steps) s

/-- The outcome of steps as a value; never a fault itself. -/
def outcome (steps : Steps σ α) : Steps σ (Except Fault α) :=
  ExceptT.mk (fun s => let r := steps.run s; (.ok r.1, r.2))

/-- A result or a fault as steps. -/
def ofExcept (r : Except Fault α) : Steps σ α := ExceptT.mk (fun s => (r, s))

@[simp] theorem run_pure (a : α) (s : σ) : (pure a : Steps σ α).run s = (.ok a, s) := rfl

@[simp] theorem run_throw (f : Fault) (s : σ) : (throw f : Steps σ α).run s = (.error f, s) := rfl

@[simp] theorem run_ofExcept (r : Except Fault α) (s : σ) : (ofExcept r).run s = (r, s) := rfl

@[simp] theorem run_outcome (steps : Steps σ α) (s : σ) :
    (outcome steps).run s = (.ok (steps.run s).1, (steps.run s).2) := rfl

/-- Steps in a row: the second run where the first leave off, unless those end in a fault. -/
theorem run_bind {β : Type} (steps : Steps σ α) (next : α → Steps σ β) (s : σ) :
    (steps >>= next).run s =
      match steps.run s with
      | (.ok a, t) => (next a).run t
      | (.error f, t) => (.error f, t) := by
  unfold run
  simp only [bind, ExceptT.bind, ExceptT.mk, ExceptT.run, StateT.run, StateT.bind]
  generalize steps s = r
  obtain ⟨r, t⟩ := r
  cases r <;> rfl

end Steps

variable {σ α : Type}

namespace Json

/-- A delay twice as long; what is no number stays. -/
def doubled (delay : Json) : Json := (delay.number?.map fun n => (n.mul (.int 2)).toJson).getD delay

/-- A delay times a whole number: numbers are multiplied, texts and lists repeated. -/
def times (delay : Json) (m : Nat) : Except Fault Json :=
  match delay with
  | .str s => .ok (.str (String.join (List.replicate m s)))
  | .arr vs => .ok (.arr (List.replicate m vs).flatten)
  | _ =>
    match delay.number? with
    | some (.float x) =>
      match Decimal.ofInt? m with
      | some y => .ok (.float (x * y))
      | none => .error (.tooLarge "int too large to convert to float")
    | some n => .ok (n.mul (.int m)).toJson
    | none => .error (unfit "*" delay (.int m))

end Json

/-- Makes an attempt, and makes it again while it fails in a passing way: `n` times at most, first
after a pause of `delay`, then after pauses that double. -/
def backOff (attempt : Steps σ α) (passing : Fault → Bool) (pause : Json → Steps σ Unit) :
    Nat → Json → Steps σ α
  | n, delay => do
    match ← attempt.outcome with
    | .ok a => return a
    | .error f =>
      if passing f then
        match n with
        | 0 => throw f
        | n + 1 => do
          pause delay
          backOff attempt passing pause n delay.doubled
      else throw f

/-- Makes an attempt, and makes it again while it fails in a passing way: `n` times at most. After
`made` retries the pause is `2 ^ made` times the base delay. -/
def backOffByPowers (attempt : Steps σ α) (passing : Fault → Bool) (pause : Json → Steps σ Unit)
    (base : Json) : Nat → Nat → Steps σ α
  | n, made => do
    match ← attempt.outcome with
    | .ok a => return a
    | .error f =>
      if passing f then
        match n with
        | 0 => throw f
        | n + 1 => do
          pause (← Steps.ofExcept (base.times (Nat.pow 2 made)))
          backOffByPowers attempt passing pause base n (made + 1)
      else throw f

/-- How the pauses come to grow: each is doubled for the next time, or each is computed from the base
delay. -/
inductive Growth where
  | doubling
  | powers

/-- How the settings of retries are read. The limit is compared with the retries that were made: by
`≥` where they may have used it up, by `<` where there may be some left. -/
structure Patience where
  comparison : String
  /-- How many retries a limit allows that is no size at all. -/
  unclear : Nat
  growth : Growth

namespace Patience

/-- Goes on until the limit is reached, and doubles the delay each time. -/
def untilSpent : Patience := ⟨">=", Retry.endless, .doubling⟩

/-- Goes on while there is something left of the limit, and computes the delay each time. -/
def whileLeft : Patience := ⟨"<", 0, .powers⟩

end Patience

namespace Retry

/-- Makes an attempt again as the settings say. Settings that cannot be used are a fault when they
are needed first. -/
def run (r : Retry) (p : Patience) (attempt : Steps σ α) (passing : Fault → Bool)
    (pause : Json → Steps σ Unit) : Steps σ α :=
  match r.budget p.comparison p.unclear with
  | .ok n =>
    match p.growth with
    | .doubling => backOff attempt passing pause n r.baseDelay
    | .powers => backOffByPowers attempt passing pause r.baseDelay n 0
  | .error unusable => do
    match ← attempt.outcome with
    | .ok a => return a
    | .error f => throw (if passing f then unusable else f)

end Retry
end CardTransfer
