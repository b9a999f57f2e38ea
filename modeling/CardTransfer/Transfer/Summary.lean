import CardTransfer.Transfer.WaitingArea

/-!
# Reports on transfers

The report on some outcomes counts them, and tells the card map and the waiting area as they are
now.
-/

namespace CardTransfer

/-- Outcomes counted: those that succeeded now, those that had before, those that failed, and those
that succeeded but were not verified. -/
structure Summary where
  total : Nat
  transferred : Nat
  before : Nat
  failed : Nat
  unverified : Nat

namespace Summary

/-- Whether an outcome is a success of a kind. -/
def succeeds (kind : Success) (o : Outcome) : Bool :=
  o.report.transferred?.any fun t => t.success == kind

/-- Whether an outcome is a success that was not verified. -/
def isUnverified (o : Outcome) : Bool := o.report.transferred?.any fun t => !t.verified

/-- Counts outcomes. -/
def ofOutcomes (os : List Outcome) : Summary where
  total := os.length
  transferred := os.countP (succeeds .now)
  before := os.countP (succeeds .before)
  failed := os.countP fun o => !o.ok
  unverified := os.countP isUnverified

/-- Every outcome is a success now, a success before, or a failure. -/
theorem total_ofOutcomes (os : List Outcome) :
    (ofOutcomes os).total =
      (ofOutcomes os).transferred + (ofOutcomes os).before + (ofOutcomes os).failed := by
  unfold ofOutcomes
  dsimp only
  induction os with
  | nil => rfl
  | cons o os ih =>
    obtain ⟨r, ps⟩ := o
    simp only [List.length_cons, List.countP_cons, ih]
    rcases r with t | f
    · cases h : t.success <;>
        simp [succeeds, Outcome.ok, Outcome.report, Report.ok, Report.transferred?, h] <;> omega
    · simp [succeeds, Outcome.ok, Outcome.report, Report.ok, Report.transferred?]
      omega

/-- A summary as a document. -/
def toJson (s : Summary) : Json := .obj [
  ("total", .int s.total), ("migrated", .int s.transferred),
  ("already_migrated", .int s.before), ("failed", .int s.failed),
  ("unverified", .int s.unverified)]

end Summary

namespace Session

/-- The card map as a document, in the order of the ids. -/
def cardMapDocument (map : IdMap Json) : Except Fault Json := do
  let ids ← Ids.sort (IdMap.ids map)
  return .obj (ids.filterMap fun id => (IdMap.get? map id).map fun target => (id.shown, target))

/-- The report on some outcomes. -/
def report (os : List Outcome) : Action Json := do
  let map ← readStore fun d => do cardMapDocument (← Store.cardMap d)
  let waiting ← readStore WaitingArea.cards
  return .obj [
    ("generated_at", .str (← get).today), ("summary", (Summary.ofOutcomes os).toJson),
    ("card_mappings", map), ("details", .arr (Outcome.listToJson os)),
    ("waiting_area", .arr (waiting.map (·.toRow)))]

end Session
end CardTransfer
