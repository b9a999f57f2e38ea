import CardTransfer.Mbql.Transfer
import CardTransfer.Oracle.Rendering
import CardTransfer.Session.Basic
import CardTransfer.Sql.Dialect
import CardTransfer.Sql.NativeQuery

/-!
# Rendering queries in a session

The rendering of a query asks the same in the dialect of the target. The rules alone give it if they
leave nothing behind. Otherwise the text that they give is looked up among the renderings kept in
the store, and the oracle is asked if it is not found; what it answers is kept. A store that cannot
be read or written is no obstacle.

An oracle that is asked too often is asked again after a pause, as the settings say.

The draft of a native query is rendered in this way, with the correspondence in words for the oracle; a
structured query is transferred without it.
-/

namespace CardTransfer
namespace Session

variable {α : Type}

/-- Goes on with a fallback where the operating system refuses. -/
def tolerant (fallback : α) (steps : Action α) : Action α := do
  match ← steps.outcome with
  | .ok a => return a
  | .error f => if f.isSystem then return fallback else throw f

/-- Asks the oracle, again if it is busy. -/
def complete (prompt : String) : Action (Option String) := do
  let retry := (← get).settings.retry
  retry.run .untilSpent (ask prompt) Fault.isBusy pause

/-- Asks the oracle; no answer counts as an empty one. -/
def consult (prompt : String) : Action String := return (← complete prompt).getD ""

/-- The rendering of a query that the oracle gives. -/
def askRendering (query context : String) : Action String := do
  match ← (consult (Oracle.renderingPrompt query context)).outcome with
  | .ok answer => Steps.ofExcept (Oracle.acceptRendering query answer)
  | .error f =>
    throw (if f.isOracle then .unrendered ("Oracle translation failed: " ++ f.text) else f)

/-- The rendering of a query, kept or new. -/
def render (query context : String) : Action String := do
  let key := Oracle.cacheKey query context
  match ← tolerant none (readCache key) with
  | some kept => return kept
  | none =>
    if (← get).oracle.isNone then throw (Oracle.noOracle query)
    let result ← askRendering query context
    tolerant () (writeCache key result)
    return result

/-- The rendering of a query, by the rules or with the help of the oracle. -/
def renderText (query context : String) : Action String :=
  let text := Sql.toClickHouse query
  if (Sql.residualConstructs text).isEmpty then pure text else render text context

/-- The correction of a query that fails to run, if the oracle has one. -/
def correct (source current error context : String) : Action (Option String) := do
  if (← get).oracle.isNone then return none
  match ← (consult (Oracle.correctionPrompt source current error context)).outcome with
  | .ok answer => return Oracle.acceptCorrection? current answer
  | .error f => if f.isOracle then return none else throw f

/-- Rendering a text that needs the rules alone leaves the session as it is. -/
theorem run_renderText (query context : String) (s : Session)
    (h : Sql.residualConstructs (Sql.toClickHouse query) = []) :
    (renderText query context).run s = (.ok (Sql.toClickHouse query), s) := by
  unfold renderText
  simp [h]

/-- Transfers a native query, with the cards that take the place of others. -/
def transferNative (cards : IdMap Json) (query : Members) : Action NativeTransfer := do
  let s ← get
  let draft ← Steps.ofExcept (NativeDraft.ofQuery s.correspondence cards query)
  let context ← Steps.ofExcept s.correspondence.describe
  let rendered ← renderText draft.text context
  return draft.finish s.settings.targetDatabase query rendered

/-- Transfers a structured query, with the cards that take the place of others. -/
def transferStructured (cards : IdMap Json) (query : Members) : Action StructuredTransfer := do
  let s ← get
  Steps.ofExcept (StructuredQuery.check query)
  return StructuredTransfer.ofQuery s.correspondence cards s.settings.sourceDatabase
    s.settings.targetDatabase query

end Session
end CardTransfer
