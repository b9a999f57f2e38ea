import CardTransfer.Session.Rendering

/-!
# Verification

A card that has just been written to the target is run once. If it ends with an error and its query
is native, the oracle is asked for a correction, which takes the place of the text of the query, and
the card is run again; this goes on until the card runs, no correction is to be had or can be
applied, or the attempts that the settings allow are used up.

The card stays on the target whatever comes of it; what went wrong becomes a warning.
-/

namespace CardTransfer

/-- Whether a card runs, its query as it stands on the target, and warnings. -/
structure Verification where
  verified : Bool
  query : Members
  warnings : List String

namespace Verification

/-- A native query with another text. -/
def withText (query : Members) (text : String) : Members :=
  match Members.get? query "native" with
  | some (.obj native) =>
    Members.insert query "native" (.obj (Members.insert native "query" (.str text)))
  | _ => query

/-- The verdict on a card that still ends with an error. -/
def unverified (query : Members) (warnings : List String) (error : Json) : Verification :=
  ⟨false, query, warnings ++ ["Unverified: last execution error: " ++ error.shown]⟩

end Verification

namespace Session

open Verification (unverified withText)

/-- The error with which a run of a card ends; null or empty if it ends well. -/
def runError (id : Json) : Action Json := do
  let run : Action Json := do
    let result ← runCard id
    Steps.ofExcept (result.find "error")
  match ← run.outcome with
  | .ok error => return error
  | .error f => return .str f.message

/-- A correction for the text of a query, or a warning that asking for one has failed. -/
def seekCorrection (source query : Members) (error : Json) (context : String) :
    Action (Option String) := do
  let text ← Steps.ofExcept (nativeText query)
  let first ← Steps.ofExcept (nativeText source)
  correct first.shown text.shown error.shown context

/-- Repairs a card that ends with an error: `n` more attempts, of which the first is `attempt`. -/
def repair (card : Card) (id : Json) (context : String) :
    (n : Nat) → (attempt : Nat) → Members → Json → List String → Action Verification
  | 0, _, query, error, warnings => return unverified query warnings error
  | n + 1, attempt, query, error, warnings => do
    match ← (seekCorrection card.query query error context).outcome with
    | .error f =>
      let warning := "Repair attempt " ++ Text.ofInt attempt ++ " raised " ++ f.message
      return unverified query (warnings ++ [warning]) error
    | .ok none => return unverified query warnings error
    | .ok (some text) => do
      let corrected := withText query text
      match ← (repairCard id (.obj corrected)).outcome with
      | .error f =>
        let warning := "Could not apply repair attempt " ++ Text.ofInt attempt ++ ": " ++ f.text
        return unverified query (warnings ++ [warning]) error
      | .ok () => do
        let error ← runError id
        if error.truthy then repair card id context n (attempt + 1) corrected error warnings
        else
          let warning := "Query repaired after " ++ Text.ofInt attempt ++ " attempt(s)"
          return ⟨true, corrected, warnings ++ [warning]⟩

/-- Verifies a card on the target that takes the place of `card`. -/
def verify (card : Card) (id : Json) (query : Members) (warnings : List String) :
    Action Verification := do
  let error ← runError id
  if !error.truthy then return ⟨true, query, warnings⟩
  if !card.isNative then
    return ⟨false, query, warnings ++ ["Verification failed: " ++ error.shown]⟩
  let s ← get
  let context ← Steps.ofExcept s.correspondence.describe
  repair card id context s.settings.repairAttempts.toNat 1 query error warnings

end Session
end CardTransfer
