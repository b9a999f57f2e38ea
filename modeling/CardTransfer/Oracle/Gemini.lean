import CardTransfer.BackOff
import CardTransfer.Text.LowerCase
import CardTransfer.Text.Scan

/-!
# The Gemini oracle

The oracle is a text model of Gemini, set up with an API key and the name of the model. Every
failure of the model becomes a fault of the oracle, which shows name and text of the failure; one
that tells of too many requests in its text is the fault of a busy oracle. No text counts as the empty
one.
-/

namespace CardTransfer
namespace Oracle

/-- Words that tell of too many requests. -/
def busyMarks : List String :=
  ["429", "too many requests", "resource exhausted", "resourceexhausted"]

/-- Whether a message tells of too many requests, in any letter case. -/
def tellsBusy (message : String) : Bool :=
  let text := Text.lower message.toList
  busyMarks.any fun mark => Text.hasPart mark.toList text

/-- What the model answers: a text, nothing, or a failure. -/
inductive Answer where
  | text (t : String)
  | nothing
  | failed (f : Fault)

/-- What the model has been asked to do. -/
inductive ModelEvent where
  | configure (apiKey : Json)
  | model (name : Json)
  | generate (prompt : String) (timeout : Json)

/-- The answers to come from the model, and what it has been asked to do so far. -/
structure Model where
  answers : List Answer
  events : List ModelEvent

/-- The fault of a model without answers. -/
def exhausted : Fault := .other "RuntimeError" "oracle script exhausted"

/-- The fault of the oracle for a failure of the model. -/
def faultOf (f : Fault) : Fault :=
  if tellsBusy f.message then .oracleBusy f.message else .oracle f.message

namespace Gemini

/-- Sets the model up. -/
def connect (settings : OracleSettings) : Steps Model Unit := do
  if settings.apiKey.truthy then
    modify fun m => { m with
      events := m.events ++ [.configure settings.apiKey, .model settings.model] }
  else throw (.oracle "Missing GEMINI_API_KEY for the rewrite oracle")

/-- Takes the next answer of the model. -/
def generate (settings : OracleSettings) (prompt : String) : Steps Model String := do
  let m ← get
  let events := m.events ++ [.generate prompt settings.timeout]
  match m.answers with
  | [] => do
    set { m with events }
    throw exhausted
  | answer :: rest => do
    set { answers := rest, events : Model }
    match answer with
    | .text t => return t
    | .nothing => return ""
    | .failed f => throw f

/-- The answer to a prompt. -/
def complete (settings : OracleSettings) (prompt : String) : Steps Model String := do
  match ← (generate settings prompt).outcome with
  | .ok text => return text
  | .error f => throw (faultOf f)

end Gemini
end Oracle
end CardTransfer
