import CardTransfer.BackOff
import CardTransfer.Card.Basic
import CardTransfer.Catalog.Basic

/-!
# An instance of Metabase

An instance holds cards, in the order in which they were made, and the descriptions of databases.
A transfer fetches cards and descriptions, creates and changes cards, and runs them.

A call usually takes its course; it may fail instead, and a run of a card may have another answer
than the usual one. What becomes of the calls to come is part of the instance: for each call a list
of courses, of which every such call takes the first. The fetches and runs of different cards are
different calls.

Created cards get ids of their own, 1001 and upwards.
-/

namespace CardTransfer
namespace Metabase

/-- A call to an instance; a card is named by its id in text. -/
inductive CallName where
  | create
  | update
  | list
  | schema
  | user
  | get (card : String)
  | run (card : String)
  deriving DecidableEq, Repr

/-- What becomes of a call. -/
inductive Course where
  | usual
  | answered (v : Json)
  | failed (f : Fault)
  deriving Inhabited

/-- The courses that calls to come will take. -/
abbrev Courses := List (CallName × List Course)

namespace Courses

/-- The course of a call, and the courses of all calls after it. -/
def next (call : CallName) : Courses → Course × Courses
  | [] => (.usual, [])
  | (c, steps) :: rest =>
    if c = call then (steps.headD .usual, (c, steps.tail) :: rest)
    else
      let (step, after) := next call rest
      (step, (c, steps) :: after)

/-- Adds courses for a call after those that it has already. -/
def append (call : CallName) (more : List Course) : Courses → Courses
  | [] => [(call, more)]
  | (c, steps) :: rest =>
    if c = call then (c, steps ++ more) :: rest else (c, steps) :: append call more rest

/-- A call for which no course is laid down takes the usual one. -/
@[simp] theorem next_nil (call : CallName) : next call [] = (.usual, []) := rfl

/-- A call does not touch the courses of other calls. -/
theorem next_of_ne {call other : CallName} (cs : Courses) (h : other ≠ call) :
    (next other (next call cs).2).1 = (next other cs).1 := by
  induction cs with
  | nil => rfl
  | cons c cs ih =>
    obtain ⟨c, steps⟩ := c
    by_cases hc : c = call
    · subst hc
      simp [next, Ne.symm h]
    · by_cases ho : c = other
      · subst ho
        simp [next, hc]
      · simp [next, hc, ho, ih]

end Courses

/-- An instance: its cards by id, the id of the next card it creates, the descriptions of its
databases by id in text, its user, the courses of calls to come, and how many seconds it takes to
fetch a card. -/
structure Instance where
  cards : IdMap Json
  nextId : Int
  schemas : List (String × Json)
  user : Json
  courses : Courses
  fetchTime : Json
  deriving Inhabited

namespace Instance

/-- The id of the first card that an instance creates. -/
def firstId : Int := 1001

/-- The instance of a user, without cards and descriptions, on which every call takes its course. -/
def empty (user : Json) : Instance where
  cards := []
  nextId := firstId
  schemas := []
  user := user
  courses := []
  fetchTime := .int 0

/-- Adds a card under the id in its payload. -/
def addCard (m : Instance) (payload : Json) : Except Fault Instance := do
  let id ← (← payload.require "id").asKey
  return { m with cards := IdMap.insert m.cards id payload }

/-- The course of a call that is made now. -/
def course (call : CallName) : Steps Instance Course := ExceptT.mk fun m =>
  let (step, courses) := m.courses.next call
  (.ok step, { m with courses })

/-- Goes on with a call unless it fails. -/
def meet (call : CallName) : Steps Instance Unit := do
  match ← course call with
  | .failed f => throw f
  | _ => return ()

/-- One card. -/
def getCard (id : Json) : Steps Instance Card := do
  meet (.get id.shown)
  match IdMap.get? (← get).cards id with
  | some payload => Steps.ofExcept (Card.ofPayload payload)
  | none => throw (.metabase (.int 404) (.str "Not found.") .null)

/-- All cards. -/
def listCards : Steps Instance (List Card) := do
  meet .list
  Steps.ofExcept ((← get).cards.mapM fun p => Card.ofPayload p.2)

/-- The catalog of a database. -/
def getSchema (database : Int) : Steps Instance Catalog := do
  meet .schema
  let id := Json.int database
  Steps.ofExcept (Catalog.ofPayload id (((← get).schemas.lookup id.shown).getD (.obj [])))

/-- Who is signed in. -/
def validate : Steps Instance Json := do
  meet .user
  return (← get).user

/-- The payload of a card with a definition. -/
def payloadOf (id : Json) (definition : Members) : Json := .obj (Members.insert definition "id" id)

/-- Creates a card and answers its id. -/
def createCard (definition : Members) : Steps Instance Json := do
  meet .create
  let m ← get
  let id := Json.int m.nextId
  set { m with
    nextId := m.nextId + 1
    cards := IdMap.insert m.cards id (payloadOf id definition) }
  return id

/-- A payload with some members replaced. -/
def merged (payload : Json) (changes : Members) : Json :=
  match payload with
  | .obj ms => .obj (changes.foldl (fun ms p => Members.insert ms p.1 p.2) ms)
  | other => other

/-- Replaces members of a card; a card that does not exist stays away. -/
def updateCard (id : Json) (changes : Members) : Steps Instance Unit := do
  meet .update
  let m ← get
  match IdMap.get? m.cards id with
  | some payload => set { m with cards := IdMap.insert m.cards id (merged payload changes) }
  | none => return ()

/-- The usual answer to a run. -/
def usualResult : Json := .obj [("row_count", .int 1)]

/-- Runs a card once. -/
def runCard (id : Json) : Steps Instance Json := do
  match ← course (.run id.shown) with
  | .usual => return usualResult
  | .answered v => return v
  | .failed f => throw f

end Instance
end Metabase
end CardTransfer
