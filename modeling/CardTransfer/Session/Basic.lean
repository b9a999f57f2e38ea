import CardTransfer.Catalog.Correspondence
import CardTransfer.Metabase.Instance
import CardTransfer.Oracle.Gemini
import CardTransfer.Store.CardMap
import CardTransfer.Store.State

/-!
# Sessions

A session is all that a transfer works with: settings, an instance of Metabase, an oracle, a clock,
the directory of the store and the correspondence of the two catalogs. An action changes it step by
step and keeps what it has done when it fails.

The journal tells what has been done on the target, and for each event at what time and with what
in the store it was done. It also holds the questions put to the oracle, and the pauses, and two
lists about the cards that take the places of others: the attempts to write one, refused ones
included, and the entries made in the card map.
-/

namespace CardTransfer

/-- What happened on the target. -/
inductive Event where
  /-- A card was created to take the place of `card`. -/
  | created (card : Card) (id : Json) (definition : Members)
  /-- The card in the place of `card` got a new definition. -/
  | replaced (card : Card) (id : Json) (definition : Members)
  /-- The query of a card was exchanged. -/
  | repaired (id : Json) (changes : Members)
  /-- A card was run. -/
  | ran (id : Json)

/-- An event, with the time and the store at which it happened. -/
structure Entry where
  event : Event
  time : Number
  store : Directory

/-- An attempt to write the card that takes the place of `source` to the target: what was read of it
there, the card to be replaced if it was not to be created, the definition, what came of the
attempt, and the time and the store at which it was made. -/
structure Attempt where
  source : Json
  card : Card
  replaced : Option Json
  definition : Members
  answer : Except Fault Json
  time : Number
  store : Directory

/-- What has been done. A commit names a card and the one that was entered in its place. -/
structure Journal where
  entries : List Entry
  prompts : List String
  pauses : List Json
  attempts : List Attempt
  commits : List (Json × Json)
  deriving Inhabited

/-- The empty journal. -/
def Journal.empty : Journal := ⟨[], [], [], [], []⟩

/-- All that a transfer works with. An oracle gives its answers in turn; renderings may be
impossible to read from the store or to write to it. The clock counts seconds, and `today` is the
time as it is put on records. -/
structure Session where
  settings : Settings
  metabase : Metabase.Instance
  oracle : Option (List Oracle.Answer)
  clock : Number
  today : String
  directory : Directory
  cacheUnreadable : Bool
  cacheUnwritable : Bool
  correspondence : Correspondence
  journal : Journal
  deriving Inhabited

/-- Steps that change a session. -/
abbrev Action (α : Type) := Steps Session α

namespace Session

variable {α : Type}

/-! ### The store -/

/-- Reads from the store. -/
def readStore (read : Directory → Except Fault α) : Action α := do
  Steps.ofExcept (read (← get).directory)

/-- Writes to the store; a failure leaves it as it was. -/
def writeStore (write : Directory → Except Fault Directory) : Action Unit := do
  let s ← get
  let d ← Steps.ofExcept (write s.directory)
  set { s with directory := d }

/-- The fault of a store whose renderings are out of reach. -/
def diskFault : Fault := .fileSystem "OSError" "disk"

/-- The kept rendering of a key, if there is one. -/
def readCache (key : String) : Action (Option String) := do
  if (← get).cacheUnreadable then throw diskFault
  readStore (Store.cached? · key)

/-- Keeps the rendering of a key. -/
def writeCache (key text : String) : Action Unit := do
  if (← get).cacheUnwritable then throw diskFault
  writeStore (Store.putCached · key text)

/-! ### Clock and oracle -/

/-- Lets time pass; it must be a number of seconds. -/
def elapse (seconds : Json) : Action Unit := do
  let s ← get
  let clock ← Steps.ofExcept (Json.plus "+=" s.clock seconds)
  set { s with clock }

/-- Waits. A delay that is no number is noted too, and is a fault then. -/
def pause (delay : Json) : Action Unit := do
  modify fun s => { s with journal := { s.journal with pauses := s.journal.pauses ++ [delay] } }
  elapse delay

/-- The text of an answer; nothing if there is none. -/
def heed : Oracle.Answer → Except Fault (Option String)
  | .text t => .ok (some t)
  | .nothing => .ok none
  | .failed f => .error f

/-- Asks the oracle, once. -/
def ask (prompt : String) : Action (Option String) := do
  modify fun s => { s with
    journal := { s.journal with prompts := s.journal.prompts ++ [prompt] } }
  let s ← get
  match s.oracle with
  | some (answer :: rest) => do
    set { s with oracle := some rest }
    Steps.ofExcept (heed answer)
  | _ => throw Oracle.exhausted

/-! ### Metabase -/

/-- A call to Metabase. -/
def call (steps : Steps Metabase.Instance α) : Action α := ExceptT.mk fun s =>
  let (r, metabase) := steps.run s.metabase
  (r, { s with metabase })

/-- Notes an event. -/
def note (event : Event) : Action Unit := modify fun s => { s with
  journal := { s.journal with entries := s.journal.entries ++ [⟨event, s.clock, s.directory⟩] } }

/-- Notes an attempt. -/
def noteAttempt (source : Json) (card : Card) (replaced : Option Json) (definition : Members)
    (answer : Except Fault Json) : Action Unit := modify fun s => { s with
  journal := { s.journal with attempts := s.journal.attempts ++
    [⟨source, card, replaced, definition, answer, s.clock, s.directory⟩] } }

/-- Fetches a card, which takes time. -/
def fetch (id : Json) : Action Card := do
  elapse (← get).metabase.fetchTime
  call (Metabase.Instance.getCard id)

/-- Creates the card that takes the place of another one, and answers its id. -/
def create (card : Card) (definition : Members) : Action Json := do
  let id ← call (Metabase.Instance.createCard definition)
  note (.created card id definition)
  return id

/-- Gives the card in the place of another one a new definition. -/
def replace (card : Card) (id : Json) (definition : Members) : Action Unit := do
  call (Metabase.Instance.updateCard id definition)
  note (.replaced card id definition)

/-- Enters a card in the card map, with the one that takes its place. -/
def enterCard (source target : Json) : Action Unit := do
  writeStore (Store.setCard · source target)
  modify fun s => { s with
    journal := { s.journal with commits := s.journal.commits ++ [(source, target)] } }

/-- Exchanges the query of a card. -/
def repairCard (id : Json) (query : Json) : Action Unit := do
  let changes : Members := [("dataset_query", query)]
  call (Metabase.Instance.updateCard id changes)
  note (.repaired id changes)

/-- Runs a card once. -/
def runCard (id : Json) : Action Json := do
  note (.ran id)
  call (Metabase.Instance.runCard id)

/-- The address of a card for people. -/
def cardUrl (s : Session) (id : Json) : String :=
  s.settings.metabase.url ++ "/question/" ++ id.shown

end Session
end CardTransfer
