import CardTransfer.BackOff
import CardTransfer.Card.Basic
import CardTransfer.Catalog.Basic
import CardTransfer.Json.Parser
import CardTransfer.Json.Printer

/-!
# The client of Metabase

A client turns calls into requests below `<address>/api` and reads the replies.

* It authenticates with an API key if there is one; otherwise it opens a session with username and
  password and goes on with the token it gets.
* A request that gets no answer counts as status 503. A status of 400 and above is a fault with the
  `message` of the reply, or with its whole text if it is no object or has no message. A reply
  without content is nothing, and one that is no document a fault.
* Running a card never ends in a fault of Metabase: the message becomes the `error` of the result.
  Statuses 502, 503 and 504 pass, so the run is tried again as the settings say.

The `Wire` holds the replies still to come and what has been sent.
-/

namespace CardTransfer
namespace Metabase

/-- A request. -/
structure Request where
  method : String
  url : String
  body : Json
  params : Json
  timeout : Json

/-- What comes back for a request. -/
inductive Reply where
  | failed (f : Fault)
  | answered (status : Json) (text : String)

/-- The replies to come, the requests sent and the pauses made so far. -/
structure Wire where
  replies : List Reply
  requests : List Request
  pauses : List Json

/-- Steps on the wire. -/
abbrev Call (α : Type) := Steps Wire α

/-- A client: its settings, and the headers that it sends. -/
structure Client where
  connection : Connection
  retry : Retry
  headers : Members

/-- The fault of a wire without replies. -/
def noReply : Fault := .other "RuntimeError" "http script exhausted"

/-- Sends a request and takes the next reply: status and text. -/
def send (r : Request) : Call (Json × String) := do
  let wire ← get
  let wire := { wire with requests := wire.requests ++ [r] }
  match wire.replies with
  | [] => do
    set wire
    throw noReply
  | reply :: rest => do
    set { wire with replies := rest }
    match reply with
    | .failed f => throw f
    | .answered status text => return (status, text)

/-- Waits; only a number of seconds can be waited for. -/
def pause (delay : Json) : Call Unit := do
  modify fun wire => { wire with pauses := wire.pauses ++ [delay] }
  let _ ← Steps.ofExcept (Json.plus "+=" (.float 0.0) delay)

/-- A text as a document. -/
def documentOf (text : String) : Except Fault Json :=
  match Json.parse text with
  | .ok v => .ok v
  | .error _ => .error (.badValue "invalid json")

/-- Whether a status tells of an error; it must be a number. -/
def isErrorStatus (status : Json) : Except Fault Bool :=
  match status.number? with
  | some n => .ok (n.ge (.int 400))
  | none => .error (.badType ("'>=' not supported between instances of '" ++ status.kindName
      ++ "' and 'int'"))

/-- Statuses that pass. -/
def passingStatuses : Ids := [.int 502, .int 503, .int 504]

/-- Whether a fault of Metabase passes. -/
def isPassing : Fault → Bool
  | .metabase status _ _ => Ids.has passingStatuses status
  | _ => false

/-- Network faults that count as no answer. -/
def isNoAnswer : Fault → Option String
  | .network name text =>
    if ["ConnectionError", "Timeout", "ReadTimeout", "ConnectTimeout"].contains name then
      some (name ++ ": " ++ text)
    else none
  | _ => none

/-- What a status and a text say. -/
def readReply (endpoint : String) (status : Json) (text : String) : Except Fault Json := do
  if ← isErrorStatus status then
    match documentOf text with
    | .ok (.obj ms) =>
      throw (.metabase status ((Members.get? ms "message").getD (.str text)) (.obj ms))
    | _ => throw (.metabase status (.str text) .null)
  else if status.sameId (.int 204) || text.isEmpty then return .null
  else
    match documentOf text with
    | .ok v => return v
    | .error f => throw (.metabase status
        (.str ("Invalid JSON in response from " ++ endpoint ++ ": " ++ f.text)) .null)

namespace Client

/-- The address below which all requests go. -/
def base (connection : Connection) : String := connection.url ++ "/api"

/-- Opens a session and answers the token. -/
def openSession (connection : Connection) : Call Json := do
  let (status, text) ← send {
    method := "POST", url := base connection ++ "/session"
    body := .obj [("username", connection.username), ("password", connection.password)]
    params := .null, timeout := connection.timeout }
  if ← Steps.ofExcept (isErrorStatus status) then
    throw (.network "HTTPError" (status.shown ++ " Error"))
  Steps.ofExcept (do (← documentOf text).find "id")

/-- A client that has authenticated. -/
def connect (connection : Connection) (retry : Retry) : Call Client := do
  let plain : Members := [("Content-Type", .str "application/json")]
  if connection.apiKey.truthy then
    return ⟨connection, retry, plain ++ [("x-api-key", connection.apiKey)]⟩
  else if connection.username.truthy && connection.password.truthy then
    let token ← openSession connection
    return ⟨connection, retry, plain ++ [("X-Metabase-Session", token)]⟩
  else
    throw (.badValue
      "Metabase authentication required: provide api_key or username/password")

variable (c : Client)

/-- Sends a request to an endpoint and reads the reply. -/
def request (method endpoint : String) (body params : Json) : Call Json := do
  let r : Request := ⟨method, base c.connection ++ "/" ++ endpoint, body, params,
    c.connection.timeout⟩
  match ← (send r).outcome with
  | .ok (status, text) => Steps.ofExcept (readReply endpoint status text)
  | .error f =>
    match isNoAnswer f with
    | some text => throw (.metabase (.int 503) (.str text) .null)
    | none => throw f

/-- The address of a card for people. -/
def cardUrl (id : Json) : String := c.connection.url ++ "/question/" ++ id.shown

/-- Whom the client acts for. -/
def validate : Call Json := c.request "GET" "user/current" .null .null

/-- All cards. -/
def listCards : Call (List Card) := do
  let payload ← c.request "GET" "card" .null .null
  Steps.ofExcept (do (← (payload.orElse (.arr [])).each).mapM Card.ofPayload)

/-- The endpoint of a card. -/
def cardEndpoint (id : Json) : String := "card/" ++ id.shown

/-- One card. -/
def getCard (id : Json) : Call Card := do
  let payload ← c.request "GET" (cardEndpoint id) .null .null
  Steps.ofExcept (Card.ofPayload payload)

/-- Creates a card; the reply must be an object. -/
def createCard (definition : Json) : Call Json := do
  let reply ← c.request "POST" "card" definition .null
  let _ ← Steps.ofExcept (definition.membersFor "get")
  let _ ← Steps.ofExcept (reply.membersFor "get")
  return reply

/-- Changes a card. -/
def updateCard (id definition : Json) : Call Json :=
  c.request "PUT" (cardEndpoint id) definition .null

/-- The result of a run of a card, from its reply: the error as text, or the number of rows. -/
def runResult (reply : Json) : Except Fault Json := do
  let reply := reply.orElse (.obj [])
  let error ← reply.find "error"
  if error.truthy then return .obj [("error", .str error.shown)]
  else return .obj [("row_count", ← reply.find "row_count")]

/-- Runs a card once. -/
def queryCard (id : Json) : Call Json := do
  let attempt := c.request "POST" (cardEndpoint id ++ "/query") .null .null
  match ← (c.retry.run .whileLeft attempt isPassing pause).outcome with
  | .ok reply => Steps.ofExcept (runResult reply)
  | .error (.metabase _ detail _) => return .obj [("error", detail)]
  | .error f => throw f

/-- The description of a database. -/
def databaseMetadata (database : Json) : Call Json :=
  c.request "GET" ("database/" ++ database.shown ++ "/metadata") .null
    (.obj [("include_hidden", .str "true")])

/-- The catalog of a database. -/
def getSchema (database : Json) : Call Catalog := do
  let payload ← c.databaseMetadata database
  Steps.ofExcept (Catalog.ofPayload database (payload.orElse (.obj [])))

end Client
end Metabase
end CardTransfer
