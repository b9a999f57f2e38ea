import CardTransfer.Json.Access

/-!
# Settings

The settings of a transfer come from a document, with defaults for what it leaves out and with the
environment for addresses and credentials that it leaves out or leaves empty.

| section | part | default | from the environment |
| --- | --- | --- | --- |
| `metabase` | `url` | required | `METABASE_URL` |
| | `username`, `password`, `api_key` | null | `METABASE_USERNAME`, `…_PASSWORD`, `…_API_KEY` |
| | `timeout` | 60.0 | |
| `oracle` | `api_key` | null | `GEMINI_API_KEY` |
| | `model` | `gemini-2.0-flash` | `GEMINI_MODEL` |
| | `timeout` | 120.0 | |
| `storage` | `path` | `.card_migrator` | |
| `retry` | `max_retries`, `base_delay` | 3, 2.0 | |

Both database ids are required. A section of another shape, or with parts that it does not have,
is refused, and so is any value of a wrong kind where a number is needed; slashes at the end of the
address do not count.
-/

namespace CardTransfer

/-- Environment variables that are set. -/
abbrev Environment := List (String × String)

namespace Environment

/-- The variables that settings may come from. -/
def names : List String := ["METABASE_URL", "METABASE_USERNAME", "METABASE_PASSWORD",
  "METABASE_API_KEY", "GEMINI_API_KEY", "GEMINI_MODEL"]

/-- The value of a variable; null if it is not set. -/
def value (env : Environment) (name : String) : Json := Json.ofOption ((env.lookup name).map .str)

end Environment

/-- How to reach Metabase. -/
structure Connection where
  url : String
  username : Json
  password : Json
  apiKey : Json
  timeout : Json
  deriving Inhabited

/-- How to reach the oracle. -/
structure OracleSettings where
  apiKey : Json
  model : Json
  timeout : Json
  deriving Inhabited

/-- How often to try again, and how long to wait before the first time. -/
structure Retry where
  maxRetries : Json
  baseDelay : Json
  deriving Inhabited

/-- The settings of a transfer. -/
structure Settings where
  metabase : Connection
  sourceDatabase : Int
  targetDatabase : Int
  oracle : OracleSettings
  storagePath : Json
  retry : Retry
  nameSuffix : Json
  holdNative : Json
  repairAttempts : Int
  timeout : Json
  deriving Inhabited

/-- A section of a settings document: its name in messages and the parts it may have. -/
structure Section where
  name : String
  parts : List String

namespace Section

def metabase : Section := ⟨"MetabaseConfig", ["url", "username", "password", "api_key", "timeout"]⟩

def oracle : Section := ⟨"OracleConfig", ["api_key", "model", "timeout"]⟩

def storage : Section := ⟨"StorageConfig", ["path"]⟩

def retry : Section := ⟨"RetryConfig", ["max_retries", "base_delay"]⟩

/-- The members of a section; a fault if it is no object or has a part it may not have. -/
def members (s : Section) (v : Json) : Except Fault Members :=
  match v with
  | .obj ms =>
    match ms.find? fun m => !s.parts.contains m.1 with
    | some m => .error (.badType
        (s.name ++ ".__init__() got an unexpected keyword argument '" ++ m.1 ++ "'"))
    | none => .ok ms
  | other => .error (.badType ("card_migrator.config." ++ s.name ++
      "() argument after ** must be a mapping, not " ++ other.kindName))

end Section

/-- A value, or the one of the environment if a condition takes it for false. -/
def orVariable (env : Environment) (name : String) (v : Json) : Json :=
  if v.truthy then v else env.value name

/-- An address without the slashes at its end. -/
def trimAddress (url : String) : String :=
  String.ofList (url.toList.reverse.dropWhile (· == '/')).reverse

namespace Connection

/-- The connection that a section describes. -/
def ofSection (env : Environment) (v : Json) : Except Fault Connection := do
  let ms ← Section.metabase.members v
  let part := fun key => Json.ofOption (Members.get? ms key)
  let url := orVariable env "METABASE_URL" (part "url")
  if !url.truthy then
    throw (.settings "Metabase URL required: set metabase.url or METABASE_URL")
  let address ← url.textFor "rstrip"
  return {
    url := trimAddress address
    username := orVariable env "METABASE_USERNAME" (part "username")
    password := orVariable env "METABASE_PASSWORD" (part "password")
    apiKey := orVariable env "METABASE_API_KEY" (part "api_key")
    timeout := (Members.get? ms "timeout").getD (.float 60.0) }

end Connection

namespace OracleSettings

/-- The oracle that a section describes. -/
def ofSection (env : Environment) (v : Json) : Except Fault OracleSettings := do
  let ms ← Section.oracle.members v
  let part := fun key => Json.ofOption (Members.get? ms key)
  let model := part "model"
  return {
    apiKey := orVariable env "GEMINI_API_KEY" (part "api_key")
    model :=
      if model.truthy then model
      else .str ((env.lookup "GEMINI_MODEL").getD "gemini-2.0-flash")
    timeout := (Members.get? ms "timeout").getD (.float 120.0) }

end OracleSettings

namespace Retry

/-- More retries than there ever are. -/
def endless : Nat := Nat.pow 10 9

/-- The retries that a section describes. -/
def ofSection (v : Json) : Except Fault Retry := do
  let ms ← Section.retry.members v
  return {
    maxRetries := (Members.get? ms "max_retries").getD (.int 3)
    baseDelay := (Members.get? ms "base_delay").getD (.float 2.0) }

/-- How many retries there may be at most: the least whole number that is not below the limit, or
`unclear` many for a limit that is no size at all. A limit that is no number cannot be compared. -/
def budget (r : Retry) (comparison : String) (unclear : Nat) : Except Fault Nat := do
  match ← r.maxRetries.comparand comparison "int" with
  | .int n => return n.toNat
  | .float x =>
    match Decimal.ceiling? x with
    | some n => return n.toNat
    | none => return if x < 0.0 then 0 else if 0.0 < x then endless else unclear

end Retry

namespace Settings

/-- Whether a document has a key; a fault if it is of a kind without keys. -/
def hasKey (raw : Json) (key : String) : Except Fault Bool :=
  match raw with
  | .obj ms => .ok (Members.get? ms key).isSome
  | .arr items => .ok (items.any fun v => v.sameId (.str key))
  | .str s => .ok ((s.splitOn key).length > 1)
  | other => .error (.badType ("argument of type '" ++ other.kindName ++ "' is not iterable"))

/-- The settings in the members of a document. -/
def ofMembers (env : Environment) (ms : Members) : Except Fault Settings := do
  let part := fun key (fallback : Json) => (Members.get? ms key).getD fallback
  let metabase ← Connection.ofSection env (part "metabase" (.obj []))
  let sourceDatabase ← (part "source_database_id" .null).toInt
  let targetDatabase ← (part "target_database_id" .null).toInt
  let oracle ← OracleSettings.ofSection env (part "oracle" (.obj []))
  let storage ← Section.storage.members (part "storage" (.obj []))
  let retry ← Retry.ofSection (part "retry" (.obj []))
  let repairAttempts ← (part "repair_attempts" (.int 3)).toInt
  return {
    metabase, sourceDatabase, targetDatabase, oracle, retry, repairAttempts
    storagePath := (Members.get? storage "path").getD (.str ".card_migrator")
    nameSuffix := part "card_name_suffix" (.str "[migrated]")
    holdNative := part "hold_native_cards" (.bool true)
    timeout := part "migration_timeout" (.float 300.0) }

/-- The settings that a document describes. -/
def ofDocument (env : Environment) (raw : Json) : Except Fault Settings := do
  for key in ["source_database_id", "target_database_id"] do
    if !(← hasKey raw key) then throw (.settings ("Missing required config key: " ++ key))
  match raw with
  | .obj ms =>
    match ofMembers env ms with
    | .error (.badType text) => throw (.settings ("Invalid config: " ++ text))
    | r => r
  | other => throw (other.lacks "get")

end Settings
end CardTransfer
