import CardTransfer.Json.Access
import CardTransfer.Store.Directory

/-!
# Stored states and renderings

Under a key the store keeps a document, its state, and apart from that a text, the rendering of a
query. A key consists of one or more of the letters `A` – `Z` and `a` – `z`, digits `0` – `9`,
underscores, points and hyphens, and may end with one line break.
-/

namespace CardTransfer
namespace Store

/-- The characters of a key. -/
def inKey (c : Char) : Bool := c.isAlphanum || c == '_' || c == '.' || c == '-'

/-- Whether a text is a key. -/
def isKey (key : String) : Bool :=
  let cs := key.toList
  let cs := if cs.getLast? == some '\n' then cs.dropLast else cs
  !cs.isEmpty && cs.all inKey

/-- A key; a fault if the text is none. -/
def checkKey (key : String) : Except Fault String :=
  if isKey key then .ok key else .error (.badValue ("Invalid storage key: " ++ Text.quoted key))

/-- Where the state of a key is stored. -/
def statePath (key : String) : String := "state/" ++ key ++ ".json"

/-- Where the rendering of a key is stored. -/
def cachePath (key : String) : String := "translation_cache/" ++ key ++ ".txt"

/-- The state of a key; null if there is none. -/
def getState (d : Directory) (key : String) : Except Fault Json := do
  d.readJson (statePath (← checkKey key)) .null

/-- Sets the state of a key. -/
def setState (d : Directory) (key : String) (v : Json) : Except Fault Directory := do
  d.writeJson (statePath (← checkKey key)) v

/-- The rendering of a key, if there is one. -/
def cached? (d : Directory) (key : String) : Except Fault (Option String) := do
  d.read? (cachePath (← checkKey key))

/-- Keeps the rendering of a key. -/
def putCached (d : Directory) (key text : String) : Except Fault Directory := do
  d.write (cachePath (← checkKey key)) text

end Store
end CardTransfer
