import CardTransfer.Json.Display
import CardTransfer.Json.Id

/-!
# Faults

An operation that cannot be carried out ends in a fault, which says what was wrong. Every fault has
a name and a text; a message shows both.

| fault | what was wrong |
| --- | --- |
| `missingKey` | an object lacks a member it must have |
| `badValue` | a text or a choice does not convert |
| `badType` | a value is of a kind that the operation does not take |
| `badPart` | a value is of a kind that has no such part |
| `tooLarge` | a number has no counterpart of the wanted kind |
| `badDocument` | a text is not a document |
| `fileSystem` | a file cannot be read or written |
| `network` | a request got no answer |
| `metabase` | Metabase answered with an error |
| `oracle`, `oracleBusy` | the oracle failed, or was asked too often |
| `unrendered` | a query could not be rendered |
| `cycle` | cards depend on each other in a circle |
| `settings` | the configuration is not usable |
| `depth` | cards depend on each other over too many levels |
| `other` | anything else, by name |
-/

namespace CardTransfer

/-- Why an operation could not be carried out. -/
inductive Fault where
  | missingKey (key : String)
  | badValue (text : String)
  | badType (text : String)
  | badPart (text : String)
  | tooLarge (text : String)
  | badDocument (text : String)
  | fileSystem (name text : String)
  | network (name text : String)
  | metabase (status detail response : Json)
  | oracle (text : String)
  | oracleBusy (text : String)
  | unrendered (text : String)
  | cycle (cards : Ids)
  | settings (text : String)
  | depth
  | other (name text : String)

namespace Fault

/-- The name of a fault in messages. -/
def name : Fault → String
  | missingKey _ => "KeyError"
  | badValue _ => "ValueError"
  | badType _ => "TypeError"
  | badPart _ => "AttributeError"
  | tooLarge _ => "OverflowError"
  | badDocument _ => "JSONDecodeError"
  | fileSystem name _ => name
  | network name _ => name
  | metabase .. => "MetabaseApiError"
  | oracle _ => "OracleError"
  | oracleBusy _ => "OracleRateLimitError"
  | unrendered _ => "TranslationError"
  | cycle _ => "CyclicDependencyError"
  | settings _ => "ConfigError"
  | depth => "RecursionError"
  | other name _ => name

/-- The text of a fault in messages. -/
def text : Fault → String
  | missingKey key => Text.quoted key
  | badValue text => text
  | badType text => text
  | badPart text => text
  | tooLarge text => text
  | badDocument text => text
  | fileSystem _ text => text
  | network _ text => text
  | metabase status detail _ => "Metabase API error " ++ status.shown ++ ": " ++ detail.shown
  | oracle text => text
  | oracleBusy text => text
  | unrendered text => text
  | cycle cards => "Cyclic dependency detected among cards: " ++ Json.shownList cards
  | settings text => text
  | depth => "maximum recursion depth exceeded"
  | other _ text => text

/-- The name and the text of a fault. -/
def message (f : Fault) : String := f.name ++ ": " ++ f.text

/-- Whether the oracle failed, for whatever reason. -/
def isOracle : Fault → Bool
  | oracle _ => true
  | oracleBusy _ => true
  | _ => false

/-- Whether the oracle was asked too often. -/
def isBusy : Fault → Bool
  | oracleBusy _ => true
  | _ => false

/-- Whether the operating system refused, files and network connections alike. -/
def isSystem : Fault → Bool
  | fileSystem .. => true
  | network .. => true
  | _ => false

/-- Whether a value did not convert; a text that is not a document counts. -/
def isBadValue : Fault → Bool
  | badValue _ => true
  | badDocument _ => true
  | _ => false

/-- Whether Metabase answered with an error. -/
def isMetabase : Fault → Bool
  | metabase .. => true
  | _ => false

end Fault


end CardTransfer
