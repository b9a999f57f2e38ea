import CardTransfer.Settings.Basic
import CardTransfer.Yaml.Document

/-!
# Reading settings

A settings file is a document in block or flow style; an empty one counts as the empty object.
-/

namespace CardTransfer
namespace Settings

/-- The settings in the text of a file. -/
def ofText (env : Environment) (text : String) : Except Fault Settings := do
  ofDocument env ((← Yaml.parse text).orElse (.obj []))

end Settings
end CardTransfer
