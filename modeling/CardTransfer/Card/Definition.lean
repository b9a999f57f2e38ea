import CardTransfer.Card.Basic

/-!
# Definitions of new cards

A transferred card is defined by its name, description, display, query, drawing settings and
collection. The name gets a suffix, unless it ends with it already. Settings that name fields are
left behind, because the fields have other ids and names on the target; only the top level of the
settings is searched for them. A given collection takes the place of the card's own.
-/

namespace CardTransfer

/-- Settings that point at fields. -/
def fieldSettings : List String :=
  ["column_settings", "table.columns", "graph.dimensions", "graph.metrics", "click_behavior"]

/-- Members without the settings that point at fields. -/
def withoutFieldSettings (ms : Members) : Members :=
  ms.filter fun m => !fieldSettings.contains m.1

/-- No setting that points at fields is left. -/
theorem get?_withoutFieldSettings (ms : Members) {key : String} (h : key ∈ fieldSettings) :
    Members.get? (withoutFieldSettings ms) key = none := by
  unfold Members.get? withoutFieldSettings
  rw [List.lookup_eq_none_iff]
  intro p hp
  rw [List.mem_filter] at hp
  rw [bne_iff_ne]
  rintro rfl
  simp [h] at hp

/-- Drawing settings that hold on the target too. -/
def cleanSettings (settings : Json) : Except Fault Json :=
  match settings.orElse (.obj []) with
  | .obj ms => .ok (.obj (withoutFieldSettings ms))
  | .arr _ => .error (.badType "pop expected at most 1 argument, got 2")
  | other => .error (other.lacks "pop")

/-- Whether a text ends with a suffix. -/
def endsWith (text suffix : String) : Bool := suffix.toList.isSuffixOf text.toList

/-- A name with a suffix, once. -/
def suffixedName (name suffix : Json) : Except Fault Json :=
  if suffix.truthy then do
    let text ← name.textFor "endswith"
    match suffix with
    | .str s => return .str (if endsWith text s then text else text ++ " " ++ s)
    | other =>
      throw (.badType ("endswith first arg must be str or a tuple of str, not " ++ other.kindName))
  else .ok name

/-- The definition of the card that takes the place of `card` on the target, with the query `query`,
in the collection `collection` unless that is null. -/
def Card.definition (card : Card) (query suffix collection : Json) : Except Fault Members := do
  let name ← suffixedName card.name suffix
  let settings ← cleanSettings card.settings
  return [("name", name), ("description", card.description), ("display", card.display),
    ("dataset_query", query), ("visualization_settings", settings),
    ("collection_id", (collection.toOption).getD card.collection)]

end CardTransfer
