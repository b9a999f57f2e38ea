import CardTransfer.Catalog.Correspondence
import CardTransfer.Catalog.Ranking

/-!
# Suggested and confirmed mappings

For every source table whose mapping is neither confirmed nor ignored, the best candidate is
suggested, with a confidence of its score, at most 1, and the first three candidates as
alternatives. A suggestion is confirmed without a question if its confidence is above a threshold.
A mapping set by hand is confirmed at once.
-/

namespace CardTransfer

/-- How many alternatives a suggestion keeps. -/
def alternativeCount : Nat := 3

/-- The threshold for confirming without a question, unless another is given. -/
def usualThreshold : Float := 0.94

/-- A score as a confidence. -/
def confidenceOf (score : Float) : Float := if 1.0 < score then 1.0 else score

namespace TableMapping

/-- The suggestion for a table, from its candidates. -/
def suggestion (t : Table) (ranked : List Ranked) : TableMapping where
  source := t.id
  sourceName := t.qualifiedName
  suggested := (ranked.head?.map (·.id)).getD .null
  suggestedName := (ranked.head?.map (·.name)).getD (.str "")
  confidence := (ranked.head?.map fun r => confidenceOf r.score).getD 0.0
  alternatives := (ranked.take alternativeCount).map (·.candidate)
  confirmed := false
  final := .null
  ignored := false

/-- Whether a suggestion is confirmed without a question. -/
def clears (threshold : Number) (m : TableMapping) : Bool :=
  !m.confirmed && !m.ignored && m.suggested.toOption.isSome && threshold.lt (.float m.confidence)

/-- A mapping with its suggestion confirmed. -/
def confirm (m : TableMapping) : TableMapping := { m with confirmed := true, final := m.suggested }

/-- The stored mappings that are confirmed without a question. A threshold that is no number is a
fault as soon as one has to be compared with it. -/
def autoConfirmed (threshold : Json) (rows : List TableMapping) :
    Except Fault (List TableMapping) :=
  let open_ := rows.filter fun m => !m.confirmed && !m.ignored && m.suggested.toOption.isSome
  if open_.isEmpty then .ok []
  else do
    let t ← threshold.comparand ">" "float"
    return (rows.filter (clears t)).map confirm

end TableMapping

namespace Correspondence

variable (c : Correspondence)

/-- The candidates for a source table. -/
def rank (t : Table) : Except Fault (List Ranked) := rankTables t c.target.tables

/-- Whether the mapping of a table has been decided. -/
def isDecided (stored : IdMap TableMapping) (t : Table) : Bool :=
  (IdMap.get? stored t.id).any fun m => m.confirmed || m.ignored

/-- The suggestions for the source tables that are not decided. -/
def suggestTables (rows : List TableMapping) : Except Fault (List TableMapping) := do
  let stored := IdMap.ofList (← rows.mapM fun m => do return (← m.source.asKey, m))
  (c.source.tables.filter fun t => !isDecided stored t).mapM fun t => do
    return TableMapping.suggestion t (← c.rank t)

/-- The mapping of a table set by hand; it keeps the alternatives of the stored one. -/
def manualTable (source target : Json) (rows : List TableMapping) : TableMapping where
  source
  sourceName := ((c.source.tableById? source).map (·.qualifiedName)).getD (.str "")
  suggested := target
  suggestedName := ((c.target.tableById? target).map (·.qualifiedName)).getD (.str "")
  confidence := 1.0
  alternatives := ((rows.find? (·.source.sameId source)).map (·.alternatives)).getD []
  confirmed := true
  final := target
  ignored := false

/-- The confirmed mapping of a field. -/
def confirmedField (source target : Json) (method : MappingMethod) (confidence : Json) :
    FieldMapping where
  source
  sourceName := ((c.source.fieldById? source).map (·.name)).getD (.str "")
  sourceTable := ((c.source.fieldById? source).map (·.table)).getD .null
  suggested := target
  suggestedName := ((c.target.fieldById? target).map (·.name)).getD (.str "")
  targetTable := ((c.target.fieldById? target).map (·.table)).getD .null
  confidence
  method
  confirmed := true
  final := target

/-- The correspondence with a field mapped. -/
def withField (source target : Json) : Correspondence :=
  { c with
    fields := IdMap.insert c.fields source target
    unmatchedFields := c.unmatchedFields.filter fun f => !f.id.sameId source }

end Correspondence
end CardTransfer
