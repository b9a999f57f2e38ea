import CardTransfer.Catalog.Basic
import CardTransfer.Catalog.Mapping

/-!
# Ranking candidates

The candidates for a table or a field are those whose names agree with it at all, the best first.
Among equals a table of the same schema comes first, and then the smaller id. A table of the same
name in lower case gets a bonus on its score.
-/

namespace CardTransfer

/-- A candidate on its way into a ranking. -/
structure Ranked where
  score : Float
  sameSchema : Bool
  id : Json
  name : Json
  reason : String
  deriving Inhabited

namespace Ranked

/-- Whether `a` may stand before `b`: by score, then schema, then id. -/
def le (a b : Ranked) : Bool :=
  if b.score < a.score then true
  else if a.score < b.score then false
  else if a.sameSchema != b.sameSchema then a.sameSchema
  else Ids.le a.id b.id

/-- Whether only the ids of two candidates could tell which comes first, and they cannot. -/
def undecided (a b : Ranked) : Bool :=
  a.score == b.score && a.sameSchema == b.sameSchema && !a.id.same b.id &&
    (Ids.order? a.id b.id).isNone

/-- Candidates in the order of their rank; a fault if that is undecided for two of them. -/
def sort (candidates : List Ranked) : Except Fault (List Ranked) :=
  if candidates.any fun a => candidates.any (undecided a) then
    .error (.badType "'<' not supported between instances of ids")
  else .ok (Sorting.sort le candidates)

/-- The candidate as it is stored. -/
def candidate (r : Ranked) : Candidate := ⟨r.id, r.name, .float r.score, .str r.reason⟩

end Ranked

/-- A field as a candidate for another, if their names agree. -/
def rankField? (field candidate : Field) : Except Fault (Option Ranked) := do
  let agreement := (← field.naming).agreement (← candidate.naming)
  if agreement.score > 0 then
    return some ⟨agreement.score, true, candidate.id, candidate.name, agreement.reason⟩
  else return none

/-- The candidates for a field, best first. -/
def rankFields (field : Field) (candidates : List Field) : Except Fault (List Ranked) := do
  Ranked.sort ((← candidates.mapM (rankField? field)).filterMap id)

/-- What the score of a table rises by where the names are the same in lower case. -/
def nameBonus : Float := 0.3

/-- A table as a candidate for another, if their names agree. -/
def rankTable? (table candidate : Table) : Except Fault (Option Ranked) := do
  let source ← table.naming
  let target ← candidate.naming
  let agreement := source.agreement target
  let score :=
    if Naming.lowerName source.name == Naming.lowerName target.name then
      agreement.score + nameBonus
    else agreement.score
  if score <= 0 then return none
  else return some ⟨score, candidate.schema.same table.schema, candidate.id, candidate.qualifiedName,
    agreement.reason⟩

/-- The candidates for a table, best first. -/
def rankTables (table : Table) (candidates : List Table) : Except Fault (List Ranked) := do
  Ranked.sort ((← candidates.mapM (rankTable? table)).filterMap id)

end CardTransfer
