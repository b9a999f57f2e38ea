import CardTransfer.Card.Reference
import CardTransfer.Mbql.Clause

/-!
# Structured queries

A structured query is a document with a database and an inner query. An inner query is an object;
its members are read by their keys:

| key | read as |
| --- | --- |
| `source-table` | the source: a card for `card__` and digits, a table otherwise |
| `source-query`, if an object | the source: another inner query |
| `joins`, if a list | inner queries |
| `filter`, `aggregation`, `breakout`, `order-by`, `fields`, `condition` | clauses |
| `expressions`, if an object | clauses by name |
| others | extra members, kept as they are |

A join that is no object is kept as the extra member `__raw__`, and an inner query with an extra
member of that key is written as the value under it. Otherwise the members are written in the order
of their keys; of two sources the later one is kept, and written in the place of the first.
-/

namespace CardTransfer

mutual

/-- Where the rows of a query come from. -/
inductive Source where
  | absent
  | table (id : Json)
  | card (id : Json)
  | query (inner : InnerQuery)

/-- An inner query. -/
inductive InnerQuery where
  | mk (source : Source) (joins : List InnerQuery) (clauses : List (String × Clause))
      (expressions : List (String × Clause)) (extra : Members) (keys : List String)

end

namespace Source

/-- The source under `source-table`. -/
def ofTable (v : Json) : Source :=
  match v with
  | .str s =>
    match namedCard? s with
    | some n => .card (.int n)
    | none => .table v
  | _ => .table v

/-- The text that names a card as a source. -/
def cardText (id : Json) : String := "card__" ++ id.shown

end Source

namespace InnerQuery

/-- The key of the member that stands for a whole inner query. -/
def rawKey : String := "__raw__"

/-- Keys of members that hold a clause. -/
def clauseKeys : List String :=
  ["filter", "aggregation", "breakout", "order-by", "fields", "condition"]

/-- Whether a member is read as a part of its own. -/
def isRead (member : String × Json) : Bool :=
  match member with
  | ("source-table", _) => true
  | ("source-query", .obj _) => true
  | ("joins", .arr _) => true
  | ("expressions", .obj _) => true
  | (key, _) => clauseKeys.contains key

/-- The clauses among the members of an inner query. -/
def clausesOf (ms : Members) : List (String × Clause) :=
  (ms.filter fun m => clauseKeys.contains m.1).map fun m => (m.1, Clause.ofJson m.2)

/-- The named expressions among the members of an inner query. -/
def expressionsOf (ms : Members) : List (String × Clause) :=
  match Members.get? ms "expressions" with
  | some (.obj es) => es.map fun e => (e.1, Clause.ofJson e.2)
  | _ => []

/-- The members that are kept as they are. -/
def extraOf (ms : Members) : Members := ms.filter fun m => !isRead m

/-- An inner query of some members, with its source and joins. -/
def assemble (ms : Members) (source : Source) (joins : List InnerQuery) : InnerQuery :=
  .mk source joins (clausesOf ms) (expressionsOf ms) (extraOf ms) (ms.map (·.1))

/-- The inner query that stands for a document of another kind. -/
def raw (v : Json) : InnerQuery := .mk .absent [] [] [] [(rawKey, v)] []

/-- The inner query without any member. -/
def empty : InnerQuery := assemble [] .absent []

mutual

/-- The source among the members of an inner query: the last one there is. -/
def sourceOf : List (String × Json) → Source
  | [] => .absent
  | (key, v) :: rest =>
    match sourceOf rest with
    | .absent =>
      if key == "source-table" then Source.ofTable v
      else if key == "source-query" then subquery v
      else .absent
    | source => source

/-- The source under `source-query`. -/
def subquery : Json → Source
  | .obj ms => .query (assemble ms (sourceOf ms) (joinsOf ms))
  | _ => .absent

/-- The joins among the members of an inner query. -/
def joinsOf : List (String × Json) → List InnerQuery
  | [] => []
  | (key, v) :: rest => if key == "joins" then joinList v else joinsOf rest

/-- The joins under `joins`. -/
def joinList : Json → List InnerQuery
  | .arr items => joinItems items
  | _ => []

/-- The joins in a list. -/
def joinItems : List Json → List InnerQuery
  | [] => []
  | v :: vs => join v :: joinItems vs

/-- A join. -/
def join : Json → InnerQuery
  | .obj ms => assemble ms (sourceOf ms) (joinsOf ms)
  | v => raw v

end

mutual

/-- Refuses the members of an inner query if a text under `source-table` names a card by too many
digits, there or in an inner query that is read as a part of it. -/
def checkSources : List (String × Json) → Except Fault Unit
  | [] => .ok ()
  | (key, v) :: rest => do
    if key == "source-table" then
      match (v.str?).bind excessDigits? with
      | some n => throw (tooManyDigits n)
      | none => pure ()
    else if key == "source-query" then checkInner v
    else if key == "joins" then checkJoins v
    checkSources rest

/-- Refuses an inner query for a source that is refused. -/
def checkInner : Json → Except Fault Unit
  | .obj ms => checkSources ms
  | _ => .ok ()

/-- Refuses joins for a source that is refused. -/
def checkJoins : Json → Except Fault Unit
  | .arr items => checkJoinItems items
  | _ => .ok ()

/-- Refuses the joins in a list for a source that is refused. -/
def checkJoinItems : List Json → Except Fault Unit
  | [] => .ok ()
  | v :: vs => do
    checkInner v
    checkJoinItems vs

end

/-- The inner query of some members. -/
def ofMembers (ms : Members) : InnerQuery := assemble ms (sourceOf ms) (joinsOf ms)

/-- The inner query that a document describes; the empty one if it is no object. -/
def ofJson (v : Json) : InnerQuery :=
  match v with
  | .obj ms => ofMembers ms
  | _ => empty

/-- Named clauses as the members of an object. -/
def clauseMembers (clauses : List (String × Clause)) : Members :=
  clauses.map fun c => (c.1, c.2.toJson)

/-- The member that is written for a key of an inner query, given the member for its source, its
joins, clauses, expressions and extra members. -/
def writeKey (source : Option (String × Json)) (joins : List Json) (clauses expressions extra : Members)
    (key : String) : Option (String × Json) :=
  let kept := (Members.get? extra key).map fun v => (key, v)
  if key == "source-table" || key == "source-query" then source.orElse fun _ => kept
  else if key == "joins" then kept.orElse fun _ => some (key, .arr joins)
  else if clauseKeys.contains key then (Members.get? clauses key).map fun v => (key, v)
  else if key == "expressions" then kept.orElse fun _ => some (key, .obj expressions)
  else kept

mutual

/-- An inner query as a document. -/
def toJson : InnerQuery → Json
  | .mk source joins clauses expressions extra keys =>
    match Members.get? extra rawKey with
    | some v => v
    | none =>
      .obj (Members.ofList (keys.filterMap (writeKey (sourceMember? source) (joinsToJson joins)
        (clauseMembers clauses) (clauseMembers expressions) extra)))

/-- The member for a source. -/
def sourceMember? : Source → Option (String × Json)
  | .absent => none
  | .table id => some ("source-table", id)
  | .card id => some ("source-table", .str (Source.cardText id))
  | .query inner => some ("source-query", toJson inner)

/-- Joins as documents. -/
def joinsToJson : List InnerQuery → List Json
  | [] => []
  | q :: qs => toJson q :: joinsToJson qs

end

end InnerQuery

/-- A structured query. -/
structure StructuredQuery where
  database : Json
  query : InnerQuery
  extra : Members

namespace StructuredQuery

/-- The structured query of some members. -/
def ofMembers (ms : Members) : StructuredQuery where
  database := Json.ofOption (Members.get? ms "database")
  query := InnerQuery.ofJson (Json.ofOption (Members.get? ms "query"))
  extra := ms.filter fun m => m.1 != "database" && m.1 != "query"

/-- Refuses the members of a structured query if the number of a card among its sources has too many
digits. -/
def check (ms : Members) : Except Fault Unit :=
  InnerQuery.checkInner (Json.ofOption (Members.get? ms "query"))

/-- A structured query as the members of an object: the database, the extra members, the inner
query. -/
def toMembers (q : StructuredQuery) : Members :=
  ("database", q.database) :: q.extra ++ [("query", q.query.toJson)]

end StructuredQuery
end CardTransfer
