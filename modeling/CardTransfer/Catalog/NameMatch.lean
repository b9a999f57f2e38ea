import CardTransfer.Text.Blank
import CardTransfer.Text.LowerCase
import CardTransfer.Text.Scan

/-!
# How well two names agree

Tables and fields have a name and a display name. A candidate agrees with a source in the first of
these ways that holds:

| agreement | condition | score |
| --- | --- | ---: |
| exact | names equal in lower case, not empty | 1.0 |
| display | display names equal in lower case, not empty | 0.95 |
| normalized | names equal in lower case without blanks and underscores, not empty | 0.92 |
| partial | one name holds the other in lower case, neither empty | 0.75 |
| none | otherwise | 0.0 |
-/

namespace CardTransfer

/-- In which way two names agree. -/
inductive Agreement where
  | exact
  | display
  | normalized
  | partialName
  | none
  deriving DecidableEq, Repr

namespace Agreement

/-- How strongly names agree. -/
def score : Agreement → Float
  | exact => 1.0
  | display => 0.95
  | normalized => 0.92
  | partialName => 0.75
  | none => 0.0

/-- The agreement in words. -/
def reason : Agreement → String
  | exact => "exact name match"
  | display => "exact display name match"
  | normalized => "normalized name match"
  | partialName => "partial name overlap"
  | none => ""

end Agreement

/-- The name and display name of a table or field. -/
structure Naming where
  name : String
  display : String
  deriving DecidableEq, Repr

namespace Naming

/-- A name in lower case. -/
def lowerName (s : String) : List Char := Text.lower s.toList

/-- A name in lower case, without blanks and underscores. -/
def normalize (s : String) : List Char :=
  (lowerName s).filter fun c => !(Text.isBlank c || c == '_')

/-- How a candidate agrees with a source. -/
def agreement (source candidate : Naming) : Agreement :=
  let a := lowerName source.name
  let b := lowerName candidate.name
  let c := lowerName source.display
  let d := lowerName candidate.display
  let m := normalize source.name
  let n := normalize candidate.name
  if !a.isEmpty && a == b then .exact
  else if !c.isEmpty && c == d then .display
  else if !m.isEmpty && m == n then .normalized
  else if !a.isEmpty && !b.isEmpty && (Text.hasPart a b || Text.hasPart b a) then .partialName
  else .none

end Naming
end CardTransfer
