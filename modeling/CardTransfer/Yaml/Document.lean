import CardTransfer.Json.Printer
import CardTransfer.Yaml.Node
import CardTransfer.Yaml.Scalar

/-!
# Reading settings documents

A settings document is a tree of scalars, sequences and mappings, and stands for a value: scalars for
what they spell, sequences for lists, mappings for objects. Keys must be scalars; one that is no text
is the text that it has in JSON. Of several equal keys the last gives the value and the first the place.

The value of a key `<<` is a mapping or a list of mappings whose entries are merged: the mapping has
them too, in front of its own, and its own win. Of the mappings in a list the first wins.

A document may be wrong in several places. Then the outermost of them counts, and of several equally
deep ones the first.
-/

namespace CardTransfer
namespace Yaml

/-- What is wrong with a document, and how deep. -/
structure Misfit where
  depth : Nat
  fault : Fault

/-- The outer one of two misfits, or the first. -/
def Misfit.outer (a b : Misfit) : Misfit := if b.depth < a.depth then b else a

/-- Two parts of a document, or what is wrong with them. -/
def both {α β γ : Type} (f : α → β → γ) (a : Except Misfit α) (b : Except Misfit β) :
    Except Misfit γ :=
  match a, b with
  | .ok a, .ok b => .ok (f a b)
  | .error m, .ok _ => .error m
  | .ok _, .error n => .error n
  | .error m, .error n => .error (m.outer n)

/-- Whether a node is a key of a kind. -/
def Node.isKey (k : Kind) : Node → Bool
  | .scalar tag isPlain text => Kind.ofScalar tag isPlain text == k
  | _ => false

/-- The fault of what cannot be merged. -/
def notMergeable : Fault := unfit "expected a mapping or list of mappings for merging"

mutual

/-- The entries of a mapping, the merged ones first. `fuel` bounds the depth. -/
def mergedEntries : Nat → List (Node × Node) → Except Fault (List (Node × Node))
  | 0, _ => .error notMergeable
  | fuel + 1, entries => do
    let isMerge := fun (e : Node × Node) => e.1.isKey .merge
    let merged ← mergedValues fuel ((entries.filter isMerge).map (·.2))
    return merged ++ entries.filter fun e => !isMerge e

/-- The entries that the values of keys `<<` merge. -/
def mergedValues : Nat → List Node → Except Fault (List (Node × Node))
  | 0, _ => .error notMergeable
  | _ + 1, [] => .ok []
  | fuel + 1, v :: vs => do
    let entries ←
      match v with
      | .mapping _ entries => mergedEntries fuel entries
      | .sequence _ items => do
        let parts ← items.mapM fun
          | .mapping _ entries => mergedEntries fuel entries
          | _ => throw notMergeable
        pure parts.reverse.flatten
      | .scalar .. => throw notMergeable
    return entries ++ (← mergedValues fuel vs)

end

/-- A key as text. -/
def keyText (key : Json) : String :=
  match key with
  | .str s => s
  | .moment s _ => s
  | other => other.write .line

/-- The key of an entry in a mapping `depth` levels deep. -/
def keyOf (depth : Nat) (n : Node) : Except Misfit Json :=
  match n with
  | .scalar tag isPlain text =>
    let kind := Kind.ofScalar tag isPlain text
    ((if kind == .default then Kind.text else kind).value text).mapError (⟨depth, ·⟩)
  | _ => .error ⟨depth, unfit "found unhashable key"⟩

/-- Whether a tag is that of sequences, or none. -/
def isSequenceTag (tag : Option String) : Bool :=
  tag == none || tag == some "!" || tag == some "!!seq"

/-- Whether a tag is that of mappings, or none. -/
def isMappingTag (tag : Option String) : Bool :=
  tag == none || tag == some "!" || tag == some "!!map"

mutual

/-- The value of a node in a collection `depth` levels deep. `fuel` bounds the depth. -/
def valueOf : Nat → Nat → Node → Except Misfit Json
  | 0, depth, _ => .error ⟨depth, unfit "expected a shallower document"⟩
  | fuel + 1, depth, n =>
    match n with
    | .scalar tag isPlain text =>
      ((Kind.ofScalar tag isPlain text).value text).mapError (⟨depth, ·⟩)
    | .sequence tag items =>
      if isSequenceTag tag then (itemsOf fuel (depth + 1) items).map .arr
      else .error ⟨depth, unfit "expected another node"⟩
    | .mapping tag entries =>
      if isMappingTag tag then
        match mergedEntries (fuel + 1) entries with
        | .error f => .error ⟨depth + 1, f⟩
        | .ok entries => (membersOf fuel (depth + 1) entries).map fun ms =>
            .obj (Members.ofList ((IdMap.ofList ms).map fun p => (keyText p.1, p.2)))
      else .error ⟨depth, unfit "expected another node"⟩

/-- The values of the items of a sequence. -/
def itemsOf : Nat → Nat → List Node → Except Misfit (List Json)
  | 0, depth, _ => .error ⟨depth, unfit "expected a shallower document"⟩
  | _ + 1, _, [] => .ok []
  | fuel + 1, depth, n :: ns => both (· :: ·) (valueOf fuel depth n) (itemsOf fuel depth ns)

/-- The keys and values of the entries of a mapping. -/
def membersOf : Nat → Nat → List (Node × Node) → Except Misfit (List (Json × Json))
  | 0, depth, _ => .error ⟨depth, unfit "expected a shallower document"⟩
  | _ + 1, _, [] => .ok []
  | fuel + 1, depth, (k, v) :: rest =>
    both (· :: ·) (both Prod.mk (keyOf depth k) (valueOf fuel depth v)) (membersOf fuel depth rest)

end

/-- The value of a document; null for an empty one. -/
def parse (text : String) : Except Fault Json := do
  match ← Node.ofText text with
  | none => return .null
  | some n => (valueOf (text.length + 2) 0 n).mapError (·.fault)

end Yaml
end CardTransfer
