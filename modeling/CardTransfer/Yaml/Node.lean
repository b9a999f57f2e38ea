import CardTransfer.Yaml.Layout

/-!
# Documents as trees

A document is a tree of scalars, sequences and mappings, each with the tag that it carries, if any.
The grammar takes the tokens of a text in turn:

* a node is a reference, or an anchor and a tag in either order and then a scalar or a collection;
  after an anchor or a tag it may be empty;
* collections in block style stand between the tokens that open and close them; the entries of a
  sequence that is a value or a key may also stand in the column of the mapping;
* in braces a key may lack its value, and between brackets a key and its value are a mapping of one
  entry;
* where a node may be left out there is an empty plain scalar.

An anchor may not be given twice, and what it marks may not hold a reference to it.
-/

namespace CardTransfer
namespace Yaml

/-- A document or a part of one. A scalar is plain if its text may spell something else than a text. -/
inductive Node where
  | scalar (tag : Option String) (isPlain : Bool) (text : String)
  | sequence (tag : Option String) (items : List Node)
  | mapping (tag : Option String) (entries : List (Node × Node))
  deriving Inhabited

namespace Node

/-- What stands where a node is left out. -/
def empty : Node := scalar none true ""

end Node

/-- What is left to be read, what handles mean, and what anchors mark; nothing while the part that
an anchor marks is still being read. -/
structure Outline where
  tokens : List Token
  handles : List (String × String)
  anchors : List (String × Option Node)

namespace Outline

/-- The meaning of handles that no directive gives. -/
def usualHandles : List (String × String) := [("!", "!"), ("!!", "!!")]

/-- Reads a part of a document. -/
abbrev Reading := StateT Outline (Except Fault)

/-- The next token; none at the end of the text. -/
def peek : Reading (Option Token) := do
  match (← get).tokens with
  | [] => return none
  | .broken f :: _ => throw f
  | t :: _ => return some t

/-- Goes past a token. -/
def advance : Reading Unit := modify fun s => { s with tokens := s.tokens.drop 1 }

/-- The fault of a token that may not stand where it is. -/
def unexpected {α : Type} (expected : String) : Reading α := throw (misplaced ("expected " ++ expected))

/-- A tag with what its handle means. -/
def meaning (t : Tag) : Reading String := do
  match t.handle with
  | none => return t.suffix
  | some handle =>
    match (← get).handles.lookup handle with
    | some m => return m ++ t.suffix
    | none => throw (misplaced "found undefined tag handle")

/-- An anchor and a tag in either order, either of which may be missing. -/
def properties : Reading (Option String × Option Tag) := do
  let anchor : Reading (Option String) := do
    match ← peek with
    | some (.anchor name) => advance; return some name
    | _ => return none
  let tag : Reading (Option Tag) := do
    match ← peek with
    | some (.tag t) => advance; return some t
    | _ => return none
  match ← peek with
  | some (.anchor _) => return (← anchor, ← tag)
  | _ =>
    let t ← tag
    if t.isSome then return (← anchor, t) else return (none, none)

/-- Notes that the part marked by an anchor begins. -/
def begin? (anchor : Option String) : Reading Unit := do
  match anchor with
  | none => return
  | some name =>
    if ((← get).anchors.lookup name).isSome then throw (dangling "found duplicate anchor")
    modify fun s => { s with anchors := (name, none) :: s.anchors }

/-- Notes what an anchor marks. -/
def define (anchor : Option String) (n : Node) : Reading Node := do
  match anchor with
  | none => return n
  | some name =>
    modify fun s => { s with anchors := (name, some n) :: s.anchors }
    return n

/-- What an anchor marks. -/
def referenced (name : String) : Reading Node := do
  match (← get).anchors.lookup name with
  | some (some n) => return n
  | _ => throw (dangling "found undefined alias")

/-- Where a node stands. -/
inductive Role where
  /-- Between braces or brackets. -/
  | flow
  /-- In a sequence in block style, or the whole document. -/
  | block
  /-- A key or a value of a mapping in block style. -/
  | member
  deriving DecidableEq, Repr

mutual

/-- A node. `fuel` bounds the number of parts still to be read. -/
def node (role : Role) : Nat → Reading Node
  | 0 => unexpected "a shorter document"
  | fuel + 1 => do
    match ← peek with
    | some (.reference name) => advance; referenced name
    | _ =>
      let (anchor, t) ← properties
      let tag ← t.mapM meaning
      let collection (content : Reading Node) : Reading Node := do
        begin? anchor
        define anchor (← content)
      match ← peek, role with
      | some .entry, .member =>
        collection (return .sequence tag (← looseItems fuel []))
      | some (.scalar text isPlain), _ =>
        advance
        collection (return .scalar tag isPlain text)
      | some .flowSequence, _ =>
        collection (do advance; return .sequence tag (← flowItems fuel true []))
      | some .flowMapping, _ =>
        collection (do advance; return .mapping tag (← flowEntries fuel true []))
      | next, role =>
        match next, role == .flow with
        | some .blockSequence, false =>
          collection (do advance; return .sequence tag (← blockItems fuel []))
        | some .blockMapping, false =>
          collection (do advance; return .mapping tag (← blockEntries fuel []))
        | _, _ =>
          if anchor.isSome || tag.isSome then collection (return .scalar tag true "")
          else unexpected "the node content"

/-- A node, unless one of the tokens that may follow it comes next. -/
def nodeUnless (role : Role) (stops : Option Token → Bool) : Nat → Reading Node
  | 0 => unexpected "a shorter document"
  | fuel + 1 => do
    if stops (← peek) then return .empty else node role fuel

/-- The items of a sequence in block style. -/
def blockItems : Nat → List Node → Reading (List Node)
  | 0, _ => unexpected "a shorter document"
  | fuel + 1, items => do
    match ← peek with
    | some .entry =>
      advance
      let n ← nodeUnless .block (fun | some .entry | some .blockEnd => true | _ => false) fuel
      blockItems fuel (n :: items)
    | some .blockEnd => advance; return items.reverse
    | _ => unexpected "<block end>"

/-- The items of a sequence in the column of a mapping around it. -/
def looseItems : Nat → List Node → Reading (List Node)
  | 0, _ => unexpected "a shorter document"
  | fuel + 1, items => do
    match ← peek with
    | some .entry =>
      advance
      let n ← nodeUnless .block
        (fun | some .entry | some .key | some .value | some .blockEnd => true | _ => false) fuel
      looseItems fuel (n :: items)
    | _ => return items.reverse

/-- The entries of a mapping in block style. -/
def blockEntries : Nat → List (Node × Node) → Reading (List (Node × Node))
  | 0, _ => unexpected "a shorter document"
  | fuel + 1, entries => do
    let stops : Option Token → Bool := fun
      | some .key | some .value | some .blockEnd => true
      | _ => false
    match ← peek with
    | some .key =>
      advance
      let k ← nodeUnless .member stops fuel
      let v ←
        match ← peek with
        | some .value => do
          advance
          nodeUnless .member stops fuel
        | _ => pure .empty
      blockEntries fuel ((k, v) :: entries)
    | some .blockEnd => advance; return entries.reverse
    | _ => unexpected "<block end>"

/-- What follows a colon between braces or brackets, if there is one. -/
def flowValue (close : Option Token → Bool) : Nat → Reading Node
  | 0 => unexpected "a shorter document"
  | fuel + 1 => do
    match ← peek with
    | some .value =>
      advance
      nodeUnless .flow (fun t => close t || t matches some .comma) fuel
    | _ => return .empty

/-- The items of a sequence between brackets; `first` tells that none has been read. -/
def flowItems : Nat → (first : Bool) → List Node → Reading (List Node)
  | 0, _, _ => unexpected "a shorter document"
  | fuel + 1, first, items => do
    let close : Option Token → Bool := fun
      | some .flowSequenceEnd => true
      | _ => false
    if close (← peek) then advance; return items.reverse
    if !first then
      match ← peek with
      | some .comma => advance
      | _ => unexpected "',' or ']'"
    match ← peek with
    | some .key =>
      advance
      let k ← nodeUnless .flow
        (fun t => close t || t matches some .comma || t matches some .value) fuel
      let v ← flowValue close fuel
      flowItems fuel false (.mapping none [(k, v)] :: items)
    | some .flowSequenceEnd => advance; return items.reverse
    | _ =>
      let n ← node .flow fuel
      flowItems fuel false (n :: items)

/-- The entries of a mapping between braces; `first` tells that none has been read. -/
def flowEntries : Nat → (first : Bool) → List (Node × Node) → Reading (List (Node × Node))
  | 0, _, _ => unexpected "a shorter document"
  | fuel + 1, first, entries => do
    let close : Option Token → Bool := fun
      | some .flowMappingEnd => true
      | _ => false
    if close (← peek) then advance; return entries.reverse
    if !first then
      match ← peek with
      | some .comma => advance
      | _ => unexpected "',' or '\x7d'"
    match ← peek with
    | some .key =>
      advance
      let k ← nodeUnless .flow
        (fun t => close t || t matches some .comma || t matches some .value) fuel
      let v ← flowValue close fuel
      flowEntries fuel false ((k, v) :: entries)
    | some .flowMappingEnd => advance; return entries.reverse
    | _ =>
      let k ← node .flow fuel
      flowEntries fuel false ((k, .empty) :: entries)

end

/-- Goes past the marks of ended documents. -/
def passDocumentEnds : Nat → Reading Unit
  | 0 => return
  | fuel + 1 => do
    match ← peek with
    | some .documentEnd => advance; passDocumentEnds fuel
    | _ => return

/-- The directives in front of a document; `version` tells that one gave the version. -/
def directives : Nat → (version : Bool) → List (String × String) → Reading Unit
  | 0, _, _ => return
  | fuel + 1, version, handles => do
    match ← peek with
    | some (.directive d) =>
      advance
      match d with
      | .version major =>
        if version then throw (misplaced "found duplicate YAML directive")
        if major != 1 then throw (misplaced "found incompatible YAML document")
        directives fuel true handles
      | .handle handle meaning =>
        if (handles.lookup handle).isSome then throw (misplaced "duplicate tag handle")
        directives fuel version ((handle, meaning) :: handles)
      | .other => directives fuel version handles
    | _ => modify fun s => { s with handles := handles ++ usualHandles }

/-- The marked start of a document, if the text does not end here. -/
def documentStart (fuel : Nat) : Reading Bool := do
  passDocumentEnds fuel
  match ← peek with
  | none => return false
  | some _ =>
    directives fuel false []
    match ← peek with
    | some .documentStart => advance; return true
    | _ => unexpected "'<document start>'"

/-- The only document of a text; none if the text holds none. -/
def document (fuel : Nat) : Reading (Option Node) := do
  let root ←
    match ← peek with
    | none | some (.directive _) | some .documentStart => do
      if ← documentStart fuel then
        let n ← nodeUnless .block (fun
          | none | some (.directive _) | some .documentStart | some .documentEnd => true
          | _ => false) fuel
        pure (some n)
      else pure none
    | _ => do
      modify fun s => { s with handles := usualHandles }
      let n ← node .block fuel
      pure (some n)
  match root with
  | none => return none
  | some n =>
    if ← documentStart fuel then throw (dangling "expected a single document in the stream")
    return some n

end Outline

/-- The document in a text; none if the text holds none. -/
def Node.ofText (text : String) : Except Fault (Option Node) :=
  let tokens := Token.ofText text
  (Outline.document (4 * tokens.length + 8)).run' ⟨tokens, Outline.usualHandles, []⟩

end Yaml
end CardTransfer
