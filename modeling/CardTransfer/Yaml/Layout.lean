import CardTransfer.Yaml.Mark
import CardTransfer.Yaml.Plain
import CardTransfer.Yaml.TextBlock

/-!
# From a text to its parts

The smallest parts of a document are told in the order of its text. In block style, where a collection has
no marks of its own, `blockSequence`, `blockMapping` and `blockEnd` stand where indentation opens and
closes one, and `key` stands in front of a key that is not marked as such. Two things are known only later than they are
needed, and so a part is held back until they are known:

* A scalar, a collection in braces or brackets, a name or a tag may turn out to be a key, by a colon
  on the same line at most 1024 characters on. What stands where a key may stand is a *candidate*;
  at a colon `key` is put in front of it, and if no mapping is open in its column also `blockMapping`.
* In block style a line that starts in an earlier column closes collections.

In block style a key may start where a line, an entry or an explicit key or value starts. What starts
in the column of an open collection there must be a key.
-/

namespace CardTransfer
namespace Yaml

/-- A smallest part of a document. -/
inductive Token where
  | directive (d : Directive)
  | documentStart
  | documentEnd
  | blockSequence
  | blockMapping
  | blockEnd
  | flowSequence
  | flowSequenceEnd
  | flowMapping
  | flowMappingEnd
  | comma
  | entry
  | key
  | value
  | reference (name : String)
  | anchor (name : String)
  | tag (t : Tag)
  /-- A scalar; a plain one may spell something else than a text. -/
  | scalar (text : String) (isPlain : Bool)
  /-- Where no further part can be told. -/
  | broken (f : Fault)

/-- What may turn out to be a key. -/
structure Candidate where
  /-- How many braces and brackets are open around it. -/
  depth : Nat
  /-- The number of the token it starts with. -/
  number : Nat
  required : Bool
  offset : Nat
  line : Nat
  column : Nat

/-- How far a text has been read. -/
structure Layout where
  place : Cursor
  /-- How many braces and brackets are open. -/
  depth : Nat
  /-- The columns of the open collections in block style, the innermost first. -/
  columns : List Nat
  keyAllowed : Bool
  candidates : List Candidate
  /-- Tokens that are held back. -/
  waiting : List Token
  /-- How many tokens have been passed on. -/
  passed : Nat
  finished : Bool

namespace Layout

/-- The start of a text. -/
def ofText (text : List Char) : Layout where
  place := Cursor.ofText text
  depth := 0
  columns := []
  keyAllowed := true
  candidates := []
  waiting := []
  passed := 0
  finished := false

/-- Whether braces or brackets are open. -/
def inFlow (s : Layout) : Bool := 0 < s.depth

/-- Adds a token. -/
def push (s : Layout) (t : Token) : Layout := { s with waiting := s.waiting ++ [t] }

/-- The fault of a candidate that had to be a key and is none. -/
def noColon : Fault := illegible "could not find expected ':'"

/-- Takes out the candidates that can no longer be keys. -/
def dropStale (s : Layout) : Except Fault Layout :=
  let isStale := fun (k : Candidate) => k.line != s.place.line || k.offset + 1024 < s.place.offset
  if s.candidates.any fun k => isStale k && k.required then .error noColon
  else .ok { s with candidates := s.candidates.filter fun k => !isStale k }

/-- Takes out the candidate among what is open now. -/
def dropCandidate (s : Layout) : Except Fault Layout :=
  if s.candidates.any fun k => k.depth == s.depth && k.required then .error noColon
  else .ok { s with candidates := s.candidates.filter fun k => k.depth != s.depth }

/-- Notes that what starts here may be a key, if a key may stand here. -/
def addCandidate (s : Layout) : Except Fault Layout :=
  if s.keyAllowed then do
    let s ← s.dropCandidate
    let k : Candidate := {
      depth := s.depth
      number := s.passed + s.waiting.length
      required := !s.inFlow && s.columns.head? == some s.place.column
      offset := s.place.offset
      line := s.place.line
      column := s.place.column }
    return { s with candidates := k :: s.candidates }
  else return s

/-- Closes the collections in block style that start after a column; all of them if there is no
column. -/
def close (s : Layout) (column? : Option Nat) : Layout :=
  if s.inFlow then s
  else
    let isInner := fun (c : Nat) => column?.all (· < c)
    let inner := s.columns.takeWhile isInner
    { s with
      columns := s.columns.drop inner.length
      waiting := s.waiting ++ List.replicate inner.length .blockEnd }

/-- Whether a collection in block style that starts in a column would be a new one. -/
def opensAt (s : Layout) (column : Nat) : Bool := s.columns.head?.all (· < column)

/-- Opens a collection in block style at the place, unless one is open in its column. -/
def openBlock (s : Layout) (t : Token) : Layout :=
  if s.opensAt s.place.column then { s.push t with columns := s.place.column :: s.columns } else s

/-- Adds a token that takes a number of characters. -/
def take (s : Layout) (n : Nat) (t : Token) : Layout :=
  { s.push t with place := s.place.skip n }

/-- Goes on to the next part. After a line end in block style a key may stand. -/
def skipGap : Nat → Layout → Layout
  | 0, s => s
  | fuel + 1, s =>
    let p := s.place.pass (· == ' ')
    let p := if p.rest.head? == some '#' then p.pass (!isBreak ·) else p
    match p.lineBreak? with
    | some (_, q) =>
      skipGap fuel { s with place := q, keyAllowed := s.keyAllowed || !s.inFlow }
    | none => { s with place := p }

/-- The end of the text. -/
def finish (s : Layout) : Except Fault Layout := do
  let s ← (s.close none).dropCandidate
  return { s with candidates := [], keyAllowed := false, finished := true }

/-- A line that starts with `%`. -/
def directive (s : Layout) : Except Fault Layout := do
  let s ← (s.close none).dropCandidate
  let (d, place) ← directiveAt s.place
  return { s.push (.directive d) with place, keyAllowed := false }

/-- Three hyphens or points between documents. -/
def documentMark (s : Layout) (t : Token) : Except Fault Layout := do
  let s ← (s.close none).dropCandidate
  return { s.take 3 t with keyAllowed := false }

/-- An opening brace or bracket. -/
def openFlow (s : Layout) (t : Token) : Except Fault Layout := do
  let s ← s.addCandidate
  return { s.take 1 t with depth := s.depth + 1, keyAllowed := true }

/-- A closing brace or bracket. -/
def closeFlow (s : Layout) (t : Token) : Except Fault Layout := do
  let s ← s.dropCandidate
  return { s.take 1 t with depth := s.depth - 1, keyAllowed := false }

/-- A comma between braces or brackets. -/
def comma (s : Layout) : Except Fault Layout := do
  let s ← s.dropCandidate
  return { s.take 1 .comma with keyAllowed := true }

/-- The hyphen of an entry. -/
def entry (s : Layout) : Except Fault Layout := do
  if !s.inFlow && !s.keyAllowed then throw (illegible "sequence entries are not allowed here")
  let s := if s.inFlow then s else s.openBlock .blockSequence
  let s ← s.dropCandidate
  return { s.take 1 .entry with keyAllowed := true }

/-- The question mark of an explicit key. -/
def explicitKey (s : Layout) : Except Fault Layout := do
  if !s.inFlow && !s.keyAllowed then throw (illegible "mapping keys are not allowed here")
  let s := if s.inFlow then s else s.openBlock .blockMapping
  let s ← s.dropCandidate
  return { s.take 1 .key with keyAllowed := !s.inFlow }

/-- The colon of a value: it makes the candidate a key, or belongs to an explicit one. -/
def colon (s : Layout) : Except Fault Layout :=
  match s.candidates.find? fun k => k.depth == s.depth with
  | some k =>
    let opens := !s.inFlow && s.opensAt k.column
    let marks := if opens then [.blockMapping, .key] else [.key]
    let (before, after) := s.waiting.splitAt (k.number - s.passed)
    let s := { s with
      candidates := s.candidates.filter fun k => k.depth != s.depth
      waiting := before ++ marks ++ after
      columns := if opens then k.column :: s.columns else s.columns
      keyAllowed := false }
    .ok (s.take 1 .value)
  | none => do
    if !s.inFlow && !s.keyAllowed then throw (illegible "mapping values are not allowed here")
    let s := if s.inFlow then s else s.openBlock .blockMapping
    let s ← s.dropCandidate
    return { s.take 1 .value with keyAllowed := !s.inFlow }

/-- A part that may be a key, read by `read`. -/
def part (s : Layout) (read : Cursor → Except Fault (Token × Cursor)) : Except Fault Layout := do
  let s ← s.addCandidate
  let (t, place) ← read s.place
  return { s.push t with place, keyAllowed := false }

/-- A plain scalar. -/
def plain (s : Layout) : Except Fault Layout := do
  let s ← s.addCandidate
  let indent := (s.columns.head?.map (· + 1)).getD 0
  let r := plainText s.inFlow indent s.place
  return { s.push (.scalar (String.ofList r.reversed.reverse) true) with
    place := r.place, keyAllowed := r.atLineStart }

/-- A block of lines. -/
def block (s : Layout) : Except Fault Layout := do
  let s ← s.dropCandidate
  let (text, place) ← blockText ((s.columns.head?.map (· + 1)).getD 1) s.place
  return { s.push (.scalar text false) with place, keyAllowed := true }

/-- Tells the next part. -/
def step (s : Layout) : Except Fault Layout := do
  let s := if s.place.offset == 0 && s.place.rest.head? == some '\ufeff'
    then { s with place := s.place.next } else s
  let s := skipGap (s.place.left + 1) s
  let s ← s.dropStale
  let s := s.close (some s.place.column)
  let cs := s.place.rest
  let atLineStart := s.place.column == 0
  if atLineStart && cs.head? == some '%' then s.directive
  else if atLineStart && atDocumentMark cs then
    s.documentMark (if cs.head? == some '-' then .documentStart else .documentEnd)
  else
    match cs with
    | [] => s.finish
    | c :: rest =>
      let blankNext := atBlank rest
      if c == '[' then s.openFlow .flowSequence
      else if c == '\x7b' then s.openFlow .flowMapping
      else if c == ']' then s.closeFlow .flowSequenceEnd
      else if c == '\x7d' then s.closeFlow .flowMappingEnd
      else if c == ',' then s.comma
      else if c == '-' && blankNext then s.entry
      else if c == '?' && (s.inFlow || blankNext) then s.explicitKey
      else if c == ':' && (s.inFlow || blankNext) then s.colon
      else if c == '*' then s.part fun p => (nameAt p).map fun r => (.reference r.1, r.2)
      else if c == '&' then s.part fun p => (nameAt p).map fun r => (.anchor r.1, r.2)
      else if c == '!' then s.part fun p => (tagAt p).map fun r => (.tag r.1, r.2)
      else if (c == '|' || c == '>') && !s.inFlow then s.block
      else if c == '\'' || c == '"' then
        s.part fun p => (quotedText p).map fun r => (.scalar r.1 false, r.2)
      else if startsPlain s.inFlow cs then s.plain
      else throw (illegible "found character that cannot start any token")

/-- Passes on the tokens that need not be held back. `settled` is what was passed on before, the
last first. -/
def release : Nat → List Token → Layout → List Token × Layout
  | 0, settled, s => (settled, s)
  | fuel + 1, settled, s =>
    match s.waiting with
    | [] => (settled, s)
    | t :: waiting =>
      let next := { s with waiting, passed := s.passed + 1 }
      if s.finished then release fuel (t :: settled) next
      else if s.candidates.any fun k => k.number == s.passed then (settled, s)
      else release fuel (t :: settled) next

/-- The tokens from a place on; `settled` are those before, the last first. -/
def tokensFrom : Nat → List Token → Layout → List Token
  | 0, settled, _ => settled.reverse
  | fuel + 1, settled, s =>
    let read := do
      let s ← s.step
      if s.finished || s.waiting.isEmpty then pure s else s.dropStale
    match read with
    | .error f => (.broken f :: settled).reverse
    | .ok s =>
      let (settled, s) := release (s.waiting.length + 1) settled s
      if s.finished then settled.reverse else tokensFrom fuel settled s

end Layout

/-- The tokens of a text. -/
def Token.ofText (text : String) : List Token :=
  let cs := text.toList
  if cs.all isAllowed then Layout.tokensFrom (cs.length + 2) [] (Layout.ofText cs)
  else [.broken unprintable]

end Yaml
end CardTransfer
