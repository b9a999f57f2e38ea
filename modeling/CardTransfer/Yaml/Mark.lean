import CardTransfer.Yaml.Quotation

/-!
# Names, tags and directives

A name after `&` marks a part of a document, after `*` it stands for the part so marked. A tag
after `!` tells the kind of a part:

| tag | handle | suffix |
| --- | --- | --- |
| `!` | none | `!` |
| `!<address>` | none | the address |
| `!suffix` | `!` | the suffix |
| `!!suffix`, `!name!suffix` | up to the second `!` | the rest |

A line that starts with `%` is a directive: `%YAML` and a version, or `%TAG`, a handle and what the
handle stands for. Other directives say nothing.
-/

namespace CardTransfer
namespace Yaml

/-- A tag as it is written. -/
structure Tag where
  handle : Option String
  suffix : String
  deriving DecidableEq, Repr, Inhabited

/-- A line that starts with `%`. -/
inductive Directive where
  | version (major : Nat)
  | handle (handle meaning : String)
  | other
  deriving DecidableEq, Repr

/-- The name after its first character, and the place after it. -/
def nameAt (p : Cursor) : Except Fault (String × Cursor) :=
  let (name, q) := p.next.row isNameChar
  let ends := atBlank q.rest || q.rest.head?.any fun c => "?:,]\x7d%@\x60".toList.contains c
  if name.isEmpty || !ends then
    .error (illegible "expected alphabetic or numeric character")
  else .ok (String.ofList name, q)

/-- Characters of an address, the percent sign included. -/
def isAddressChar (c : Char) : Bool :=
  c.isAlphanum || "-;/?:@&=+$,_.!~*'()[]%".toList.contains c

/-- The bytes that escapes by percent signs spell, and the place after them. -/
def bytesAt : Nat → List UInt8 → Cursor → Except Fault (List UInt8 × Cursor)
  | 0, bytes, p => .ok (bytes.reverse, p)
  | fuel + 1, bytes, p =>
    match p.rest with
    | '%' :: a :: b :: _ =>
      match hexNumber? [a, b] with
      | some n => bytesAt fuel (n.toUInt8 :: bytes) (p.skip 3)
      | none => .error (illegible "expected URI escape sequence of 2 hexadecimal numbers")
    | '%' :: _ => .error (illegible "expected URI escape sequence of 2 hexadecimal numbers")
    | _ => .ok (bytes.reverse, p)

/-- The address at a place, and the place after it. `parts` is what was read before. -/
def addressFrom : Nat → String → Cursor → Except Fault (String × Cursor)
  | 0, before, p => .ok (before, p)
  | fuel + 1, before, p =>
    let (run, q) := p.row fun c => isAddressChar c && c != '%'
    let before := before ++ String.ofList run
    if q.rest.head? == some '%' then do
      let (bytes, q) ← bytesAt q.left [] q
      match String.fromUTF8? ⟨bytes.toArray⟩ with
      | some text => addressFrom fuel (before ++ text) q
      | none => throw (illegible "invalid URI escape")
    else .ok (before, q)

/-- The address at a place, which must not be empty. -/
def addressAt (p : Cursor) : Except Fault (String × Cursor) := do
  let (address, q) ← addressFrom (p.left + 1) "" p
  if q.offset == p.offset then throw (illegible "expected URI")
  return (address, q)

/-- The handle at a place, and the place after it. -/
def handleAt (p : Cursor) : Except Fault (String × Cursor) :=
  match p.rest with
  | '!' :: rest =>
    if rest.head? == some ' ' then .ok ("!", p.next)
    else
      let (name, q) := p.next.row isNameChar
      if q.rest.head? == some '!' then .ok ("!" ++ String.ofList name ++ "!", q.next)
      else .error (illegible "expected '!'")
  | _ => .error (illegible "expected '!'")

/-- The tag at a place, and the place after it. -/
def tagAt (p : Cursor) : Except Fault (Tag × Cursor) := do
  let (tag, q) ←
    if atBlank p.next.rest then pure (⟨none, "!"⟩, p.next)
    else if p.next.rest.head? == some '<' then do
      let (address, q) ← addressAt (p.skip 2)
      if q.rest.head? != some '>' then throw (illegible "expected '>'")
      pure (⟨none, address⟩, q.next)
    else do
      let word := p.next.rest.takeWhile fun c => !(c == ' ' || isBreak c)
      let (handle, q) ← if word.contains '!' then handleAt p else pure ("!", p.next)
      let (suffix, q) ← addressAt q
      pure (⟨some handle, suffix⟩, q)
  if atGap q.rest then return (tag, q) else throw (illegible "expected ' '")

/-- The digits at a place, and the place after them. -/
def digitsAt (p : Cursor) : Except Fault (Nat × Cursor) :=
  let (digits, q) := p.row Char.isDigit
  if digits.isEmpty then .error (illegible "expected a digit")
  else .ok (Text.digitsValue digits, q)

/-- The place after the spaces. -/
def afterSpaces (p : Cursor) : Cursor := p.pass (· == ' ')

/-- The directive at a place, and the place on the next line. -/
def directiveAt (p : Cursor) : Except Fault (Directive × Cursor) := do
  let (name, q) := p.next.row isNameChar
  if name.isEmpty || !atGap q.rest then
    throw (illegible "expected alphabetic or numeric character")
  let (directive, q) ←
    if name == "YAML".toList then do
      let (major, q) ← digitsAt (afterSpaces q)
      if q.rest.head? != some '.' then throw (illegible "expected a digit or '.'")
      let (_, q) ← digitsAt q.next
      if !atGap q.rest then throw (illegible "expected a digit or ' '")
      pure (.version major, q)
    else if name == "TAG".toList then do
      let (handle, q) ← handleAt (afterSpaces q)
      if q.rest.head? != some ' ' then throw (illegible "expected ' '")
      let (meaning, q) ← addressAt (afterSpaces q)
      if !atGap q.rest then throw (illegible "expected ' '")
      pure (.handle handle meaning, q)
    else pure (.other, q.pass (!isBreak ·))
  match q.nextLine? with
  | some q => return (directive, q)
  | none => throw (illegible "expected a comment or a line break")

end Yaml
end CardTransfer
