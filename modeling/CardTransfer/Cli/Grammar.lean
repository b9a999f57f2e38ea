import CardTransfer.Json.Basic
import CardTransfer.Text.Numeral
import CardTransfer.Text.Scan

/-!
# Grammars of arguments

A grammar says which options and operands a command takes. Arguments that start with a hyphen name
options; the others are operands or the values of options.

* A long option has two hyphens. It may be cut short as long as it is the only one that starts so,
  and its value may follow after `=`.
* A short option has one hyphen and one letter. Its value may follow directly or after `=`. What
  follows a short option without value in this way are the letters of further short options.
* The value of an option is otherwise the next argument, which must be an operand.
* A negative number is an operand, and so is a text with a blank that names no option, a hyphen
  alone, and everything after the first `--`.

An option that may be cut short in two ways is refused before anything else is read.
-/

namespace CardTransfer
namespace Cli

/-- What a value must be. -/
inductive ValueType where
  | text
  | integer
  | decimal
  deriving DecidableEq, Repr

/-- The value of a type that a text is. -/
def ValueType.read? (t : ValueType) (s : String) : Option Json :=
  match t with
  | .text => some (.str s)
  | .integer => (Text.toInt? s.toList).map .int
  | .decimal => (Text.toFloat? s.toList).map .float

/-- The divider between options and operands. -/
def dividerText : String := "--"

/-- What an option does: it shows the usage or the version, is a mark, or takes a value. -/
inductive OptionKind where
  | usage
  | version
  | mark
  | value (type : ValueType)
  deriving DecidableEq, Repr

/-- An option: its names, the first of which it goes by, what it does, and whether it must be
given. -/
structure OptionRule where
  names : List String
  kind : OptionKind
  required : Bool

namespace OptionRule

/-- The name that an option goes by. -/
def name (o : OptionRule) : String := o.names.headD ""

/-- The type of the value that an option takes, if it takes one. -/
def valueType? (o : OptionRule) : Option ValueType :=
  match o.kind with
  | .value t => some t
  | _ => none

end OptionRule

/-- An operand: its name and type. -/
structure OperandRule where
  name : String
  type : ValueType

/-- The options and operands of a command; all operands must be given. -/
structure Grammar where
  options : List OptionRule
  operands : List OperandRule

/-- Why arguments lead to no command: the usage or the version is asked for, or they do not fit. -/
inductive Exit where
  | usage
  | version
  | refused
  deriving DecidableEq, Repr

/-- An argument by its look. An option comes with the name that was used and with what is attached
to it in the same argument, after `=` or directly. -/
inductive Argument where
  | operand (s : String)
  | divider
  | unknown
  | option (o : OptionRule) (used : String) (attached : Option (List Char))

namespace Grammar

variable (g : Grammar)

/-- The options of a grammar under all their names. -/
def named : List (String × OptionRule) := g.options.flatMap fun o => o.names.map fun n => (n, o)

/-- The option of a name. -/
def option? (name : String) : Option OptionRule := g.named.lookup name

/-- A text before and after its first `=`, if it has one. -/
def splitEqual? (s : String) : Option (String × List Char) :=
  let cs := s.toList
  let head := cs.takeWhile (· != '=')
  match cs.drop head.length with
  | [] => none
  | _ :: rest => some (String.ofList head, rest)

/-- Whether a text starts with another one. -/
def startsWith (s start : String) : Bool := start.toList.isPrefixOf s.toList

/-- The options that a text of two hyphens may stand for. -/
def longMatches (s : String) : List Argument :=
  let (start, attached) := match splitEqual? s with
    | some (head, value) => (head, some value)
    | none => (s, none)
  (g.named.filter fun p => startsWith p.1 start).map fun p => .option p.2 p.1 attached

/-- The options that a text of one hyphen may stand for. -/
def shortMatches (s : String) : List Argument :=
  let short := String.ofList (s.toList.take 2)
  g.named.filterMap fun p =>
    if p.1 == short then some (.option p.2 p.1 (some (s.toList.drop 2)))
    else if startsWith p.1 s then some (.option p.2 p.1 none)
    else none

/-- Whether a text looks like a negative number. -/
def isNegativeNumber (s : String) : Bool :=
  match s.toList with
  | '-' :: cs =>
    let cs := if cs.getLast? == some '\n' then cs.dropLast else cs
    let whole := cs.takeWhile Text.isDigit
    match cs.drop whole.length with
    | [] => !whole.isEmpty
    | '.' :: digits => !digits.isEmpty && digits.all Text.isDigit
    | _ => false
  | _ => false

/-- An argument that starts with a hyphen and is not the exact name of an option. -/
def inexact (s : String) : Except Exit Argument :=
  match (if startsWith s "--" then g.longMatches s else g.shortMatches s) with
  | [a] => .ok a
  | _ :: _ :: _ => .error .refused
  | [] => .ok (if isNegativeNumber s || s.contains ' ' then .operand s else .unknown)

/-- An argument before any `--`. -/
def classify (s : String) : Except Exit Argument :=
  if !startsWith s "-" || s == "-" then .ok (.operand s)
  else
    match g.option? s with
    | some o => .ok (.option o s none)
    | none =>
      match (splitEqual? s).bind fun p => (g.option? p.1).map fun o => (p, o) with
      | some ((name, value), o) => .ok (.option o name (some value))
      | none => g.inexact s

/-- All arguments. -/
def classifyAll : List String → Except Exit (List Argument)
  | [] => .ok []
  | s :: rest =>
    if s == dividerText then .ok (.divider :: rest.map .operand)
    else do return (← g.classify s) :: (← classifyAll rest)

/-- An argument without hyphen in front is an operand. -/
theorem classify_operand {s : String} (h : startsWith s "-" = false) :
    g.classify s = .ok (.operand s) := by
  unfold classify
  simp [h]

end Grammar
end Cli
end CardTransfer
