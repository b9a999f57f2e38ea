import CardTransfer.Cli.Grammar

/-!
# Reading arguments

Arguments are read from left to right. Operands are assigned to the operands of the grammar in
turn; what is left over, and options that the grammar does not know, is extra. Asking for the usage
or the version ends the reading at once, and so does a value that does not fit its type. In the end
nothing that is required may be missing.

A divider belongs to the operand before it if it follows that directly, and to the one after it
otherwise. Each value gives up one divider. What is attached to an option may look like a divider,
and so may an operand that no divider belongs to: such a value is given up altogether, and the empty
list takes its place, whatever the type.
-/

namespace CardTransfer
namespace Cli

/-- What has been read: values by name, marks by name, and whether anything was extra. -/
structure Parsed where
  values : List (String × Json)
  marks : List String
  extra : Bool
  deriving Inhabited

namespace Parsed

/-- Nothing has been read. -/
def empty : Parsed := ⟨[], [], false⟩

/-- The value of a name; the last one counts. -/
def value? (p : Parsed) (name : String) : Option Json := p.values.reverse.lookup name

/-- The value of a name, null if there is none. -/
def value (p : Parsed) (name : String) : Json := Json.ofOption (p.value? name)

/-- Whether a mark is set. -/
def marked (p : Parsed) (name : String) : Bool := p.marks.contains name

/-- Adds a value, if it fits its type. -/
def addValue (p : Parsed) (name : String) (type : ValueType) (value : String) :
    Except Exit Parsed :=
  match type.read? value with
  | some v => .ok { p with values := p.values ++ [(name, v)] }
  | none => .error .refused

/-- Adds a value, or the empty list for one that looks like a divider. -/
def addUndivided (p : Parsed) (name : String) (type : ValueType) (value : String) :
    Except Exit Parsed :=
  if value == dividerText then .ok { p with values := p.values ++ [(name, .arr [])] }
  else p.addValue name type value

/-- Does what an option does. -/
def apply (p : Parsed) (o : OptionRule) (value : String) : Except Exit Parsed :=
  match o.kind with
  | .usage => .error .usage
  | .version => .error .version
  | .mark => .ok { p with marks := p.marks ++ [o.name] }
  | .value type => p.addUndivided o.name type value

end Parsed

namespace Grammar

variable (g : Grammar)

/-- The options in an argument, with their values, and whether the next argument is one of these
values. -/
structure Cluster where
  options : List (OptionRule × String)
  takesNext : Bool

/-- An option with nothing attached. -/
def plain (o : OptionRule) (next : Option Argument) : Except Exit Cluster :=
  match o.valueType?, next with
  | none, _ => .ok ⟨[(o, "")], false⟩
  | some _, some (.operand v) => .ok ⟨[(o, v)], true⟩
  | some _, _ => .error .refused

/-- An option with something attached: its value, or the letters of further short options. -/
def cluster (next : Option Argument) (isShort : Bool) (o : OptionRule) :
    List Char → Except Exit Cluster
  | [] => if o.valueType?.isSome then .ok ⟨[(o, "")], false⟩ else .error .refused
  | c :: cs =>
    if o.valueType?.isSome then .ok ⟨[(o, String.ofList (c :: cs))], false⟩
    else if !isShort then .error .refused
    else
      match g.option? (String.ofList ['-', c]) with
      | none => .error .refused
      | some o' => do
        let rest ← if cs.isEmpty then plain o' next else cluster next true o' cs
        return { rest with options := (o, "") :: rest.options }

/-- The options in an argument that starts with an option. -/
def clusterOf (o : OptionRule) (used : String) (attached : Option (List Char))
    (next : Option Argument) : Except Exit Cluster :=
  match attached with
  | none => plain o next
  | some cs => g.cluster next (!startsWith used "--") o cs

/-- Does what some options do, in turn. -/
def applyAll (p : Parsed) (os : List (OptionRule × String)) : Except Exit Parsed :=
  os.foldlM (fun p o => p.apply o.1 o.2) p

/-- What the argument before was: one that was assigned to an operand, a divider that belongs to the
next operand, or something else. -/
inductive Before where
  | operand
  | divider
  | other
  deriving DecidableEq

/-- Reads arguments, with the operands still to be assigned. `n` bounds the number of arguments. -/
def readFrom : (n : Nat) → List Argument → List OperandRule → Before → Parsed →
    Except Exit (Parsed × List OperandRule)
  | 0, _, operands, _, p => .ok (p, operands)
  | _, [], operands, _, p => .ok (p, operands)
  | n + 1, .unknown :: rest, operands, _, p =>
    readFrom n rest operands .other { p with extra := true }
  | n + 1, .divider :: rest, operands, before, p =>
    if before = .operand then readFrom n rest operands .other p
    else readFrom n rest operands .divider { p with extra := p.extra || rest.isEmpty }
  | n + 1, .operand _ :: rest, [], _, p => readFrom n rest [] .other { p with extra := true }
  | n + 1, .operand s :: rest, o :: operands, before, p => do
    let p ← if before = .divider then p.addValue o.name o.type s
      else p.addUndivided o.name o.type s
    readFrom n rest operands .operand p
  | n + 1, .option o used attached :: rest, operands, _, p => do
    let c ← g.clusterOf o used attached rest.head?
    let p ← applyAll p c.options
    readFrom n (if c.takesNext then rest.drop 1 else rest) operands .other p

/-- Whether something that is required is missing. -/
def lacks (p : Parsed) (operands : List OperandRule) : Bool :=
  !operands.isEmpty || g.options.any fun o => o.required && (p.value? o.name).isNone

/-- Reads the arguments of a command. -/
def read (args : List String) : Except Exit Parsed := do
  let arguments ← g.classifyAll args
  let (p, operands) ← g.readFrom arguments.length arguments g.operands .other .empty
  if g.lacks p operands then throw .refused else return p

end Grammar
end Cli
end CardTransfer
