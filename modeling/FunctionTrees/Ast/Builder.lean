import FunctionTrees.PositionTable

/-!
# Building function trees

A `Builder` owns a growing tree and the positions recorded for it. While it has a current position, that position is
recorded for every interior node it builds; leaves never get one. `Build` is the state monad over builders, with one
action for each kind of node; an action builds the nodes below its result first, its own node last. `BuildStep` lists the
actions as data, `BuildStep.isOffered` says which of them there are, and `Builder.after` is the builder that a list of them
leaves.
-/

set_option autoImplicit false

namespace FunctionTrees

/-- A tree under construction. -/
structure Builder where
  ast : Ast := {}
  positions : PositionTable := {}
  /-- The position that interior nodes are recorded with. -/
  current : Option Position := none
deriving DecidableEq

instance : Inhabited Builder := ⟨{}⟩

/-- An action of a builder. -/
abbrev Build := StateM Builder

namespace Build

/-! ## Strings and positions -/

/-- The symbol of `text` in the tree being built. -/
def intern (text : String) : Build Symbol := fun builder =>
  let (symbol, strings) := builder.ast.strings.insert text
  (symbol, { builder with ast := { builder.ast with strings } })

/-- The position with the given bounds in a file, whose name is taken into the tree even if the bounds are not those of
an extent. -/
def position? (file : String) (firstLine firstCol lastLine lastCol : UInt32) : Build (Option Position) := do
  return Located.ofBounds? (← intern file) firstLine firstCol lastLine lastCol

/-- The position of an extent of a file, whose name is taken into the tree. -/
def place (span : FileSpan) : Build Position := do
  return ⟨← intern span.file, span.extent⟩

/-- Sets the position for the interior nodes to come; `none` records nothing. -/
def at? (position : Option Position) : Build Unit := fun builder =>
  ((), { builder with current := position })

/-! ## Nodes in general -/

/-- Stores one node. -/
def push (data : NodeData) : Build Node := fun builder =>
  (⟨builder.ast.size⟩, { builder with ast := { builder.ast with nodes := builder.ast.nodes.push data } })

/-- Records the current position, if there is one, for `node`. -/
def stamp (node : Node) : Build Unit := fun builder =>
  match builder.current with
  | some position => ((), { builder with positions := (builder.positions.record node position).2 })
  | none => ((), builder)

def interior (kind : NodeKind) (children : List Node) : Build Node := do
  let node ← push (.interior kind children)
  stamp node
  return node

/-! ## Leaves -/

def operator (op : Operator) : Build Node := push (.operator op)

def constant (value : Constant) : Build Node := push (.constant value)

def int (value : Int64) : Build Node := constant (.int value)

def empty : Build Node := push .empty

def string (text : String) : Build Node := do
  constant (.str (← intern text))

/-! ## Interior nodes -/

def var (name : String) : Build Node := do
  interior .var [← string name]

def binary (op : Operator) (lhs rhs : Node) : Build Node := do
  interior .binaryExpr [← operator op, lhs, rhs]

def unary (op : Operator) (operand : Node) : Build Node := do
  interior .unaryExpr [← operator op, operand]

/-- The expression of `op` over `operands`; nothing is built if the operator takes another number of them. -/
def expr? (op : Operator) (operands : List Node) : Build (Option Node) :=
  match op.arity, operands with
  | .binary, [lhs, rhs] => some <$> binary op lhs rhs
  | .unary, [operand] => some <$> unary op operand
  | _, _ => return none

def primitive (name : String) (operands : List Node) : Build Node := do
  interior .primitive ((← string name) :: operands)

/-- The name of the variable that `target` is, if it is one. -/
def callee? (ast : Ast) (target : Node) : Option Symbol :=
  match ast.kind target with
  | .ok .var => (ast.nameSymbol? target).toOption.join
  | _ => none

/-- A call, which is listed among the calls of the tree. -/
def call (target : Node) (args : List Node) : Build Node := do
  let callee := callee? (← get).ast target
  let node ← interior .call (target :: args)
  modify fun builder =>
    { builder with ast := { builder.ast with callSites := builder.ast.callSites ++ [⟨node, target, callee⟩] } }
  return node

def assign (lhs rhs : Node) : Build Node := interior .assign [lhs, rhs]

def ret (value : Option Node) : Build Node := interior .ret value.toList

def goto (label : String) : Build Node := do
  interior .goto [← string label]

def ifGoto (condition : Node) (label : String) : Build Node := do
  interior .ifGoto [condition, ← string label]

def label (name : String) : Build Node := do
  interior .label [← string name]

def block (statements : List Node) : Build Node := interior .block statements

end Build

/-! ## Actions as data -/

/-- The actions of a builder, each with what it is given. -/
inductive BuildStep where
  | intern (text : String)
  | position (file : String) (firstLine firstCol lastLine lastCol : UInt32)
  | at? (current : Option Position)
  | operator (op : Operator)
  | constant (value : Constant)
  | string (text : String)
  | empty
  | var (name : String)
  | binary (op : Operator) (lhs rhs : Node)
  | unary (op : Operator) (operand : Node)
  | expr (op : Operator) (operands : List Node)
  | primitive (name : String) (operands : List Node)
  | call (target : Node) (args : List Node)
  | assign (lhs rhs : Node)
  | ret (value : Option Node)
  | goto (label : String)
  | ifGoto (condition : Node) (label : String)
  | label (name : String)
  | block (statements : List Node)
deriving DecidableEq

/-- Does one action; the result is the node it built, if it built one. -/
def BuildStep.run : BuildStep → Build (Option Node)
  | intern text => do let _ ← Build.intern text; return none
  | position file firstLine firstCol lastLine lastCol => do
    let _ ← Build.position? file firstLine firstCol lastLine lastCol
    return none
  | at? current => do Build.at? current; return none
  | operator op => some <$> Build.operator op
  | constant value => some <$> Build.constant value
  | string text => some <$> Build.string text
  | empty => some <$> Build.empty
  | var name => some <$> Build.var name
  | binary op lhs rhs => some <$> Build.binary op lhs rhs
  | unary op operand => some <$> Build.unary op operand
  | expr op operands => Build.expr? op operands
  | primitive name operands => some <$> Build.primitive name operands
  | call target args => some <$> Build.call target args
  | assign lhs rhs => some <$> Build.assign lhs rhs
  | ret value => some <$> Build.ret value
  | goto target => some <$> Build.goto target
  | ifGoto condition target => some <$> Build.ifGoto condition target
  | label name => some <$> Build.label name
  | block statements => some <$> Build.block statements

/-- The operators over which there is an action with as many operands as the arity says; all others are chosen by
`BuildStep.expr`. -/
def BuildStep.ownOperators : Arity → List Operator
  | .binary =>
    [.anyBinary, .add, .sub, .mul, .div, .rem, .bitAnd, .bitOr, .bitXor, .shl, .shr, .eq, .ne, .lt, .le, .gt, .ge]
  | .unary => [.anyUnary, .neg, .not, .bitNot]

/-- Whether there is such an action. -/
def BuildStep.isOffered : BuildStep → Bool
  | binary op _ _ => op ∈ ownOperators .binary
  | unary op _ => op ∈ ownOperators .unary
  | _ => true

/-- The builder after a list of actions, starting from `builder`. -/
def Builder.after (builder : Builder) (steps : List BuildStep) : Builder :=
  steps.foldl (fun builder step => (step.run builder).2) builder

end FunctionTrees
