import FunctionTrees.Arena
import FunctionTrees.Operator
import FunctionTrees.Position

/-!
# Function trees in an arena

An `Ast` holds all nodes of one function, the strings that they mention and the calls among them. A `Node` is the key of
a node, `NodeData` what is stored under it: an operator, a `Constant`, a placeholder, or an interior node of some
`NodeKind` with the keys of its children.
-/

set_option autoImplicit false

namespace FunctionTrees

/-! ## Nodes -/

/-- The key of a node in some `Ast`. -/
structure Node where
  index : Nat
deriving DecidableEq, Inhabited

/-- What the children of a node mean. -/
inductive NodeKind where
  /-- A leaf that names an operation. -/
  | operator
  /-- A leaf with a literal value. -/
  | constant
  /-- A leaf without meaning. -/
  | empty
  /-- Children: a name. -/
  | var
  /-- Children: an operator and its two operands. -/
  | binaryExpr
  /-- Children: an operator and its operand. -/
  | unaryExpr
  /-- Children: a name and any operands. -/
  | primitive
  /-- Children: a target and any arguments. -/
  | call
  /-- Children: what is assigned to and what is assigned. -/
  | assign
  /-- Children: at most one, the value. -/
  | ret
  /-- Children: a label. -/
  | goto
  /-- Children: a condition and the label to go to where it holds. -/
  | ifGoto
  /-- Children: the name of the block that starts here. -/
  | label
  /-- Children: statements. -/
  | block
deriving DecidableEq

namespace NodeKind

def isLeaf : NodeKind → Bool
  | operator | constant | empty => true
  | _ => false

/-- The name by which nodes of this kind are shown. -/
def name : NodeKind → String
  | operator => "OPERATOR"
  | constant => "CONSTANT"
  | empty => "EMPTY"
  | var => "VAR"
  | binaryExpr => "BINARY_EXPR"
  | unaryExpr => "UNARY_EXPR"
  | primitive => "PRIMITIVE"
  | call => "CALL"
  | assign => "ASSIGN"
  | ret => "RETURN"
  | goto => "GOTO"
  | ifGoto => "IF_GOTO"
  | label => "LABEL"
  | block => "BLOCK_STMT"

end NodeKind

/-- A literal value; floats are their IEEE 754 bits, so that equality is equality of bits. -/
inductive Constant where
  | int (value : Int64)
  | float (bits : UInt64)
  | bool (value : Bool)
  | str (symbol : Symbol)
  | null
deriving DecidableEq

namespace Constant

def float? : Constant → Option UInt64
  | float bits => some bits
  | _ => none

def str? : Constant → Option Symbol
  | str symbol => some symbol
  | _ => none

end Constant

/-- What is stored for one node. -/
inductive NodeData where
  | operator (op : Operator)
  | constant (value : Constant)
  | empty
  | interior (kind : NodeKind) (children : List Node)
deriving DecidableEq

namespace NodeData

def kind : NodeData → NodeKind
  | operator _ => .operator
  | constant _ => .constant
  | empty => .empty
  | interior kind _ => kind

/-- The children in order; leaves have none. -/
def children : NodeData → List Node
  | interior _ children => children
  | _ => []

def operator? : NodeData → Option Operator
  | operator op => some op
  | _ => none

def constant? : NodeData → Option Constant
  | constant value => some value
  | _ => none

end NodeData

/-! ## Trees of a function -/

/-- A call: its node, the first child of that node, and the name of the callee where that child is a variable. -/
structure CallSite where
  call : Node
  target : Node
  callee : Option Symbol
deriving DecidableEq

/-- The nodes of one function, the strings they mention and the calls among them, in the order of their making. -/
structure Ast where
  nodes : Arena NodeData := {}
  strings : StringPool := {}
  callSites : List CallSite := []
deriving DecidableEq

namespace Ast

instance : Inhabited Ast := ⟨{}⟩

def size (ast : Ast) : Nat := ast.nodes.size

def isEmpty (ast : Ast) : Bool := ast.nodes.isEmpty

def contains (ast : Ast) (node : Node) : Bool := ast.nodes.contains node.index

/-- What is stored for `node`. -/
def data (ast : Ast) (node : Node) : Except Misuse NodeData := ast.nodes.fetch node.index

def kind (ast : Ast) (node : Node) : Except Misuse NodeKind := (ast.data node).map NodeData.kind

def children (ast : Ast) (node : Node) : Except Misuse (List Node) := (ast.data node).map NodeData.children

/-- The child of `node` at place `i`, if it has that many. -/
def child? (ast : Ast) (node : Node) (i : Nat) : Except Misuse (Option Node) :=
  (ast.children node).map fun children => children[i]?

/-- The operator that `node` is, if it is an operator leaf. -/
def operator? (ast : Ast) (node : Node) : Except Misuse (Option Operator) := (ast.data node).map NodeData.operator?

/-- The value that `node` is, if it is a constant leaf. -/
def constant? (ast : Ast) (node : Node) : Except Misuse (Option Constant) := (ast.data node).map NodeData.constant?

/-- The operator of the expression `node`; no other node has one. -/
def exprOperator? (ast : Ast) (node : Node) : Except Misuse (Option Operator) := do
  match ← ast.kind node with
  | .binaryExpr | .unaryExpr =>
    match ← ast.child? node 0 with
    | some first => ast.operator? first
    | none => return none
  | _ => return none

/-- The symbol that the first child of `node` holds, if that child is a string constant. -/
def nameSymbol? (ast : Ast) (node : Node) : Except Misuse (Option Symbol) := do
  match ← ast.child? node 0 with
  | some first => return (← ast.constant? first).bind Constant.str?
  | none => return none

/-- The text of the first child of `node`, if that child is a string constant. -/
def name? (ast : Ast) (node : Node) : Except Misuse (Option String) := do
  match ← ast.nameSymbol? node with
  | some symbol => return some (← ast.strings.fetch symbol)
  | none => return none

/-- The text behind a symbol that the caller holds to be of this tree. -/
def string (ast : Ast) (symbol : Symbol) : Except Misuse String := ast.strings.fetch symbol

/-- The text behind a symbol, if it is of this tree. -/
def string? (ast : Ast) (symbol : Symbol) : Option String := ast.strings.get? symbol

end Ast

end FunctionTrees
