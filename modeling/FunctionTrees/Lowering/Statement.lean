import FunctionTrees.Ast.Builder
import FunctionTrees.Transfer

/-!
# Statements

What an instruction means once it is known to be sound: a `Statement`, with an `Expr` where it computes something. The
`build` functions make nodes of them; operands come first, then names and operators, then the node itself.
-/

set_option autoImplicit false

namespace FunctionTrees.Lowering

open Transfer

/-! ## Plain statements -/

/-- What an instruction computes. -/
inductive Expr where
  | binary (op : Operator) (lhs rhs : Operand)
  | unary (op : Operator) (operand : Operand)
  /-- An operation of another number of operands. -/
  | primitive (name : String) (operands : List Operand)
  | call (target : Operand) (args : List Operand)
deriving DecidableEq

/-- One step of a block. -/
inductive Statement where
  /-- Gives a value a name. -/
  | assign (name : String) (value : Operand)
  /-- Gives the value of an expression a name. -/
  | bind (name : String) (value : Expr)
  | eval (value : Expr)
  | ret (value : Option Operand)
  | goto (label : String)
  | ifGoto (condition : Operand) (label : String)
deriving DecidableEq

/-- What an operation is given in place of an operator of its own. -/
inductive Stopgap where
  | fallback (op : Operator)
  | primitive
deriving DecidableEq

/-- The expression of `op` over `operands`, unless the operator takes another number of them. -/
def Expr.over? (op : Operator) (operands : List Operand) : Option Expr :=
  match op.arity, operands with
  | .binary, [lhs, rhs] => some (.binary op lhs rhs)
  | .unary, [operand] => some (.unary op operand)
  | _, _ => none

/-- Tries an operation as an expression over the operator that it resolves to, and otherwise as one over none: the stopgaps
on the way, and the expression. -/
def Expr.attempt (mnemonic : String) (operands : List Operand) : List Stopgap × Expr :=
  let primitive : Expr := .primitive mnemonic operands
  match Arity.ofCount? operands.length with
  | some arity =>
    let op := Operator.resolve mnemonic arity
    let stopgaps := if op.isFallback then [.fallback op] else []
    match Expr.over? op operands with
    | some expr => (stopgaps, expr)
    | none => (stopgaps ++ [.primitive], primitive)
  | none => ([.primitive], primitive)

/-- The expression of an operation. -/
def Expr.ofOperation (mnemonic : String) (operands : List Operand) : Expr := (attempt mnemonic operands).2

/-! ## Building them -/

/-- The node of an operand. -/
def buildOperand : Operand → Build Node
  | .var name => Build.var name
  | .int value => Build.int value
  | .float bits => Build.constant (.float bits)
  | .bool value => Build.constant (.bool value)
  | .str text => Build.string text
  | .null => Build.constant .null

def Expr.build : Expr → Build Node
  | binary op lhs rhs => do
    let lhs ← buildOperand lhs
    let rhs ← buildOperand rhs
    Build.binary op lhs rhs
  | unary op operand => do
    Build.unary op (← buildOperand operand)
  | primitive name operands => do
    Build.primitive name (← operands.mapM buildOperand)
  | call target args => do
    let target ← buildOperand target
    Build.call target (← args.mapM buildOperand)

/-- Gives the value under a node a name. -/
def buildBinding (name : String) (value : Node) : Build Node := do
  Build.assign (← Build.var name) value

def Statement.build : Statement → Build Node
  | assign name value => do buildBinding name (← buildOperand value)
  | bind name value => do buildBinding name (← value.build)
  | eval value => value.build
  | ret none => Build.ret none
  | ret (some value) => do Build.ret (some (← buildOperand value))
  | goto target => Build.goto target
  | ifGoto condition target => do Build.ifGoto (← buildOperand condition) target

end FunctionTrees.Lowering
