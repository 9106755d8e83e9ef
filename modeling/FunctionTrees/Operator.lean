/-!
# Operators

An `Operator` names the operation of an expression and takes as many operands as its `Arity` says. Every operator has a
tag of its own. Two of them, `Operator.fallback`, stand for any operation of their arity that has no operator:
`Operator.resolve` gives the operator that a mnemonic names at an arity, and the fallback where there is none.
-/

set_option autoImplicit false

namespace FunctionTrees

/-! ## Arities -/

/-- How many operands an operator takes. -/
inductive Arity where
  | unary
  | binary
deriving DecidableEq

namespace Arity

/-- The arity of an operation with `count` operands, if operators take that many. -/
def ofCount? : Nat → Option Arity
  | 1 => some .unary
  | 2 => some .binary
  | _ => none

def count : Arity → Nat
  | .unary => 1
  | .binary => 2

theorem ofCount?_eq_some_iff {count : Nat} {arity : Arity} :
    ofCount? count = some arity ↔ arity.count = count := by
  unfold ofCount?
  split <;> cases arity <;> simp_all [Arity.count] <;> omega

end Arity

/-! ## The catalog -/

/-- The operations that an expression can name. -/
inductive Operator where
  | anyBinary | anyUnary
  | add | sub | mul | div | rem
  | bitAnd | bitOr | bitXor | shl | shr
  | eq | ne | lt | le | gt | ge
  | neg | not | bitNot
deriving DecidableEq

namespace Operator

/-- Every operator, the fallbacks first. -/
def all : List Operator :=
  [anyBinary, anyUnary, add, sub, mul, div, rem, bitAnd, bitOr, bitXor, shl, shr, eq, ne, lt, le, gt, ge, neg, not,
    bitNot]

def tag : Operator → String
  | anyBinary => "binary_arb"
  | anyUnary => "unary_arb"
  | add => "add"
  | sub => "sub"
  | mul => "mul"
  | div => "div"
  | rem => "rem"
  | bitAnd => "and"
  | bitOr => "or"
  | bitXor => "xor"
  | shl => "shl"
  | shr => "shr"
  | eq => "eq"
  | ne => "ne"
  | lt => "lt"
  | le => "le"
  | gt => "gt"
  | ge => "ge"
  | neg => "neg"
  | not => "not"
  | bitNot => "bitnot"

def arity : Operator → Arity
  | anyUnary | neg | not | bitNot => .unary
  | _ => .binary

/-- How an operator is shown. -/
def text (op : Operator) : String := "OP:" ++ op.tag

/-- The operator that stands for any operation of an arity. -/
def fallback : Arity → Operator
  | .unary => anyUnary
  | .binary => anyBinary

def isFallback (op : Operator) : Bool := op == anyBinary || op == anyUnary

/-- The operator with the given tag. -/
def ofTag? (tag : String) : Option Operator := all.find? fun op => op.tag == tag

/-- The operator that `mnemonic` names among those of the given arity, or else the fallback of that arity. -/
def resolve (mnemonic : String) (arity : Arity) : Operator :=
  match ofTag? mnemonic with
  | some op => if op.arity = arity ∧ ¬ op.isFallback then op else fallback arity
  | none => fallback arity

theorem mem_all (op : Operator) : op ∈ all := by
  cases op <;> simp [all]

theorem arity_fallback (arity : Arity) : (fallback arity).arity = arity := by
  cases arity <;> rfl

theorem arity_resolve (mnemonic : String) (arity : Arity) : (resolve mnemonic arity).arity = arity := by
  unfold resolve
  split
  · split
    · simp_all
    · exact arity_fallback arity
  · exact arity_fallback arity

end Operator

end FunctionTrees
