import FunctionTrees.Decimal
import FunctionTrees.Text.Quoted
import FunctionTrees.Tree

/-!
# Trees as text

A tree is written as nested parentheses on one line, except that each statement of a block gets a line of its own, which
ends in the span that the statement comes from where it has one.
-/

set_option autoImplicit false

namespace FunctionTrees

/-- Floats are positional from `0.0001` up to, but not including, `10 ^ 16`; their exponents bear no plus sign, and a tie
goes up. -/
def Literal.floatStyle : Decimal.Style := ⟨-4, 15, "", .up⟩

/-- The text of a float, the three kinds that are not finite included. -/
def Literal.floatText (bits : UInt64) : String :=
  match floatStyle.text? bits with
  | some text => text
  | none =>
    if bits.toNat % Nat.pow 2 52 ≠ 0 then "NaN"
    else if Decimal.isNegative bits then "-inf"
    else "inf"

def Literal.text : Literal → String
  | .int value => toString value.toInt
  | .float bits => floatText bits
  | .bool value => if value then "true" else "false"
  | .str text => Text.quote text
  | .null => "null"

namespace Tree

/-- What stands before a statement at a depth of blocks: the end of the line before and two blanks for each block. -/
def statementLead (depth : Nat) : String := "\n" ++ String.ofList (List.replicate (2 * depth) ' ')

mutual

/-- The text of a tree inside of `depth` blocks. -/
def textAt (depth : Nat) : Tree → String
  | operator op => op.text
  | literal value => value.text
  | empty => "EMPTY"
  | node .block statements =>
    "(" ++ NodeKind.block.name ++ textsAt (statementLead (depth + 1)) (depth + 1) statements ++ ")"
  | node kind children => "(" ++ kind.name ++ textsAt " " depth children ++ ")"
  | noted tree span => textAt depth tree ++ "  ; " ++ span.text

/-- The texts of several trees, each behind `lead`. -/
def textsAt (lead : String) (depth : Nat) : List Tree → String
  | [] => ""
  | tree :: trees => lead ++ textAt depth tree ++ textsAt lead depth trees

end

/-- The text of a tree. -/
def text (tree : Tree) : String := tree.textAt 0

end Tree

/-- The text of the tree under `node`, with the spans of statements where `positions` are given. -/
def Ast.textOf (ast : Ast) (positions : Option PositionTable) (node : Node) : Except Misuse String :=
  let positionOf := fun node => positions.bind fun table => table.get? node
  (ast.unfold positionOf node).map Tree.text

end FunctionTrees
