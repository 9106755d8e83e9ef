import FunctionTrees.PositionTable

/-!
# Trees free of keys

A `Tree` is what a node of an `Ast` stands for once all keys and symbols are followed: `Ast.unfold` follows them. The
statements of a block can be noted with the span that they come from.
-/

set_option autoImplicit false

namespace FunctionTrees

/-- A literal value that holds its text itself. -/
inductive Literal where
  | int (value : Int64)
  | float (bits : UInt64)
  | bool (value : Bool)
  | str (text : String)
  | null
deriving DecidableEq

/-- A tree that holds its subtrees and its texts itself. -/
inductive Tree where
  | operator (op : Operator)
  | literal (value : Literal)
  | empty
  | node (kind : NodeKind) (children : List Tree)
  /-- A statement with the span that it comes from. -/
  | noted (tree : Tree) (span : FileSpan)

namespace Ast

/-- A constant with its text looked up. -/
def literal (ast : Ast) : Constant → Except Misuse Literal
  | .int value => .ok (.int value)
  | .float bits => .ok (.float bits)
  | .bool value => .ok (.bool value)
  | .str symbol => (ast.string symbol).map Literal.str
  | .null => .ok .null

/-- The tree together with its span, if it has one. -/
def note (ast : Ast) (position : Option Position) (tree : Tree) : Except Misuse Tree :=
  match position with
  | some position => (position.resolve ast.strings).map (Tree.noted tree)
  | none => .ok tree

/-- The tree under `node`, followed down for at most `depth` levels. A path of more levels than the tree has nodes runs
in a circle, and ends like one that leaves the tree. -/
def unfoldTo (ast : Ast) (positionOf : Node → Option Position) : Nat → Node → Except Misuse Tree
  | 0, _ => .error .unknownKey
  | depth + 1, node => do
    match ← ast.data node with
    | .operator op => return .operator op
    | .constant value => return .literal (← ast.literal value)
    | .empty => return .empty
    | .interior .block statements =>
      return .node .block (← statements.mapM fun statement => do
        ast.note (positionOf statement) (← ast.unfoldTo positionOf depth statement))
    | .interior kind children => return .node kind (← children.mapM (ast.unfoldTo positionOf depth))

/-- The tree under `node`, the statements of its blocks noted with the spans that `positionOf` gives them. -/
def unfold (ast : Ast) (positionOf : Node → Option Position) (node : Node) : Except Misuse Tree :=
  ast.unfoldTo positionOf (ast.size + 1) node

end Ast

end FunctionTrees
