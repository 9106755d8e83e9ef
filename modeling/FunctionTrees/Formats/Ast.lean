import FunctionTrees.Json.Record
import FunctionTrees.PositionTable

/-!
# Function trees in JSON

The formats of arenas, string pools, nodes, positions and whole trees. Keys and symbols are plain numbers, an operator is
its tag, and a pool is the list of its strings: it is read by taking them in one by one, so that strings that repeat give
way to their first appearance.
-/

set_option autoImplicit false

namespace FunctionTrees

open Json (Format Layout Case Reader)

/-! ## Keys, symbols and containers -/

def Node.format : Format Node := Format.key.equiv Node.index Node.mk

def Symbol.format : Format Symbol := Format.key.equiv Symbol.index Symbol.mk

def StringPool.format : Format StringPool :=
  (Format.listAs "a sequence of `str` values" Format.text).equiv StringPool.strings StringPool.ofList

def Arena.layout {α : Type} (format : Format α) : Layout (List α × Unit) (Option (List α) × Unit) :=
  .field "slots" format.list .refused .done

def Arena.format {α : Type} (format : Format α) : Format (Arena α) :=
  Format.record "ArenaMap" (Arena.layout format) (fun arena => (arena.toList, ())) fun (slots, _) => ⟨slots.toArray⟩

/-! ## Operators and kinds -/

def Arity.format : Format Arity where
  reader := Case.reader [("Unary", .bare .unary), ("Binary", .bare .binary)]
  write
    | .unary => Case.writeBare "Unary"
    | .binary => Case.writeBare "Binary"

/-- The operator of a tag, or that there is none. -/
def Operator.ofTag (tag : String) : Except String Operator :=
  match Operator.ofTag? tag with
  | some op => .ok op
  | none => .error ("unknown operator tag `" ++ tag ++ "`")

def Operator.format : Format Operator := Format.text.checked Operator.tag Operator.ofTag

/-- The kinds of nodes with the names by which they are written. -/
def NodeKind.cases : List (String × NodeKind) :=
  [("Operator", .operator), ("Constant", .constant), ("Empty", .empty), ("Var", .var), ("BinaryExpr", .binaryExpr),
    ("UnaryExpr", .unaryExpr), ("Primitive", .primitive), ("Call", .call), ("Assign", .assign), ("Return", .ret),
    ("Goto", .goto), ("IfGoto", .ifGoto), ("Label", .label), ("BlockStmt", .block)]

/-- The name by which a kind is written. -/
def NodeKind.caseName : NodeKind → String
  | operator => "Operator"
  | constant => "Constant"
  | empty => "Empty"
  | var => "Var"
  | binaryExpr => "BinaryExpr"
  | unaryExpr => "UnaryExpr"
  | primitive => "Primitive"
  | call => "Call"
  | assign => "Assign"
  | ret => "Return"
  | goto => "Goto"
  | ifGoto => "IfGoto"
  | label => "Label"
  | block => "BlockStmt"

def NodeKind.format : Format NodeKind where
  reader := Case.reader (NodeKind.cases.map fun (name, kind) => (name, .bare kind))
  write kind := Case.writeBare kind.caseName

/-! ## Nodes -/

def Constant.format : Format Constant where
  reader := Case.reader
    [("Int", .content (Constant.int <$> Format.int64.reader)), ("Float", .content (Constant.float <$> Format.word64.reader)),
      ("Bool", .content (Constant.bool <$> Format.bool.reader)), ("Str", .content (Constant.str <$> Symbol.format.reader)),
      ("Null", .bare .null)]
  write
    | .int value => Case.writeContent "Int" (Format.int64.write value)
    | .float bits => Case.writeContent "Float" (Format.word64.write bits)
    | .bool value => Case.writeContent "Bool" (Format.bool.write value)
    | .str symbol => Case.writeContent "Str" (Symbol.format.write symbol)
    | .null => Case.writeBare "Null"

/-- The kind of an interior node and its children. -/
def NodeData.interiorLayout :
    Layout (NodeKind × List Node × Unit) (Option NodeKind × Option (List Node) × Unit) :=
  .field "kind" NodeKind.format .refused <| .field "children" Node.format.list .refused .done

def NodeData.format : Format NodeData where
  reader := Case.reader
    [("Operator", .content (NodeData.operator <$> Operator.format.reader)),
      ("Constant", .content (NodeData.constant <$> Constant.format.reader)), ("Empty", .bare .empty),
      ("Interior", .contents ((fun (kind, children, _) => NodeData.interior kind children) <$>
        Format.tuple "tuple variant NodeData::Interior" NodeData.interiorLayout))]
  write
    | .operator op => Case.writeContent "Operator" (Operator.format.write op)
    | .constant value => Case.writeContent "Constant" (Constant.format.write value)
    | .empty => Case.writeBare "Empty"
    | .interior kind children =>
      Case.writeContent "Interior" ('[' :: NodeKind.format.write kind ++ ',' :: Node.format.list.write children ++ [']'])

def CallSite.format : Format CallSite :=
  Format.record "CallSite"
    (.field "call" Node.format .refused <| .field "target" Node.format .refused <|
      .field "callee" Symbol.format.optional (.optional none) .done)
    (fun site => (site.call, site.target, site.callee, ()))
    fun (call, target, callee, _) => ⟨call, target, callee⟩

/-! ## Positions -/

/-- The fields of a position: the file, and the line and the column of both ends. -/
structure Position.Fields where
  file : Symbol
  firstLine : UInt32
  firstCol : UInt32
  lastLine : UInt32
  lastCol : UInt32

def Position.Fields.format : Format Position.Fields :=
  Format.record "SpanFields"
    (.field "file" Symbol.format .refused <| .field "first_line" Format.word32 .refused <|
      .field "first_col" Format.word32 .refused <| .field "last_line" Format.word32 .refused <|
      .field "last_col" Format.word32 .refused .done)
    (fun fields => (fields.file, fields.firstLine, fields.firstCol, fields.lastLine, fields.lastCol, ()))
    fun (file, firstLine, firstCol, lastLine, lastCol, _) => ⟨file, firstLine, firstCol, lastLine, lastCol⟩

def Position.fields (position : Position) : Position.Fields :=
  let extent := position.extent
  ⟨position.file, extent.firstLine, extent.firstCol, extent.lastLine, extent.lastCol⟩

/-- The position of some fields, unless they are not those of an extent. -/
def Position.ofFields (fields : Position.Fields) : Except String Position :=
  match Located.ofBounds? fields.file fields.firstLine fields.firstCol fields.lastLine fields.lastCol with
  | some position => .ok position
  | none => .error "span is backwards or uses a zero line/column"

def Position.format : Format Position := Position.Fields.format.checked Position.fields Position.ofFields

/-- The entries of a table by the numbers of their nodes, earliest node first. -/
def PositionTable.toEntries (table : PositionTable) : List (Nat × Position) :=
  table.toList.map fun (node, position) => (node.index, position)

/-- The table of some entries, the last of each node being the one that counts. -/
def PositionTable.ofEntries (entries : List (Nat × Position)) : PositionTable :=
  PositionTable.ofList (entries.map fun (index, position) => (⟨index⟩, position))

/-- Tables whose entries are written in the order that `order` gives them; they are read in any. -/
def PositionTable.formatIn (order : List (Nat × Position) → List (Nat × Position)) : Format PositionTable :=
  Format.record "SourcePositionRecorder" (.field "positions" Position.format.mapOfKeys .refused .done)
    (fun table => (order table.toEntries, ())) fun (entries, _) => PositionTable.ofEntries entries

def PositionTable.format : Format PositionTable := PositionTable.formatIn id

/-! ## Whole trees -/

def Ast.format : Format Ast :=
  Format.record "Ast"
    (.field "nodes" (Arena.format NodeData.format) .refused <| .field "strings" StringPool.format .refused <|
      .field "call_sites" CallSite.format.list .refused .done)
    (fun ast => (ast.nodes, ast.strings, ast.callSites, ()))
    fun (nodes, strings, callSites, _) => ⟨nodes, strings, callSites⟩

end FunctionTrees
