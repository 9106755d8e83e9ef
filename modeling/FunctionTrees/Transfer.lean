import FunctionTrees.Position

/-!
# Functions as they are handed over

A front end hands functions over as plain data: blocks of instructions, each with an opcode and its operands. Nothing in
here is checked; `Transfer.version` is the version of the shape that this library takes.
-/

set_option autoImplicit false

namespace FunctionTrees.Transfer

/-- The version of the shape of a function. -/
def version : UInt32 := 1

/-- A stretch of a file, as reported. -/
structure Span where
  file : String
  firstLine : UInt32
  firstCol : UInt32
  lastLine : UInt32
  lastCol : UInt32
deriving DecidableEq

namespace Span

/-- The extent of the file, unless the bounds are not those of an extent. -/
def located? (span : Span) : Option FileSpan :=
  Located.ofBounds? span.file span.firstLine span.firstCol span.lastLine span.lastCol

/-- How a span is shown. -/
def text (span : Span) : String :=
  span.file ++ s!":{span.firstLine}:{span.firstCol}-{span.lastLine}:{span.lastCol}"

end Span

/-- An operand: a named value or a literal; floats are their IEEE 754 bits. -/
inductive Operand where
  | var (name : String)
  | int (value : Int64)
  | float (bits : UInt64)
  | bool (value : Bool)
  | str (text : String)
  | null
deriving DecidableEq

/-- An instruction; only branches have targets, which are labels of blocks. -/
structure Instruction where
  opcode : String
  result : Option String := none
  operands : List Operand := []
  targets : List String := []
  position : Option Span := none
deriving DecidableEq

/-- Instructions under a label. -/
structure Block where
  label : String
  instructions : List Instruction
deriving DecidableEq

/-- A function; it is a declaration if it has no blocks. -/
structure Function where
  version : UInt32 := Transfer.version
  name : String
  returnType : String
  argumentNames : List String := []
  argumentTypes : List String := []
  argumentPositions : List Span := []
  position : Option Span := none
  blocks : List Block := []
deriving DecidableEq

end FunctionTrees.Transfer
