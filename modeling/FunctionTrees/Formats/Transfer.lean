import FunctionTrees.Json.Record
import FunctionTrees.Transfer

/-!
# Functions that are handed over, in JSON

The formats of functions and their parts. What an instruction or a function need not have can be left out, and a unit is
a list of functions.
-/

set_option autoImplicit false

namespace FunctionTrees.Transfer

open Json (Format Layout Case)

def Span.format : Format Span :=
  Format.record "RawPosition"
    (.field "file" Format.text .refused <| .field "first_line" Format.word32 .refused <|
      .field "first_col" Format.word32 .refused <| .field "last_line" Format.word32 .refused <|
      .field "last_col" Format.word32 .refused .done)
    (fun span => (span.file, span.firstLine, span.firstCol, span.lastLine, span.lastCol, ()))
    fun (file, firstLine, firstCol, lastLine, lastCol, _) => ⟨file, firstLine, firstCol, lastLine, lastCol⟩

def Operand.format : Format Operand where
  reader := Case.reader
    [("var", .content (Operand.var <$> Format.text.reader)), ("int", .content (Operand.int <$> Format.int64.reader)),
      ("float", .content (Operand.float <$> Format.float.reader)), ("bool", .content (Operand.bool <$> Format.bool.reader)),
      ("str", .content (Operand.str <$> Format.text.reader)), ("null", .bare .null)]
  write
    | .var name => Case.writeContent "var" (Format.text.write name)
    | .int value => Case.writeContent "int" (Format.int64.write value)
    | .float bits => Case.writeContent "float" (Format.float.write bits)
    | .bool value => Case.writeContent "bool" (Format.bool.write value)
    | .str text => Case.writeContent "str" (Format.text.write text)
    | .null => Case.writeBare "null"

def Instruction.format : Format Instruction :=
  Format.record "RawInstruction"
    (.field "opcode" Format.text .refused <| .field "result" Format.text.optional (.defaulted none) <|
      .field "operands" Operand.format.list (.defaulted []) <| .field "targets" Format.text.list (.defaulted []) <|
      .field "position" Span.format.optional (.defaulted none) .done)
    (fun inst => (inst.opcode, inst.result, inst.operands, inst.targets, inst.position, ()))
    fun (opcode, result, operands, targets, position, _) => ⟨opcode, result, operands, targets, position⟩

def Block.format : Format Block :=
  Format.record "RawBlock"
    (.field "label" Format.text .refused <| .field "instructions" Instruction.format.list .refused .done)
    (fun block => (block.label, block.instructions, ()))
    fun (label, instructions, _) => ⟨label, instructions⟩

def Function.format : Format Function :=
  Format.record "RawEntityInfo"
    (.field "version" Format.word32 .refused <| .field "function_name" Format.text .refused <|
      .field "return_type" Format.text .refused <| .field "argument_names" Format.text.list (.defaulted []) <|
      .field "argument_types" Format.text.list (.defaulted []) <|
      .field "argument_positions" Span.format.list (.defaulted []) <|
      .field "function_position" Span.format.optional (.defaulted none) <|
      .field "blocks" Block.format.list (.defaulted []) .done)
    (fun function =>
      (function.version, function.name, function.returnType, function.argumentNames, function.argumentTypes,
        function.argumentPositions, function.position, function.blocks, ()))
    fun (version, name, returnType, argumentNames, argumentTypes, argumentPositions, position, blocks, _) =>
      ⟨version, name, returnType, argumentNames, argumentTypes, argumentPositions, position, blocks⟩

/-- The format of a unit. -/
def unitFormat : Format (List Function) := Function.format.list

end FunctionTrees.Transfer
