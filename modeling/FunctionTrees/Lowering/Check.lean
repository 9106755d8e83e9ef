import FunctionTrees.Event
import FunctionTrees.Lowering.Statement

/-!
# Checking functions

`planOf` goes through a function in reading order and ends in the first thing that is wrong with it, or in a `Plan`: its
blocks as plain statements, with spans that are known to be sound. Operations that no operator stands for are logged on
the way. Only the opcodes of control flow (`Opcode`) ask anything of an instruction.
-/

set_option autoImplicit false

namespace FunctionTrees.Lowering

open Transfer

/-! ## Errors -/

/-- What is wrong with an instruction. -/
inductive Reason where
  | targetsOfNonBranch
  | operandCount (expected found : Nat)
  | tooManyOperands (found : Nat)
  | noResult
  | unwantedResult
  | targetCount (expected found : Nat)
  | unknownTarget (label : String)
  | noCallTarget
deriving DecidableEq

def Reason.message : Reason → String
  | targetsOfNonBranch => "only branches can have targets"
  | operandCount expected found => s!"expected {expected} operands, found {found}"
  | tooManyOperands found => s!"expected at most 1 operand, found {found}"
  | noResult => "nothing to assign to"
  | unwantedResult => "does not produce a value"
  | targetCount expected found => s!"expected {expected} branch targets, found {found}"
  | unknownTarget label => "unknown branch target `" ++ label ++ "`"
  | noCallTarget => "a call needs a target"

/-- What is wrong with a function. -/
inductive LowerError where
  | unsupportedVersion (found : UInt32)
  | duplicateLabel (label : String)
  | malformedInstruction (block : String) (index : Nat) (opcode : String) (reason : Reason)
  | invalidPosition (span : Span)
deriving DecidableEq

def LowerError.message : LowerError → String
  | unsupportedVersion found => s!"unsupported transfer version {found} (expected {Transfer.version})"
  | duplicateLabel label => "block label `" ++ label ++ "` is used more than once"
  | malformedInstruction block index opcode reason =>
    "malformed `" ++ opcode ++ s!"` (instruction {index} of block `" ++ block ++ "`): " ++ reason.message
  | invalidPosition span => "invalid source span " ++ span.text

/-! ## Instructions -/

/-- What an opcode stands for. -/
inductive Opcode where
  | assign
  | ret
  | br
  | condBr
  | call
  | operation (mnemonic : String)
deriving DecidableEq

namespace Opcode

def ofText (text : String) : Opcode :=
  if text = "assign" then assign
  else if text = "return" then ret
  else if text = "br" then br
  else if text = "cond_br" then condBr
  else if text = "call" then call
  else operation text

def isBranch : Opcode → Bool
  | br | condBr => true
  | _ => false

end Opcode

/-- An expression whose value goes to the result, if there is one. -/
def deliver (result : Option String) (value : Expr) : Statement :=
  match result with
  | some name => .bind name value
  | none => .eval value

/-- A target that has to be a label of the function. -/
def knownTarget (labels : List String) (target : String) : Except Reason String :=
  if target ∈ labels then .ok target else .error (.unknownTarget target)

/-- The statements of an instruction of a function with the given labels, or what is wrong with the instruction. -/
def statementsOf (labels : List String) (inst : Instruction) : Except Reason (List Statement) := do
  let opcode := Opcode.ofText inst.opcode
  if ¬ opcode.isBranch ∧ inst.targets ≠ [] then throw .targetsOfNonBranch
  match opcode with
  | .assign =>
    match inst.operands, inst.result with
    | [value], some name => return [.assign name value]
    | [_], none => throw .noResult
    | operands, _ => throw (.operandCount 1 operands.length)
  | .ret =>
    match inst.result, inst.operands with
    | some _, _ => throw .unwantedResult
    | none, [] => return [.ret none]
    | none, [value] => return [.ret (some value)]
    | none, operands => throw (.tooManyOperands operands.length)
  | .br =>
    match inst.result, inst.operands, inst.targets with
    | some _, _, _ => throw .unwantedResult
    | none, [], [target] => return [.goto (← knownTarget labels target)]
    | none, [], targets => throw (.targetCount 1 targets.length)
    | none, operands, _ => throw (.operandCount 0 operands.length)
  | .condBr =>
    match inst.result, inst.operands, inst.targets with
    | some _, _, _ => throw .unwantedResult
    | none, [condition], [target, otherwise] =>
      let target ← knownTarget labels target
      let otherwise ← knownTarget labels otherwise
      return [.ifGoto condition target, .goto otherwise]
    | none, [_], targets => throw (.targetCount 2 targets.length)
    | none, operands, _ => throw (.operandCount 1 operands.length)
  | .call =>
    match inst.operands with
    | target :: args => return [deliver inst.result (.call target args)]
    | [] => throw .noCallTarget
  | .operation mnemonic => return [deliver inst.result (.ofOperation mnemonic inst.operands)]

/-- What is logged of a stopgap of an instruction. -/
def Stopgap.event (function : String) (inst : Instruction) : Stopgap → Event
  | fallback op => .fallback function inst.opcode op
  | primitive => .primitive function inst.opcode inst.operands.length

/-- What is logged for a sound instruction: an operation that no operator stands for. -/
def eventsOf (function : String) (inst : Instruction) : List Event :=
  match Opcode.ofText inst.opcode with
  | .operation mnemonic => (Expr.attempt mnemonic inst.operands).1.map (Stopgap.event function inst)
  | _ => []

/-! ## Functions -/

/-- The statements of one instruction and their span. -/
structure PlannedInstruction where
  position : Option FileSpan
  statements : List Statement
deriving DecidableEq

/-- The instructions of a block and its label. -/
structure PlannedBlock where
  label : String
  instructions : List PlannedInstruction
deriving DecidableEq

/-- All that is built for a function. -/
structure Plan where
  position : Option FileSpan
  argumentPositions : List FileSpan
  blocks : List PlannedBlock
deriving DecidableEq

/-- The first of some labels that an earlier one repeats, after those `before`. -/
def repeatedLabel? (before : List String) : List String → Option String
  | [] => none
  | label :: labels => if label ∈ before then some label else repeatedLabel? (label :: before) labels

/-- A span that has to be sound. -/
def soundSpan (span : Span) : Logged LowerError FileSpan :=
  match span.located? with
  | some located => return located
  | none => .fail (.invalidPosition span)

/-- The plan of the instruction with number `index` in a block. -/
def planInstruction (function : String) (labels : List String) (block : String) (inst : Instruction) (index : Nat) :
    Logged LowerError PlannedInstruction := do
  let position ← inst.position.mapM soundSpan
  match statementsOf labels inst with
  | .error reason => .fail (.malformedInstruction block index inst.opcode reason)
  | .ok statements =>
    Logged.tellAll (eventsOf function inst)
    return ⟨position, statements⟩

/-- The plan of a block of a function with the given labels. -/
def planBlock (function : String) (labels : List String) (block : Block) : Logged LowerError PlannedBlock := do
  let instructions ← block.instructions.zipIdx.mapM fun (inst, index) =>
    planInstruction function labels block.label inst index
  return ⟨block.label, instructions⟩

/-- The plan of a function, or the first thing that is wrong with it. -/
def planOf (function : Function) : Logged LowerError Plan := do
  if function.version ≠ Transfer.version then .fail (.unsupportedVersion function.version)
  let labels := function.blocks.map Block.label
  if let some label := repeatedLabel? [] labels then .fail (.duplicateLabel label)
  let position ← function.position.mapM soundSpan
  let argumentPositions ← function.argumentPositions.mapM soundSpan
  let blocks ← function.blocks.mapM (planBlock function.name labels)
  return ⟨position, argumentPositions, blocks⟩

end FunctionTrees.Lowering
