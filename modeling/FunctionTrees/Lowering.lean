import FunctionTrees.Entity
import FunctionTrees.Lowering.Check

/-!
# Lowering functions to trees

`lower` checks a function and builds its tree from the plan that the check gives. Each block becomes a block node that
starts with its label; while the statements of an instruction are built, the instruction's span is the current position.
-/

set_option autoImplicit false

namespace FunctionTrees.Lowering

/-- The nodes of the statements of an instruction. -/
def PlannedInstruction.build (inst : PlannedInstruction) : Build (List Node) := do
  let position ← inst.position.mapM Build.place
  Build.at? position
  let nodes ← inst.statements.mapM Statement.build
  Build.at? none
  return nodes

/-- The root of a block. -/
def PlannedBlock.build (block : PlannedBlock) : Build Node := do
  let label ← Build.label block.label
  let statements ← block.instructions.mapM PlannedInstruction.build
  Build.block (label :: statements.flatten)

/-- What a plan amounts to beside the tree itself. -/
structure Built where
  position : Option Position
  argumentPositions : List Position
  blocks : List Node
deriving DecidableEq

def Plan.build (plan : Plan) : Build Built := do
  let position ← plan.position.mapM Build.place
  let argumentPositions ← plan.argumentPositions.mapM Build.place
  let blocks ← plan.blocks.mapM PlannedBlock.build
  return ⟨position, argumentPositions, blocks⟩

/-- The parts of a function whose plan is given. -/
def partsOf (function : Transfer.Function) (plan : Plan) : EntityParts :=
  let (built, builder) := plan.build.run {}
  { name := function.name
    ast := builder.ast
    blocks := built.blocks
    returnType := function.returnType
    argumentTypes := function.argumentTypes
    argumentNames := function.argumentNames
    positions := builder.positions
    position := built.position
    argumentPositions := built.argumentPositions }

/-- The parts of a function, or the first thing that is wrong with it. -/
def lower (function : Transfer.Function) : Logged LowerError EntityParts := do
  return partsOf function (← planOf function)

end FunctionTrees.Lowering
