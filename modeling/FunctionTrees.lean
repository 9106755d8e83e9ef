import FunctionTrees.Arena.Printer
import FunctionTrees.Ast.Builder
import FunctionTrees.Formats.Entity
import FunctionTrees.Main
import FunctionTrees.Proofs.Ast.Shapes
import FunctionTrees.Proofs.Lowering.Operations
import FunctionTrees.Proofs.Lowering.Forest
import FunctionTrees.Proofs.Lowering.Log
import FunctionTrees.Proofs.Lowering.Calls
import FunctionTrees.Proofs.Lowering.ControlFlow
import FunctionTrees.Proofs.Lowering.Reading
import FunctionTrees.Proofs.Lowering.References
import FunctionTrees.Proofs.CommandLine.Messages
import FunctionTrees.Proofs.CommandLine.Run
import FunctionTrees.Proofs.Unit
import FunctionTrees.Proofs.Formats.Entity
import FunctionTrees.Proofs.Formats.Spelling
import FunctionTrees.Proofs.Formats.StringPool
import FunctionTrees.Proofs.Entity.Table
import FunctionTrees.Proofs.Entity.Defects
import FunctionTrees.Proofs.Unit.Outcomes
import FunctionTrees.Proofs.Unit.Signature
import FunctionTrees.Proofs.Text.Delimited
import FunctionTrees.Proofs.Tree.Printer
import FunctionTrees.Proofs.Lowering.Printer
import FunctionTrees.Proofs.Position
import FunctionTrees.Proofs.Ast.Recording
import FunctionTrees.Proofs.Ast.Names
import FunctionTrees.Proofs.Lowering.Names
import FunctionTrees.Proofs.Text.LineBreaks
import FunctionTrees.Proofs.Tree.Lines
import FunctionTrees.Proofs.Unit.Lines
import FunctionTrees.Proofs.Arena.Overflow
import FunctionTrees.Proofs.PositionTable.Order
