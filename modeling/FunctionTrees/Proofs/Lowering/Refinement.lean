import FunctionTrees.Proofs.Lowering.Layout
import FunctionTrees.Proofs.Lowering.Planning

/-!
# Lowered functions stand for their trees

* `Shows ast span position` : `position` has the file and the numbers of `span`;
* `EntityParts.builder` : the builder that has built a tree and its positions;
* `InstructionBuilt`, `BlockBuilt`, `FunctionBuilt` : what has been built for an instruction, a block, a function as it
  was handed over;
* `functionBuilt_of_lower` : lowering builds it;
* `BlockBuilt.stands`, `BlockBuilt.unfold` : the root of a block unfolds to the tree of the block;
* `lower_unfold` : the roots of a lowered function unfold to the trees of its blocks;
* `sample`, `lower_unfold_sample` : a function that is lowered.
-/

set_option autoImplicit false

namespace FunctionTrees

open Transfer Outcome

/-! ## Spans in a tree -/

/-- The position has the file of the span, as a string of the tree, and its numbers. -/
structure Ast.Shows (ast : Ast) (span : Span) (position : Position) : Prop where
  file : ast.string? position.file = some span.file
  firstLine : position.extent.firstLine = span.firstLine
  firstCol : position.extent.firstCol = span.firstCol
  lastLine : position.extent.lastLine = span.lastLine
  lastCol : position.extent.lastCol = span.lastCol

/-- The builder that has built the tree and its positions, and is done. -/
def EntityParts.builder (parts : EntityParts) : Builder := { ast := parts.ast, positions := parts.positions }

namespace Lowering

theorem shows_of_sited {ast : Ast} {span : Span} {located : FileSpan} {position : Position}
    (hsited : Sited span located) (hlocates : ast.Locates located position) : ast.Shows span position := by
  obtain ⟨hfile, hfirstLine, hfirstCol, hlastLine, hlastCol⟩ := hsited.fields
  obtain ⟨file, htext, rfl⟩ := Outcome.map_eq_ok_iff.1 hlocates
  refine ⟨?_, hfirstLine, hfirstCol, hlastLine, hlastCol⟩
  rw [← hfile]
  exact StringPool.fetch_eq_ok_iff.1 htext

theorem shows?_of_sited {ast : Ast} {span : Option Span} {located : Option FileSpan} {position : Option Position}
    (hsited : Option.Rel Sited span located) (hlocates : Option.Rel ast.Locates located position) :
    Option.Rel ast.Shows span position := by
  cases hsited with
  | none =>
    cases hlocates with
    | none => exact .none
  | some hsited =>
    cases hlocates with
    | some hlocates => exact .some (shows_of_sited hsited hlocates)

/-! ## Instructions and blocks -/

/-- The trees of an instruction have been built under `nodes`, at the span of the instruction. -/
structure InstructionBuilt (parts : EntityParts) (inst : Instruction) (nodes : List Node) : Prop where
  stands : List.Forall₂ parts.ast.Stands nodes inst.trees
  length_eq : nodes.length = inst.width
  inner : ∀ node ∈ nodes, parts.ast.Inner node
  marked : ∃ position, Option.Rel parts.ast.Shows inst.position position ∧ parts.builder.Marked nodes position

/-- A block has been built under `root`, its instructions over the nodes of `segments`. -/
structure BlockBuilt (parts : EntityParts) (block : Block) (root label : Node) (segments : List (List Node)) :
    Prop where
  data : parts.ast.data root = .ok (.interior .block (label :: segments.flatten))
  unmarked : parts.positions.get? root = none
  label_stands : parts.ast.Stands label (.named .label block.label)
  label_marked : parts.builder.Marked [label] none
  instructions : List.Forall₂ (InstructionBuilt parts) block.instructions segments

theorem BlockBuilt.children {parts : EntityParts} {block : Block} {root label : Node} {segments : List (List Node)}
    (h : BlockBuilt parts block root label segments) :
    parts.ast.children root = .ok (label :: segments.flatten) :=
  Ast.children_eq_ok_iff.2 ⟨_, h.data, rfl⟩

theorem instructionBuilt_of_laid {parts : EntityParts} {labels : List String} {inst : Instruction}
    {planned : PlannedInstruction} {nodes : List Node} (hplanned : InstructionPlanned labels inst planned)
    (hlaid : InstructionLaid parts.builder planned nodes) : InstructionBuilt parts inst nodes := by
  obtain ⟨position, hlocates, hmarked⟩ := hlaid.marked
  refine ⟨?_, ?_, ?_, position, shows?_of_sited hplanned.position hlocates, hmarked⟩
  · rw [← hplanned.means.map_tree]
    exact hlaid.stands
  · rw [hlaid.stands.length_eq, List.length_map, hplanned.means.length_eq]
  · intro node hmem
    obtain ⟨tree, htree, hstands⟩ := exists_mem_of_forall₂ hlaid.stands hmem
    obtain ⟨statement, -, rfl⟩ := List.mem_map.1 htree
    exact Statement.inner_of_stands hstands

theorem blockBuilt_of_laid {parts : EntityParts} {labels : List String} {block : Block} {planned : PlannedBlock}
    {root label : Node} {segments : List (List Node)} (hplanned : BlockPlanned labels block planned)
    (hlaid : BlockLaid parts.builder planned root label segments) : BlockBuilt parts block root label segments := by
  refine ⟨hlaid.data, hlaid.unmarked, ?_, hlaid.label_marked, ?_⟩
  · rw [← hplanned.label]
    exact hlaid.label_stands
  · exact forall₂_trans hplanned.instructions hlaid.instructions fun _ _ _ => instructionBuilt_of_laid

/-! ## Functions -/

/-- The blocks of the function have been built, and nothing else. -/
structure FunctionBuilt (function : Function) (parts : EntityParts) : Prop where
  covers : Builder.Covers {} parts.builder parts.blocks
  blocks : List.Forall₂ (fun block root => ∃ label segments, BlockBuilt parts block root label segments)
    function.blocks parts.blocks

/-- No position is current at the end, so that the tree and the positions are all that is left. -/
theorem builder_partsOf (function : Function) (plan : Plan) :
    (partsOf function plan).builder = (plan.build.run {}).2 := by
  obtain ⟨-, hnone, -⟩ := lays_plan plan {} Builder.sound_empty rfl
  have hdone : ∀ b : Builder, b.current = none → ⟨b.ast, b.positions, none⟩ = b := by
    rintro ⟨ast, positions, current⟩ rfl
    rfl
  exact hdone _ hnone

theorem functionBuilt_of_lower {function : Function} {parts : EntityParts}
    (h : (lower function).result = .ok parts) : FunctionBuilt function parts := by
  rw [result_lower] at h
  obtain ⟨plan, hplan, ⟨⟩⟩ := bind_eq_ok_iff.1 h
  have hplanned := functionPlanned_of_planOf hplan
  obtain ⟨hcovers, -, hlaid⟩ := lays_plan plan {} Builder.sound_empty rfl
  have hbuilder := builder_partsOf function plan
  rw [← hbuilder] at hcovers hlaid
  refine ⟨hcovers, forall₂_trans hplanned.blocks hlaid.blocks ?_⟩
  rintro block planned root hblock ⟨label, segments, hroot⟩
  exact ⟨label, segments, blockBuilt_of_laid hblock hroot⟩

/-! ## Unfolding -/

/-- Under the root of a block, the label and the statements stand for their trees. -/
theorem BlockBuilt.stands {parts : EntityParts} {block : Block} {root label : Node} {segments : List (List Node)}
    (h : BlockBuilt parts block root label segments) : List.Forall₂ parts.ast.Stands (label :: segments.flatten)
      (.named .label block.label :: block.instructions.flatMap Instruction.trees) := by
  refine .cons h.label_stands ?_
  rw [List.flatMap_def]
  apply List.rel_flatten
  rw [List.forall₂_map_right_iff]
  exact (h.instructions.imp fun _ _ hinst => hinst.stands).flip

/-- The root of a block unfolds to the tree of the block. -/
theorem BlockBuilt.unfold {parts : EntityParts} {block : Block} {root label : Node} {segments : List (List Node)}
    (h : BlockBuilt parts block root label segments) (hclosed : parts.ast.Closed) :
    parts.ast.unfold (fun _ => none) root = .ok block.tree := by
  apply Ast.unfold_block h.data hclosed
  exact h.stands.imp fun statement tree hstatement => ⟨tree, hstatement, rfl⟩

/-- One root stands for each block, in the order of the blocks, and unfolds to the tree of the block. -/
theorem lower_unfold (function : Function) (parts : EntityParts) (h : (lower function).result = .ok parts) :
    parts.blocks.mapM (parts.ast.unfold fun _ => none) = .ok (function.blocks.map Block.tree) := by
  have hbuilt := functionBuilt_of_lower h
  rw [Outcome.mapM_eq_ok_iff, List.forall₂_map_right_iff]
  apply List.Forall₂.flip
  apply hbuilt.blocks.imp
  rintro block root ⟨label, segments, hblock⟩
  exact hblock.unfold hbuilt.covers.sound.closed

/-- A comparison, a branch, a call and an operation of three operands, some of them with spans. -/
def sample : Function where
  name := "clamp"
  returnType := "Int"
  blocks := [
    ⟨"entry", [
      { opcode := "lt", result := some "c", operands := [.var "x", .int 0], position := some ⟨"f.swift", 1, 2, 1, 9⟩ },
      { opcode := "cond_br", operands := [.var "c"], targets := ["low", "low"],
        position := some ⟨"f.swift", 2, 1, 2, 9⟩ }]⟩,
    ⟨"low", [
      { opcode := "call", result := some "r", operands := [.var "print", .str "x"] },
      { opcode := "select", operands := [.var "c", .var "x", .var "r"], position := some ⟨"f.swift", 3, 1, 4, 9⟩ },
      { opcode := "return", operands := [.var "r"] }]⟩]

theorem lower_unfold_sample : ∃ parts, (lower sample).result = .ok parts ∧
    parts.blocks.mapM (parts.ast.unfold fun _ => none) = .ok (sample.blocks.map Block.tree) :=
  ⟨_, rfl, lower_unfold sample _ rfl⟩

end Lowering

end FunctionTrees
