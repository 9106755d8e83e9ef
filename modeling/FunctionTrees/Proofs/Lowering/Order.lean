import FunctionTrees.Proofs.Ast.Rows
import FunctionTrees.Proofs.Lowering.Refinement

/-!
# In which order a function is built

* `stacking_statement`, `stacking_instruction`, `stacking_block`, `stacking_plan` : statements, instructions and blocks
  are built one after the other;
* `Ast.RowUnder root` : the trees under the children of `root` were made one after the other, and then `root`;
* `FunctionStacked parts`, `functionStacked_of_lower` : so it is in a lowered function, for the roots of the blocks and
  for the statements under each of them.
-/

set_option autoImplicit false

namespace FunctionTrees

/-- The trees under the children of `root` were made one after the other, and then `root`. -/
def Ast.RowUnder (ast : Ast) (root : Node) : Prop :=
  ∃ low children, ast.children root = .ok children ∧ ast.Rows low children root.index

theorem Ast.RowUnder.grow {small large : Ast} {root : Node} (h : small.RowUnder root) (hclosed : small.Closed)
    (hgrown : small.Extends large) : large.RowUnder root := by
  obtain ⟨low, children, hchildren, hrows⟩ := h
  obtain ⟨data, hdata, -⟩ := Ast.children_eq_ok_iff.1 hchildren
  have hlt := Ast.lt_size_of_data hdata
  exact ⟨low, children, hgrown.children hchildren, hrows.grow hclosed hgrown (Nat.le_of_lt hlt)⟩

namespace Lowering

open Build

/-- No position is current: what holds between instructions. -/
abbrev Idle (b : Builder) : Prop := b.current = none

theorem stacking_of_lays {α : Type} {act : Build α} {R : Builder → α → Prop} (h : act.Lays (fun _ => []) R) :
    act.Stacking Idle fun _ => [] := by
  intro b hsound hidle
  obtain ⟨hcovers, hidle', -⟩ := h b hsound hidle
  exact ⟨hidle', hcovers.stacks_nil⟩

/-! ## Instructions -/

theorem stacking_statement (statement : Statement) :
    statement.build.Stacking (fun _ => True) fun node => [node] := by
  intro b hsound _
  exact ⟨trivial, (statement.makes_build b hsound).toCovers.stacks⟩

theorem stacking_instruction (inst : PlannedInstruction) : inst.build.Stacking Idle fun nodes => nodes := by
  intro b hsound hidle
  obtain ⟨-, hplaced⟩ := stacking_of_lays (lays_place? inst.position) b hsound hidle
  -- the span is current while the statements are built, which makes no difference to the nodes
  obtain ⟨-, hstacks⟩ := Stacking.mapM (fun statement (_ : statement ∈ inst.statements) => stacking_statement statement)
    { ((inst.position.mapM place).run b).2 with current := ((inst.position.mapM place).run b).1 }
    (hplaced.sound.at _ _) trivial
  simp only [List.flatMap_singleton'] at hstacks
  have hnodes : Builder.Stacks ((inst.position.mapM place).run b).2 (inst.build.run b).2 (inst.build.run b).1 :=
    ⟨hstacks.toCovers.at_ _ none, hstacks.rows⟩
  exact ⟨rfl, hplaced.append hnodes⟩

/-! ## Blocks -/

theorem stacking_block (block : PlannedBlock) : block.build.Stacking Idle fun root => [root] := by
  intro b hsound hidle
  obtain ⟨hcovers, hidle', -⟩ := lays_block block b hsound hidle
  exact ⟨hidle', hcovers.stacks⟩

/-- The label and the statements are built one after the other, and then the block. -/
theorem rowUnder_block (block : PlannedBlock) :
    block.build.Lays (fun root => [root]) fun b root => b.ast.RowUnder root := by
  intro b hsound hidle
  obtain ⟨hcovers, hidle', -⟩ := lays_block block b hsound hidle
  refine ⟨hcovers, hidle', ?_⟩
  have hlabel := makes_label block.label b hsound
  obtain ⟨-, hbody⟩ := Stacking.mapM (fun inst (_ : inst ∈ block.instructions) => stacking_instruction inst) _ hlabel.sound
    (hlabel.current.trans hidle)
  have hall := hlabel.toCovers.stacks.append hbody
  rw [PlannedBlock.build, run_bind, run_bind, Build.block, run_interior rfl]
  generalize (Build.label block.label).run b = labelled at *
  generalize (block.instructions.mapM PlannedInstruction.build).run labelled.2 = body at *
  have hrows := hall.rows
  simp only [List.flatMap_id', List.singleton_append] at hrows
  refine ⟨b.ast.size, labelled.1 :: body.1.flatten, ?_, ?_⟩
  · exact Ast.children_eq_ok_iff.2 ⟨_, body.2.data_store _, rfl⟩
  · exact hrows.grow hall.sound.closed (body.2.extends_store _) (Nat.le_refl _)

theorem lasting_rowUnder : Lasting fun b root => b.ast.RowUnder root :=
  fun _ _ _ hsound hkeeps hrow => hrow.grow hsound.closed hkeeps.grown

/-! ## Functions -/

theorem stacking_plan (plan : Plan) : plan.build.Stacking Idle Built.blocks := by
  intro b hsound hidle
  obtain ⟨hidle₁, hposition⟩ := stacking_of_lays (lays_place? plan.position) b hsound hidle
  obtain ⟨hidle₂, harguments⟩ :=
    Stacking.mapM (fun span (_ : span ∈ plan.argumentPositions) => stacking_of_lays (lays_place span)) _
      hposition.sound hidle₁
  obtain ⟨hidle₃, hblocks⟩ :=
    Stacking.mapM (fun block (_ : block ∈ plan.blocks) => stacking_block block) _ harguments.sound hidle₂
  have hall := (hposition.append harguments).append hblocks
  -- positions have no nodes
  simp only [List.flatMap_eq_nil_iff.2 fun _ _ => rfl, List.flatMap_singleton', List.nil_append] at hall
  exact ⟨hidle₃, hall⟩

theorem rowUnder_plan (plan : Plan) :
    plan.build.Lays Built.blocks fun b built => ∀ root ∈ built.blocks, b.ast.RowUnder root := by
  intro b hsound hidle
  obtain ⟨hcovers, hidle', -⟩ := lays_plan plan b hsound hidle
  refine ⟨hcovers, hidle', ?_⟩
  obtain ⟨hposition, hidle₁, -⟩ := lays_place? plan.position b hsound hidle
  obtain ⟨harguments, hidle₂, -⟩ := Lays.mapM lays_place lasting_locates plan.argumentPositions _ hposition.sound hidle₁
  obtain ⟨-, -, hrows⟩ :=
    Lays.mapM rowUnder_block (fun _ => lasting_rowUnder) plan.blocks _ harguments.sound hidle₂
  intro root hroot
  obtain ⟨_, -, hrow⟩ := Outcome.exists_mem_zip_of_forall₂ hrows hroot
  exact hrow

/-- The blocks of a function, and the statements of each block, were built one after the other. -/
structure FunctionStacked (parts : EntityParts) : Prop where
  rows : parts.ast.Rows 0 parts.blocks parts.ast.size
  statements : ∀ root ∈ parts.blocks, parts.ast.RowUnder root

theorem functionStacked_of_lower {function : Transfer.Function} {parts : EntityParts}
    (h : (lower function).result = .ok parts) : FunctionStacked parts := by
  rw [result_lower] at h
  obtain ⟨plan, -, ⟨⟩⟩ := Outcome.bind_eq_ok_iff.1 h
  obtain ⟨-, hstacks⟩ := stacking_plan plan {} Builder.sound_empty rfl
  obtain ⟨-, -, hrows⟩ := rowUnder_plan plan {} Builder.sound_empty rfl
  exact ⟨hstacks.rows, hrows⟩

end Lowering

end FunctionTrees
