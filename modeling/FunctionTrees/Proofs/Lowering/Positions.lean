import FunctionTrees.Proofs.Lowering.Refinement

/-!
# Positions of lowered functions

* `Block.origins` : the instruction that each statement of a block comes from;
* `ComesFrom function parts statement inst` : `statement` is one of those that were built for `inst`;
* `BlockBuilt.origins` : the statements under the root of a block are those of its instructions, in their order;
* `Traced function parts` : the positions are those of the instructions, where they have one, and no others;
* `traced_of_lower` : the positions of a lowered function are.
-/

set_option autoImplicit false

namespace FunctionTrees

open Transfer

def Transfer.Block.origins (block : Block) : List Instruction :=
  block.instructions.flatMap fun inst => List.replicate inst.width inst

namespace Lowering

/-! ## Statements and instructions -/

/-- `statement` is one of those that were built for `inst`. -/
def ComesFrom (function : Function) (parts : EntityParts) (statement : Node) (inst : Instruction) : Prop :=
  ∃ block root label statements, (block, root) ∈ function.blocks.zip parts.blocks ∧
    parts.ast.children root = .ok (label :: statements) ∧ (inst, statement) ∈ block.origins.zip statements

/-- The statements under the root of a block are those of its instructions, in their order. -/
theorem BlockBuilt.origins {parts : EntityParts} {block : Block} {root label : Node} {segments : List (List Node)}
    (h : BlockBuilt parts block root label segments) :
    List.Forall₂ (fun inst statement => ∃ nodes, InstructionBuilt parts inst nodes ∧ statement ∈ nodes)
      block.origins segments.flatten := by
  rw [Block.origins, List.flatMap_def]
  apply List.rel_flatten
  rw [List.forall₂_map_left_iff]
  apply h.instructions.imp
  intro inst nodes hinst
  rw [← hinst.length_eq]
  exact Outcome.forall₂_replicate fun statement hmem => ⟨nodes, hinst, hmem⟩

/-! ## Functions -/

/-- The positions are those of the instructions, where they have one, and no others. -/
structure Traced (function : Function) (parts : EntityParts) : Prop where
  /-- Over each root stand a label and then the statements of the instructions. -/
  lined_up : List.Forall₂ (fun block root => ∃ label statements,
    parts.ast.children root = .ok (label :: statements) ∧ parts.ast.kind label = .ok .label ∧
      statements.length = block.origins.length) function.blocks parts.blocks
  isSome_iff : ∀ node, (parts.positions.get? node).isSome ↔ parts.ast.Inner node ∧
    ∃ statement inst, ComesFrom function parts statement inst ∧ inst.position.isSome ∧ parts.ast.Below statement node
  shows : ∀ statement inst, ComesFrom function parts statement inst → ∀ node, parts.ast.Below statement node →
    parts.ast.Inner node → Option.Rel parts.ast.Shows inst.position (parts.positions.get? node)
  statements : ∀ statement inst, ComesFrom function parts statement inst →
    Option.Rel parts.ast.Shows inst.position (parts.positions.get? statement)
  roots : ∀ root ∈ parts.blocks, parts.positions.get? root = none
  labels : ∀ root ∈ parts.blocks, ∀ label statements, parts.ast.children root = .ok (label :: statements) →
    ∀ node, parts.ast.Below label node → parts.positions.get? node = none
  leaves : ∀ node, ¬ parts.ast.Inner node → parts.positions.get? node = none

namespace FunctionBuilt

variable {function : Function} {parts : EntityParts}

theorem exists_of_comesFrom (h : FunctionBuilt function parts) {statement : Node} {inst : Instruction}
    (hfrom : ComesFrom function parts statement inst) :
    ∃ nodes, InstructionBuilt parts inst nodes ∧ statement ∈ nodes := by
  obtain ⟨block, root, label, statements, hroot, hchildren, hstatement⟩ := hfrom
  obtain ⟨label', segments, hblock⟩ := List.forall₂_zip h.blocks hroot
  rw [hblock.children] at hchildren
  cases hchildren
  exact List.forall₂_zip hblock.origins hstatement

/-- The position of what was built for an instruction is that of the instruction. -/
theorem shows (h : FunctionBuilt function parts) {statement : Node} {inst : Instruction}
    (hfrom : ComesFrom function parts statement inst) {node : Node} (hbelow : parts.ast.Below statement node) :
    (parts.ast.Inner node → Option.Rel parts.ast.Shows inst.position (parts.positions.get? node)) ∧
      (¬ parts.ast.Inner node → parts.positions.get? node = none) := by
  obtain ⟨nodes, hinst, hmem⟩ := h.exists_of_comesFrom hfrom
  obtain ⟨position, hshows, hmarked⟩ := hinst.marked
  obtain ⟨hinner, hleaf⟩ := hmarked statement hmem node hbelow
  refine ⟨fun h => ?_, hleaf⟩
  have hposition : parts.positions.get? node = position := hinner h
  rw [hposition]
  exact hshows

theorem labelled (h : FunctionBuilt function parts) {root label : Node} {statements : List Node}
    (hroot : root ∈ parts.blocks) (hchildren : parts.ast.children root = .ok (label :: statements)) {node : Node}
    (hbelow : parts.ast.Below label node) : parts.positions.get? node = none := by
  obtain ⟨block, -, label', segments, hblock⟩ := Outcome.exists_mem_zip_of_forall₂ h.blocks hroot
  rw [hblock.children] at hchildren
  cases hchildren
  obtain ⟨hinner, hleaf⟩ := hblock.label_marked label (List.mem_singleton_self label) node hbelow
  by_cases hnode : parts.ast.Inner node
  · exact hinner hnode
  · exact hleaf hnode

theorem unmarked (h : FunctionBuilt function parts) {root : Node} (hroot : root ∈ parts.blocks) :
    parts.positions.get? root = none := by
  obtain ⟨block, -, label, segments, hblock⟩ := Outcome.exists_mem_zip_of_forall₂ h.blocks hroot
  exact hblock.unmarked

/-- A node is a root, or under a label, or under a statement. -/
theorem owner (h : FunctionBuilt function parts) {node : Node} (hlt : node.index < parts.ast.size) :
    node ∈ parts.blocks ∨ (∃ root ∈ parts.blocks, ∃ label statements,
      parts.ast.children root = .ok (label :: statements) ∧ parts.ast.Below label node) ∨
    ∃ statement inst, ComesFrom function parts statement inst ∧ parts.ast.Below statement node := by
  obtain ⟨root, hroot, hbelow⟩ := h.covers.below_iff.2 ⟨Nat.zero_le _, hlt⟩
  obtain ⟨block, hzip, label, segments, hblock⟩ := Outcome.exists_mem_zip_of_forall₂ h.blocks hroot
  rcases hbelow.eq_or_under hblock.data with rfl | ⟨child, hmem, hbelow⟩
  · exact .inl hroot
  · rcases List.mem_cons.1 hmem with rfl | hmem
    · exact .inr (.inl ⟨root, hroot, _, _, hblock.children, hbelow⟩)
    · obtain ⟨inst, hinst, -⟩ := Outcome.exists_mem_zip_of_forall₂ hblock.origins hmem
      exact .inr (.inr ⟨_, inst, ⟨block, root, label, _, hzip, hblock.children, hinst⟩, hbelow⟩)

/-- A node with a position is under a statement. -/
theorem statement_of_get? (h : FunctionBuilt function parts) {node : Node} {position : Position}
    (hposition : parts.positions.get? node = some position) :
    ∃ statement inst, ComesFrom function parts statement inst ∧ parts.ast.Below statement node := by
  have hlt : node.index < parts.ast.size := by
    by_contra hle
    have hnone := h.covers.sound.unrecorded node (Nat.le_of_not_lt hle)
    exact Option.some_ne_none position (hposition.symm.trans hnone)
  rcases h.owner hlt with hroot | ⟨root, hroot, label, statements, hchildren, hbelow⟩ | hstatement
  · rw [h.unmarked hroot] at hposition
    cases hposition
  · rw [h.labelled hroot hchildren hbelow] at hposition
    cases hposition
  · exact hstatement

theorem isSome_iff (h : FunctionBuilt function parts) (node : Node) :
    (parts.positions.get? node).isSome ↔ parts.ast.Inner node ∧
      ∃ statement inst, ComesFrom function parts statement inst ∧ inst.position.isSome ∧
        parts.ast.Below statement node := by
  constructor
  · intro hsome
    obtain ⟨position, hposition⟩ := Option.isSome_iff_exists.1 hsome
    obtain ⟨statement, inst, hfrom, hbelow⟩ := h.statement_of_get? hposition
    obtain ⟨hshows, hleaf⟩ := h.shows hfrom hbelow
    have hinner : parts.ast.Inner node := by
      by_contra hnode
      rw [hleaf hnode] at hposition
      cases hposition
    refine ⟨hinner, statement, inst, hfrom, ?_, hbelow⟩
    rw [Outcome.isSome_eq_of_rel (hshows hinner)]
    exact hsome
  · rintro ⟨hinner, statement, inst, hfrom, hsome, hbelow⟩
    have hshows := (h.shows hfrom hbelow).1 hinner
    rw [← Outcome.isSome_eq_of_rel hshows]
    exact hsome

theorem lined_up (h : FunctionBuilt function parts) : List.Forall₂ (fun block root => ∃ label statements,
    parts.ast.children root = .ok (label :: statements) ∧ parts.ast.kind label = .ok .label ∧
      statements.length = block.origins.length) function.blocks parts.blocks := by
  apply h.blocks.imp
  rintro block root ⟨label, segments, hblock⟩
  obtain ⟨children, hlabel⟩ := hblock.label_stands.exists_children
  have hkind := Ast.kind_eq_ok_iff.2 ⟨_, hlabel, rfl⟩
  exact ⟨label, segments.flatten, hblock.children, hkind, hblock.origins.length_eq.symm⟩

end FunctionBuilt

/-- The positions of a lowered function are those of its instructions. -/
theorem traced_of_lower (function : Function) (parts : EntityParts) (h : (lower function).result = .ok parts) :
    Traced function parts := by
  have hbuilt := functionBuilt_of_lower h
  refine ⟨hbuilt.lined_up, hbuilt.isSome_iff, ?_, ?_, fun root => hbuilt.unmarked, ?_, ?_⟩
  · intro statement inst hfrom node hbelow
    exact (hbuilt.shows hfrom hbelow).1
  · intro statement inst hfrom
    apply (hbuilt.shows hfrom (.self statement)).1
    obtain ⟨nodes, hinst, hmem⟩ := hbuilt.exists_of_comesFrom hfrom
    exact hinst.inner statement hmem
  · intro root hroot label statements hchildren node hbelow
    exact hbuilt.labelled hroot hchildren hbelow
  · intro node hleaf
    by_contra hsome
    rw [← ne_eq, Option.ne_none_iff_isSome] at hsome
    exact hleaf ((hbuilt.isSome_iff node).1 hsome).1

theorem traced_sample : ∃ parts, (lower sample).result = .ok parts ∧ Traced sample parts :=
  ⟨_, rfl, traced_of_lower sample _ rfl⟩

end Lowering

end FunctionTrees
