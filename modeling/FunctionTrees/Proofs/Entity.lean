import FunctionTrees.Entity
import FunctionTrees.Proofs.Ast.References
import FunctionTrees.Proofs.PositionTable

/-!
# What makes an entity

* `Entity.ofParts_eq_ok_iff`, `Entity.ofParts_eq_error_iff` : parts make an entity exactly if they have no defect;
* `Ast.Holds`, `EntityParts.Placed` : a node is in the tree, and all positions belong to it; `positionsResolve_iff` : that is
  what is checked of positions;
* `EntityParts.Resolved` : what the parts refer to is in the tree;
* `Resolved.defect?_eq` : such parts lack a name, or their arguments do not line up, or they have no defect.
-/

set_option autoImplicit false

namespace FunctionTrees

open Outcome

/-! ## Entities -/

namespace Entity

variable {parts : EntityParts} {entity : Entity} {error : EntityError}

theorem ofParts_eq_ok_iff : ofParts parts = .ok entity ↔ entity.parts = parts := by
  unfold ofParts
  split
  next hsound =>
    rw [Except.ok.injEq]
    constructor
    · rintro rfl
      exact parts_assemble parts hsound
    · rintro rfl
      exact assemble_parts entity
  next error hdefect =>
    refine ⟨fun h => (by cases h), ?_⟩
    rintro rfl
    rw [entity.parts_sound] at hdefect
    cases hdefect

theorem ofParts_eq_error_iff : ofParts parts = .error error ↔ parts.defect? = some error := by
  unfold ofParts
  split
  next hsound => simp [hsound]
  next error hdefect => rw [hdefect, Except.error.injEq, Option.some.injEq]

end Entity

/-! ## Parts -/

def Ast.Holds (ast : Ast) (node : Node) : Prop := ∃ data, ast.data node = .ok data

theorem Ast.holds_iff {ast : Ast} {node : Node} : ast.Holds node ↔ ast.contains node = true := by
  rw [contains_iff]
  exact ⟨fun ⟨_, hdata⟩ => lt_size_of_data hdata, exists_data⟩

namespace EntityParts

/-- What the parts refer to is in the tree. -/
structure Resolved (parts : EntityParts) : Prop where
  ast : parts.ast.Resolved
  blocks : ∀ root ∈ parts.blocks, parts.ast.contains root = true
  recorded : ∀ node position, parts.positions.get? node = some position →
    parts.ast.contains node = true ∧ parts.ast.Knows position.file
  position : ∀ position, parts.position = some position → parts.ast.Knows position.file
  argumentPositions : ∀ position ∈ parts.argumentPositions, parts.ast.Knows position.file

variable {parts : EntityParts}

structure Placed (parts : EntityParts) : Prop where
  position : ∀ position, parts.position = some position → parts.ast.Knows position.file
  argumentPositions : ∀ position ∈ parts.argumentPositions, parts.ast.Knows position.file
  recorded : ∀ node position, parts.positions.get? node = some position →
    parts.ast.Holds node ∧ parts.ast.Knows position.file

theorem positionsResolve_iff : parts.positionsResolve = true ↔ parts.Placed := by
  simp only [EntityParts.positionsResolve, Bool.and_eq_true, Option.all_eq_true, List.all_eq_true, knowsFile,
    ← Ast.knows_iff, ← Ast.holds_iff]
  constructor
  · rintro ⟨⟨hposition, hargumentPositions⟩, hentries⟩
    refine ⟨hposition, hargumentPositions, fun node position hget => ?_⟩
    exact hentries (node, position) (List.mem_reverse.2 (PositionTable.mem_entries_iff.2 hget))
  · rintro ⟨hposition, hargumentPositions, hrecorded⟩
    refine ⟨⟨hposition, hargumentPositions⟩, fun (node, position) hmem => ?_⟩
    exact hrecorded node position (PositionTable.mem_entries_iff.1 (List.mem_reverse.1 hmem))

theorem Resolved.placed (h : parts.Resolved) : parts.Placed := by
  refine ⟨h.position, h.argumentPositions, fun node position hget => ?_⟩
  obtain ⟨hnode, hfile⟩ := h.recorded node position hget
  exact ⟨Ast.holds_iff.2 hnode, hfile⟩

/-- Resolved parts lack a name, or their arguments do not line up, or they have no defect. -/
theorem Resolved.defect?_eq (h : parts.Resolved) : parts.defect? =
    if parts.name = "" then some .emptyName
    else if parts.argumentNames.length ≠ parts.argumentTypes.length ∨
        parts.argumentNames.length ≠ parts.argumentPositions.length then
      some (.arityMismatch parts.name parts.argumentNames.length parts.argumentTypes.length
        parts.argumentPositions.length)
    else none := by
  have hblocks : (parts.blocks.findIdx? fun block => !parts.ast.contains block) = none := by
    rw [List.findIdx?_eq_none_iff]
    intro root hmem
    rw [h.blocks root hmem]
    rfl
  simp only [defect?, hblocks, positionsResolve_iff.2 h.placed, if_true]

end EntityParts

end FunctionTrees
