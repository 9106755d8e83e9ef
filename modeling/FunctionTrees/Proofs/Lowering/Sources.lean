import FunctionTrees.Proofs.Ast.Parts
import FunctionTrees.Proofs.Lowering.Positions
import FunctionTrees.Proofs.Lowering.Verdict

/-!
# The plain statements behind the nodes of a function

* `means_of_lower` : the instructions of a lowered function are sound;
* `InstructionBuilt.exists_statement`, `InstructionBuilt.exists_node` : its statements and its nodes;
* `exists_statement_of_comesFrom` : the plain statement that a statement of a lowered function stands for;
* `Operand.lacks_tree` : an operand is a variable or a leaf;
* `exists_statement_of_kind` : most kinds of nodes are found under statements only.
-/

set_option autoImplicit false

namespace FunctionTrees

open Transfer

/-- All nodes in an operand are variables. -/
@[simp] theorem Transfer.Operand.lacks_tree (operand : Operand) {kind : NodeKind} (hkind : kind ≠ .var) :
    operand.tree.Lacks kind := by
  cases operand <;> simp [Operand.tree, hkind.symm]

namespace Lowering

variable {function : Function} {parts : EntityParts}

/-- The instructions of a lowered function are sound. -/
theorem means_of_lower (h : (lower function).result = .ok parts) {block : Block} (hblock : block ∈ function.blocks)
    {inst : Instruction} (hinst : inst ∈ block.instructions) : ∃ statements, Means function.labels inst statements := by
  rw [result_lower] at h
  obtain ⟨plan, hplan, -⟩ := Outcome.bind_eq_ok_iff.1 h
  obtain ⟨_, -, hplanned⟩ := Outcome.exists_mem_of_forall₂ (functionPlanned_of_planOf hplan).blocks hblock
  obtain ⟨_, -, hinst⟩ := Outcome.exists_mem_of_forall₂ hplanned.instructions hinst
  exact ⟨_, hinst.means⟩

/-! ## Instructions -/

namespace InstructionBuilt

variable {labels : List String} {inst : Instruction} {nodes : List Node} {statements : List Statement}

theorem stands_statements (h : InstructionBuilt parts inst nodes) (hmeans : Means labels inst statements) :
    List.Forall₂ (fun node statement => parts.ast.Stands node (Statement.tree statement)) nodes statements := by
  have hstands := h.stands
  rwa [← hmeans.map_tree, List.forall₂_map_right_iff] at hstands

theorem exists_statement (h : InstructionBuilt parts inst nodes) (hmeans : Means labels inst statements) {node : Node}
    (hmem : node ∈ nodes) : ∃ statement ∈ statements, parts.ast.Stands node statement.tree :=
  Outcome.exists_mem_of_forall₂ (h.stands_statements hmeans) hmem

theorem exists_node (h : InstructionBuilt parts inst nodes) (hmeans : Means labels inst statements)
    {statement : Statement} (hmem : statement ∈ statements) : ∃ node ∈ nodes, parts.ast.Stands node statement.tree :=
  Outcome.exists_mem_of_forall₂ (h.stands_statements hmeans).flip hmem

end InstructionBuilt

/-! ## Functions -/

theorem ComesFrom.mem {statement : Node} {inst : Instruction} (h : ComesFrom function parts statement inst) :
    ∃ block ∈ function.blocks, inst ∈ block.instructions := by
  obtain ⟨block, root, label, statements, hroot, -, hstatement⟩ := h
  obtain ⟨inst', hinst, hcopy⟩ := List.mem_flatMap.1 (List.of_mem_zip hstatement).1
  rw [List.eq_of_mem_replicate hcopy]
  exact ⟨block, (List.of_mem_zip hroot).1, hinst⟩

/-- The plain statement that a statement of a lowered function stands for. -/
theorem exists_statement_of_comesFrom (h : (lower function).result = .ok parts) {node : Node} {inst : Instruction}
    (hfrom : ComesFrom function parts node inst) : ∃ statements, Means function.labels inst statements ∧
      ∃ statement ∈ statements, parts.ast.Stands node statement.tree := by
  obtain ⟨block, hblock, hinst⟩ := hfrom.mem
  obtain ⟨statements, hmeans⟩ := means_of_lower h hblock hinst
  obtain ⟨nodes, hbuilt, hmem⟩ := (functionBuilt_of_lower h).exists_of_comesFrom hfrom
  exact ⟨statements, hmeans, hbuilt.exists_statement hmeans hmem⟩

/-- Nodes of most kinds are found under statements only. -/
theorem exists_statement_of_kind (h : (lower function).result = .ok parts) {node : Node} {kind : NodeKind}
    (hkind : parts.ast.kind node = .ok kind) (hleaf : kind.isLeaf = false) (hblock : kind ≠ .block)
    (hlabel : kind ≠ .label) : ∃ statement inst, ComesFrom function parts statement inst ∧
      parts.ast.Below statement node := by
  have hbuilt := functionBuilt_of_lower h
  obtain ⟨data, hdata, -⟩ := Ast.kind_eq_ok_iff.1 hkind
  rcases hbuilt.owner (Ast.lt_size_of_data hdata) with hroot | ⟨root, hroot, label, statements, hchildren, hbelow⟩ | hfound
  · obtain ⟨block, -, label, segments, hroot⟩ := Outcome.exists_mem_zip_of_forall₂ hbuilt.blocks hroot
    rw [Ast.kind, hroot.data] at hkind
    cases hkind
    exact absurd rfl hblock
  · obtain ⟨block, -, label', segments, hroot⟩ := Outcome.exists_mem_zip_of_forall₂ hbuilt.blocks hroot
    rw [hroot.children] at hchildren
    cases hchildren
    have hlacks : (Tree.named .label block.label).Lacks kind := Tree.lacks_named_iff.2 hlabel.symm
    exact absurd hkind (hroot.label_stands.kind_ne hbuilt.covers.sound.closed hleaf hlacks hbelow)
  · exact hfound

end Lowering

end FunctionTrees
