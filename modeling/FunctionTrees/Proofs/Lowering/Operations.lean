import FunctionTrees.Proofs.Lowering.Refinement
import FunctionTrees.Proofs.Lowering.Verdict

/-!
# Operations in a function

An operation is an instruction whose opcode is none of control flow.

* `mem_violations_iff` : which instructions are malformed;
* `Gap` : a place between the instructions of a function; `Gap.fill` puts instructions there;
* `acceptable_fill_iff` : an operation only has to be without targets for its function to be acceptable;
* `malformed_operation` : nothing but targets makes an operation malformed, and without them it becomes an expression;
* `switching_malformed` : targets do make it malformed.
-/

set_option autoImplicit false

namespace FunctionTrees.Lowering

open Transfer

/-! ## Malformed instructions -/

section Malformed

variable {label opcode : String} {index : Nat} {reason : Reason}

theorem not_mem_spanViolations (span : Span) :
    .malformedInstruction label index opcode reason ∉ spanViolations span := by
  unfold spanViolations
  split_ifs <;> simp

theorem mem_blockViolations_iff {labels : List String} {block : Block} :
    .malformedInstruction label index opcode reason ∈ blockViolations labels block ↔
      block.label = label ∧ ∃ inst, block.instructions[index]? = some inst ∧ inst.opcode = opcode ∧
        reason ∈ complaints labels inst := by
  simp only [blockViolations, List.mem_flatMap, instructionViolations, List.mem_append, not_mem_spanViolations,
    and_false, exists_false, false_or, List.mem_map, LowerError.malformedInstruction.injEq, List.mem_zipIdx_iff_getElem?]
  constructor
  · rintro ⟨⟨inst, number⟩, hinst, given, hreason, hlabel, rfl, hopcode, rfl⟩
    exact ⟨hlabel, inst, hinst, hopcode, hreason⟩
  · rintro ⟨hlabel, inst, hinst, hopcode, hreason⟩
    exact ⟨(inst, index), hinst, reason, hreason, hlabel, rfl, hopcode, rfl⟩

theorem mem_violations_iff {function : Function} :
    .malformedInstruction label index opcode reason ∈ violations function ↔
      ∃ block ∈ function.blocks, block.label = label ∧ ∃ inst, block.instructions[index]? = some inst ∧
        inst.opcode = opcode ∧ reason ∈ complaints function.labels inst := by
  have hversion : .malformedInstruction label index opcode reason ∉ (if function.version = Transfer.version then []
      else [LowerError.unsupportedVersion function.version]) := by
    split_ifs <;> simp
  simp only [violations, List.mem_append, hversion, List.mem_map, reduceCtorEq, List.mem_flatMap,
    not_mem_spanViolations, and_false, exists_false, false_or, mem_blockViolations_iff]

/-- An operation is malformed for nothing but its targets. -/
theorem targets_of_malformed {function : Function} (hopcode : opcode ∉ controlOpcodes)
    (h : (lower function).result = .error (.malformedInstruction label index opcode reason)) :
    reason = .targetsOfNonBranch ∧ ∃ block ∈ function.blocks, block.label = label ∧
      ∃ inst, block.instructions[index]? = some inst ∧ inst.opcode = opcode ∧ inst.targets ≠ [] := by
  have hfirst := ((reports_lower function).eq_error_iff _).1 h
  obtain ⟨block, hblock, hlabel, inst, hinst, rfl, hreason⟩ := mem_violations_iff.1 (List.mem_of_head? hfirst)
  rw [complaints_of_not_mem hopcode, complaint] at hreason
  split_ifs at hreason with htargets
  · exact ⟨List.mem_singleton.1 hreason, block, hblock, hlabel, inst, hinst, rfl, htargets⟩
  · cases hreason

end Malformed

/-! ## Gaps -/

/-- A place between the instructions of a function, with all that is around it. -/
structure Gap where
  function : Function
  earlier : List Block
  later : List Block
  label : String
  before : List Instruction
  after : List Instruction

namespace Gap

/-- The function with these instructions in the gap. -/
def fill (gap : Gap) (instructions : List Instruction) : Function :=
  { gap.function with
    blocks := gap.earlier ++ ⟨gap.label, gap.before ++ instructions ++ gap.after⟩ :: gap.later }

theorem labels_fill (gap : Gap) (instructions : List Instruction) :
    (gap.fill instructions).labels = (gap.fill []).labels := by
  simp [fill, Function.labels]

/-- What holds of all instructions holds of those around the gap and of those in it. -/
theorem forall_fill_iff (gap : Gap) (P : Instruction → Prop) (instructions : List Instruction) :
    (∀ block ∈ (gap.fill instructions).blocks, ∀ inst ∈ block.instructions, P inst) ↔
      (∀ inst ∈ instructions, P inst) ∧ ∀ block ∈ (gap.fill []).blocks, ∀ inst ∈ block.instructions, P inst := by
  simp only [fill, List.forall_mem_append, List.forall_mem_cons, List.append_nil]
  constructor
  · rintro ⟨hearlier, ⟨⟨hbefore, hinstructions⟩, hafter⟩, hlater⟩
    exact ⟨hinstructions, hearlier, ⟨hbefore, hafter⟩, hlater⟩
  · rintro ⟨hinstructions, hearlier, ⟨hbefore, hafter⟩, hlater⟩
    exact ⟨hearlier, ⟨⟨hbefore, hinstructions⟩, hafter⟩, hlater⟩

end Gap

/-- An operation only has to be without targets for its function to be acceptable. -/
theorem acceptable_fill_iff (gap : Gap) {inst : Instruction} (hopcode : inst.opcode ∉ controlOpcodes)
    (hposition : ∀ span ∈ inst.position, span.Sound) :
    Acceptable (gap.fill [inst]) ↔ inst.targets = [] ∧ Acceptable (gap.fill []) := by
  have hspan : ∀ span ∈ inst.position.toList, span.Sound := by
    intro span hmem
    exact hposition span (Option.mem_toList.1 hmem)
  rw [acceptable_iff, acceptable_iff, gap.labels_fill [inst], gap.forall_fill_iff _ [inst], List.forall_mem_singleton,
    shapely_iff_of_not_mem hopcode]
  constructor
  · rintro ⟨hheader, hposition, harguments, ⟨-, htargets⟩, hblocks⟩
    exact ⟨htargets, hheader, hposition, harguments, hblocks⟩
  · rintro ⟨htargets, hheader, hposition, harguments, hblocks⟩
    exact ⟨hheader, hposition, harguments, ⟨hspan, htargets⟩, hblocks⟩

/-! ## Operations as expressions -/

/-- A statement of the block with number `index` unfolds to `tree`. -/
def HasStatement (parts : EntityParts) (index : Nat) (tree : Tree) : Prop :=
  ∃ root statements statement, parts.blocks[index]? = some root ∧ parts.ast.children root = .ok statements ∧
    statement ∈ statements ∧ parts.ast.unfold (fun _ => none) statement = .ok tree

theorem hasStatement_of_lower {function : Function} {parts : EntityParts} (h : (lower function).result = .ok parts)
    {index : Nat} {block : Block} (hblock : function.blocks[index]? = some block) {inst : Instruction}
    (hinst : inst ∈ block.instructions) {tree : Tree} (htree : tree ∈ inst.trees) : HasStatement parts index tree := by
  have hbuilt := functionBuilt_of_lower h
  obtain ⟨root, hroot, label, segments, hblock⟩ := Outcome.exists_of_forall₂ hbuilt.blocks hblock
  obtain ⟨nodes, hnodes, hbuilt⟩ := Outcome.exists_mem_of_forall₂ hblock.instructions hinst
  obtain ⟨statement, hstatement, hstands⟩ := Outcome.exists_mem_of_forall₂ hbuilt.stands.flip htree
  have hmem : statement ∈ segments.flatten := List.mem_flatten.2 ⟨nodes, hnodes, hstatement⟩
  have hlt : statement.index < parts.ast.size := Ast.Stands.lt_size hstands
  refine ⟨root, label :: segments.flatten, statement, hroot, hblock.children, List.mem_cons_of_mem _ hmem, ?_⟩
  exact Ast.Stands.unfoldTo hstands (Nat.lt_succ_of_lt hlt) _

/-- Nothing but targets makes an operation malformed. Without them, its function is lowered exactly if it is so without
the operation, which then becomes an expression. -/
theorem malformed_operation (function : Function) :
    (∀ label index opcode reason,
      (lower function).result = .error (.malformedInstruction label index opcode reason) →
        opcode ∈ controlOpcodes ∨ reason = .targetsOfNonBranch ∧ ∃ block ∈ function.blocks, block.label = label ∧
          ∃ inst, block.instructions[index]? = some inst ∧ inst.opcode = opcode ∧ inst.targets ≠ []) ∧
    ∀ (gap : Gap) (inst : Instruction), function = gap.fill [inst] → inst.opcode ∉ controlOpcodes →
      (∀ span ∈ inst.position, span.Sound) →
        ((∃ parts, (lower function).result = .ok parts) ↔
          inst.targets = [] ∧ ∃ parts, (lower (gap.fill [])).result = .ok parts) ∧
        ∀ parts, (lower function).result = .ok parts → HasStatement parts gap.earlier.length
          (deliverTree inst.result (operationTree inst.opcode (inst.operands.map Operand.tree))) := by
  refine ⟨?_, ?_⟩
  · intro label index opcode reason h
    by_cases hopcode : opcode ∈ controlOpcodes
    · exact .inl hopcode
    · exact .inr (targets_of_malformed hopcode h)
  · rintro gap inst rfl hopcode hposition
    refine ⟨?_, fun parts h => ?_⟩
    · rw [exists_lower_iff, exists_lower_iff]
      exact acceptable_fill_iff gap hopcode hposition
    · have hblock : (gap.fill [inst]).blocks[gap.earlier.length]? =
          some ⟨gap.label, gap.before ++ [inst] ++ gap.after⟩ := by
        simp [Gap.fill]
      have hinst : inst ∈ gap.before ++ [inst] ++ gap.after := by simp
      apply hasStatement_of_lower h hblock hinst
      rw [trees_of_not_mem hopcode]
      exact List.mem_singleton_self _

/-- An operation with a target. -/
def switching : Function where
  name := "f"
  returnType := "Int"
  blocks := [⟨"entry", [{ opcode := "switch", operands := [.var "x"], targets := ["entry"] }]⟩]

/-- An opcode that is none of control flow is malformed. -/
theorem switching_malformed : "switch" ∉ controlOpcodes ∧
    (lower switching).result = .error (.malformedInstruction "entry" 0 "switch" .targetsOfNonBranch) :=
  ⟨by decide, rfl⟩

end FunctionTrees.Lowering
