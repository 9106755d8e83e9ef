import FunctionTrees.Lowering
import FunctionTrees.Proofs.Event
import FunctionTrees.Proofs.Lowering.Instructions

/-!
# What the check of a function yields

* `result_planInstruction`, `result_planBlock`, `result_planOf`, `result_lower` : the check without what it logs;
* `InstructionPlanned`, `BlockPlanned`, `FunctionPlanned` : a plan says what the function means, and where;
* `FunctionPlanned.exists_means` : all that is planned is what sound instructions mean;
* `functionPlanned_of_planOf` : the check yields such a plan.
-/

set_option autoImplicit false

namespace FunctionTrees.Lowering

open Transfer Outcome Logged

variable {name : String} {labels : List String}

/-! ## The check without its log -/

theorem result_soundSpan (span : Span) :
    (soundSpan span).result = (span.located?).elim (.error (.invalidPosition span)) .ok := by
  unfold soundSpan
  cases span.located? <;> rfl

/-- Spans are not logged. -/
theorem logs_soundSpan (p : Event → Prop) (span : Span) : (soundSpan span).Logs p := by
  unfold soundSpan
  split
  · exact logs_pure _
  · exact logs_fail _

theorem result_planInstruction (name : String) (labels : List String) (block : String) (inst : Instruction)
    (index : Nat) :
    (planInstruction name labels block inst index).result = do
      let position ← inst.position.mapM fun span => (soundSpan span).result
      let statements ← (statementsOf labels inst).mapError (.malformedInstruction block index inst.opcode)
      return ⟨position, statements⟩ := by
  unfold planInstruction
  rw [result_bind, result_mapM?]
  congr 1
  funext position
  cases statementsOf labels inst with
  | error reason => rfl
  | ok statements => rfl

theorem result_planBlock (name : String) (labels : List String) (block : Block) :
    (planBlock name labels block).result = do
      let instructions ← block.instructions.zipIdx.mapM fun numbered =>
        (planInstruction name labels block.label numbered.1 numbered.2).result
      return ⟨block.label, instructions⟩ := by
  unfold planBlock
  rw [result_bind, result_mapM]
  rfl

theorem result_planOf (function : Function) :
    (planOf function).result = do
      refuse (if function.version = Transfer.version then none else some (.unsupportedVersion function.version))
      refuse ((repeatedLabel? [] (function.blocks.map Block.label)).map .duplicateLabel)
      let position ← function.position.mapM fun span => (soundSpan span).result
      let argumentPositions ← function.argumentPositions.mapM fun span => (soundSpan span).result
      let blocks ← function.blocks.mapM fun block =>
        (planBlock function.name (function.blocks.map Block.label) block).result
      return ⟨position, argumentPositions, blocks⟩ := by
  unfold planOf
  by_cases hversion : function.version = Transfer.version
  swap
  · rw [if_pos hversion, if_neg hversion]
    rfl
  · rw [if_neg (not_not_intro hversion), if_pos hversion]
    cases hlabel : repeatedLabel? [] (function.blocks.map Block.label) with
    | some label =>
      simp only [hlabel]
      rfl
    | none =>
      simp only [hlabel, result_bind, result_mapM, result_mapM?]
      rfl

theorem result_lower (function : Function) :
    (lower function).result = (planOf function).result >>= fun plan => .ok (partsOf function plan) := by
  unfold lower
  rw [Logged.result_bind]
  rfl

/-- What is logged of an instruction is logged of a stopgap. -/
theorem exists_of_mem_eventsOf {inst : Instruction} {event : Event} (h : event ∈ eventsOf name inst) :
    ∃ gap : Stopgap, gap.event name inst = event := by
  unfold eventsOf at h
  split at h
  next mnemonic =>
    obtain ⟨gap, -, hgap⟩ := List.mem_map.1 h
    exact ⟨gap, hgap⟩
  next => cases h

/-! ## What is planned -/

/-- The span is sound, and this is its extent of the file. -/
def Sited (span : Span) (located : FileSpan) : Prop := span.located? = some located

theorem sited_iff {span : Span} {located : FileSpan} : Sited span located ↔ (soundSpan span).result = .ok located := by
  rw [Sited, result_soundSpan]
  cases span.located? <;> simp

theorem Sited.fields {span : Span} {located : FileSpan} (h : Sited span located) :
    located.file = span.file ∧ located.extent.firstLine = span.firstLine ∧ located.extent.firstCol = span.firstCol ∧
      located.extent.lastLine = span.lastLine ∧ located.extent.lastCol = span.lastCol := by
  obtain ⟨extent, hextent, rfl⟩ := Option.map_eq_some_iff.1 h
  unfold Extent.ofBounds? at hextent
  split_ifs at hextent
  obtain rfl := Option.some.inj hextent
  exact ⟨rfl, rfl, rfl, rfl, rfl⟩

/-- The plan says what the instruction means, and where. -/
structure InstructionPlanned (labels : List String) (inst : Instruction) (planned : PlannedInstruction) : Prop where
  means : Means labels inst planned.statements
  position : Option.Rel Sited inst.position planned.position

structure BlockPlanned (labels : List String) (block : Block) (planned : PlannedBlock) : Prop where
  label : planned.label = block.label
  instructions : List.Forall₂ (InstructionPlanned labels) block.instructions planned.instructions

structure FunctionPlanned (function : Function) (plan : Plan) : Prop where
  position : Option.Rel Sited function.position plan.position
  argumentPositions : List.Forall₂ Sited function.argumentPositions plan.argumentPositions
  blocks : List.Forall₂ (BlockPlanned (function.blocks.map Block.label)) function.blocks plan.blocks

/-- What is planned for an instruction is what some sound instruction means. -/
theorem FunctionPlanned.exists_means {function : Function} {plan : Plan} (h : FunctionPlanned function plan)
    {block : PlannedBlock} (hblock : block ∈ plan.blocks) {planned : PlannedInstruction}
    (hplanned : planned ∈ block.instructions) : ∃ labels inst, Means labels inst planned.statements := by
  obtain ⟨_, -, hblock⟩ := exists_mem_of_forall₂ h.blocks.flip hblock
  obtain ⟨inst, -, hinst⟩ := exists_mem_of_forall₂ hblock.instructions.flip hplanned
  exact ⟨_, inst, hinst.means⟩

theorem instructionPlanned_of_planInstruction {block : String} {inst : Instruction} {index : Nat}
    {planned : PlannedInstruction} (h : (planInstruction name labels block inst index).result = .ok planned) :
    InstructionPlanned labels inst planned := by
  rw [result_planInstruction] at h
  obtain ⟨position, hposition, h⟩ := bind_eq_ok_iff.1 h
  obtain ⟨statements, hstatements, ⟨⟩⟩ := bind_eq_ok_iff.1 h
  refine ⟨?_, ?_⟩
  · cases hread : statementsOf labels inst with
    | error reason =>
      rw [hread] at hstatements
      cases hstatements
    | ok read =>
      rw [hread] at hstatements
      cases hstatements
      exact means_of_statementsOf hread
  · have hsites := mapM?_eq_ok_iff.1 hposition
    simp only [← sited_iff] at hsites
    exact hsites

theorem blockPlanned_of_planBlock {block : Block} {planned : PlannedBlock}
    (h : (planBlock name labels block).result = .ok planned) : BlockPlanned labels block planned := by
  rw [result_planBlock] at h
  obtain ⟨instructions, hinstructions, ⟨⟩⟩ := bind_eq_ok_iff.1 h
  refine ⟨rfl, ?_⟩
  have hnumbered := (mapM_eq_ok_iff.1 hinstructions).imp
    (S := fun (numbered : Instruction × Nat) planned => InstructionPlanned labels numbered.1 planned)
    fun _ _ => instructionPlanned_of_planInstruction
  have hplain := List.forall₂_map_left_iff.2 hnumbered
  rwa [List.zipIdx_map_fst] at hplain

theorem functionPlanned_of_planOf {function : Function} {plan : Plan} (h : (planOf function).result = .ok plan) :
    FunctionPlanned function plan := by
  rw [result_planOf] at h
  obtain ⟨-, -, h⟩ := bind_eq_ok_iff.1 h
  obtain ⟨-, -, h⟩ := bind_eq_ok_iff.1 h
  obtain ⟨position, hposition, h⟩ := bind_eq_ok_iff.1 h
  obtain ⟨argumentPositions, harguments, h⟩ := bind_eq_ok_iff.1 h
  obtain ⟨blocks, hblocks, ⟨⟩⟩ := bind_eq_ok_iff.1 h
  rw [mapM?_eq_ok_iff] at hposition
  rw [mapM_eq_ok_iff] at harguments hblocks
  simp only [← sited_iff] at hposition harguments
  exact ⟨hposition, harguments, hblocks.imp fun _ _ => blockPlanned_of_planBlock⟩

end FunctionTrees.Lowering
