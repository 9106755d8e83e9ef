import FunctionTrees.Proofs.Lowering.Refinement
import FunctionTrees.Proofs.Lowering.Stopgaps

/-!
# What is logged while a function is lowered

* `Instruction.Unmodelled` : no operator stands for the instruction, which is an operation;
* `Noticed function inst event` : the event is the one that such an instruction asks for;
* `forall₂_noticed` : these are the events of some instructions;
* `log_planOf`, `log_lower` : where a function is lowered, the events of its instructions are logged, one after the other;
* `Event.stopgap?` : the stopgap that an event is about; `Means.eventsOf_eq` : an instruction's events are about those of
  its statements; `stopgaps_of_lower` : all events together are about those of the tree;
* `noticed_of_lower` : so there is one event for each such instruction, and for each stopgap in the tree.
-/

set_option autoImplicit false

namespace FunctionTrees

open Transfer Outcome Logged

/-! ## Instructions that no operator stands for -/

/-- The instruction is an operation, and no operator but a fallback has its opcode as tag and takes its number of
operands. -/
def Transfer.Instruction.Unmodelled (inst : Instruction) : Prop :=
  inst.opcode ∉ Lowering.controlOpcodes ∧
    ∀ op : Operator, op.tag = inst.opcode → op.arity.count = inst.operands.length → op.isFallback = true

instance : DecidablePred Instruction.Unmodelled := fun inst =>
  decidable_of_iff (inst.opcode ∉ Lowering.controlOpcodes ∧ ∀ op ∈ Operator.all,
      op.tag = inst.opcode → op.arity.count = inst.operands.length → op.isFallback = true)
    ⟨fun h => ⟨h.1, fun op => h.2 op op.mem_all⟩, fun h => ⟨h.1, fun op _ => h.2 op⟩⟩

namespace Lowering

/-- The event is the one that an operation without an operator of its own asks for. -/
structure Noticed (function : String) (inst : Instruction) (event : Event) : Prop where
  level : event.level = .debug
  fallback : ∀ arity : Arity, arity.count = inst.operands.length →
    event = .fallback function inst.opcode (Operator.fallback arity) ∧
      event.message = "no precise operator for opcode, using fallback"
  primitive : (∀ arity : Arity, arity.count ≠ inst.operands.length) →
    event = .primitive function inst.opcode inst.operands.length ∧
      event.message = "no operator takes this many operands, lowering as primitive"

variable {name : String} {labels : List String} {inst : Instruction}

theorem eventsOf_of_mem (h : inst.opcode ∈ controlOpcodes) : eventsOf name inst = [] := by
  unfold eventsOf
  split
  next hop => exact absurd h (Opcode.not_mem_of_operation hop)
  next => rfl

theorem eventsOf_of_not_mem (h : inst.opcode ∉ controlOpcodes) :
    eventsOf name inst = (Expr.attempt inst.opcode inst.operands).1.map (Stopgap.event name inst) := by
  unfold eventsOf
  rw [Opcode.ofText_of_not_mem h]

theorem noticed_fallback {arity : Arity} (h : arity.count = inst.operands.length) :
    Noticed name inst (.fallback name inst.opcode (Operator.fallback arity)) := by
  refine ⟨rfl, fun other hother => ?_, fun hnone => absurd h (hnone arity)⟩
  have hsame : other = arity := by
    cases other <;> cases arity <;> first | rfl | (rw [← h] at hother; cases hother)
  rw [hsame]
  exact ⟨rfl, rfl⟩

theorem noticed_primitive (h : ∀ arity : Arity, arity.count ≠ inst.operands.length) :
    Noticed name inst (.primitive name inst.opcode inst.operands.length) :=
  ⟨rfl, fun arity harity => absurd harity (h arity), fun _ => ⟨rfl, rfl⟩⟩

/-- An operation that some operator stands for, or that is none, is not logged. -/
theorem eventsOf_of_modelled (h : ¬ inst.Unmodelled) : eventsOf name inst = [] := by
  by_cases hcontrol : inst.opcode ∈ controlOpcodes
  · exact eventsOf_of_mem hcontrol
  · rw [eventsOf_of_not_mem hcontrol]
    cases hcount : Arity.ofCount? inst.operands.length with
    | none =>
      refine absurd ⟨hcontrol, fun op _ hop => ?_⟩ h
      rw [Arity.ofCount?_eq_some_iff.2 hop] at hcount
      cases hcount
    | some arity =>
      obtain ⟨value, -, hattempt⟩ := Expr.attempt_of_some inst.opcode hcount
      rw [hattempt, if_neg]
      · rfl
      · intro hfallback
        refine h ⟨hcontrol, fun op htag hop => Operator.isFallback_resolve_iff.1 hfallback op htag ?_⟩
        rw [Arity.ofCount?_eq_some_iff.2 hop] at hcount
        exact Option.some.inj hcount

/-- Any other operation is logged once: the attempt notes a fallback, or that there is no operator, but never both. -/
theorem exists_eventsOf (name : String) (h : inst.Unmodelled) :
    ∃ event, eventsOf name inst = [event] ∧ Noticed name inst event := by
  rw [eventsOf_of_not_mem h.1]
  cases hcount : Arity.ofCount? inst.operands.length with
  | none =>
    rw [Expr.attempt_of_none inst.opcode hcount]
    refine ⟨_, rfl, noticed_primitive fun arity harity => ?_⟩
    rw [Arity.ofCount?_eq_some_iff.2 harity] at hcount
    cases hcount
  | some arity =>
    have harity := Arity.ofCount?_eq_some_iff.1 hcount
    obtain ⟨value, -, hattempt⟩ := Expr.attempt_of_some inst.opcode hcount
    have hfallback : (Operator.resolve inst.opcode arity).isFallback = true :=
      Operator.isFallback_resolve_iff.2 fun op htag hop => h.2 op htag (hop ▸ harity)
    have hop := Operator.eq_fallback_of_isFallback hfallback
    rw [Operator.arity_resolve] at hop
    rw [hattempt, if_pos hfallback, hop]
    exact ⟨_, rfl, noticed_fallback harity⟩

theorem forall₂_noticed (name : String) (insts : List Instruction) :
    List.Forall₂ (Noticed name) (insts.filter fun inst => inst.Unmodelled) (insts.flatMap (eventsOf name)) := by
  induction insts with
  | nil => exact .nil
  | cons inst insts ih =>
    rw [List.flatMap_cons]
    by_cases h : inst.Unmodelled
    · obtain ⟨event, hevent, hnoticed⟩ := exists_eventsOf name h
      rw [List.filter_cons, if_pos (decide_eq_true h), hevent]
      exact .cons hnoticed ih
    · rw [List.filter_cons, if_neg (by simpa using h), eventsOf_of_modelled h]
      exact ih

/-! ## The log of a function -/

theorem log_planInstruction {block : String} {index : Nat} {planned : PlannedInstruction}
    (h : (planInstruction name labels block inst index).result = .ok planned) :
    (planInstruction name labels block inst index).log = eventsOf name inst := by
  unfold planInstruction at h ⊢
  obtain ⟨position, -, hrest, hlog⟩ := exists_of_result_bind h
  rw [hlog, log_eq_nil_of_logs (.mapM? (logs_soundSpan _) _), List.nil_append]
  cases hread : statementsOf labels inst with
  | error reason =>
    rw [hread] at hrest
    cases hrest
  | ok statements => exact List.append_nil _

theorem log_planBlock {block : Block} {planned : PlannedBlock} (h : (planBlock name labels block).result = .ok planned) :
    (planBlock name labels block).log = block.instructions.flatMap (eventsOf name) := by
  unfold planBlock at h ⊢
  obtain ⟨instructions, hinstructions, -, hlog⟩ := exists_of_result_bind h
  rw [hlog, log_mapM_of_ok hinstructions]
  rw [result_mapM, mapM_eq_ok_iff] at hinstructions
  refine (List.append_nil _).trans ?_
  conv_rhs => rw [← List.zipIdx_map_fst 0 block.instructions, List.flatMap_map]
  refine List.flatMap_congr fun numbered hmem => ?_
  obtain ⟨planned, -, hplanned⟩ := exists_mem_of_forall₂ hinstructions hmem
  exact log_planInstruction hplanned

/-- Where a function has a plan, the events of its instructions are logged, one after the other. -/
theorem log_planOf {function : Function} {plan : Plan} (h : (planOf function).result = .ok plan) :
    (planOf function).log = (function.blocks.flatMap Block.instructions).flatMap (eventsOf function.name) := by
  unfold planOf at h ⊢
  by_cases hversion : function.version = Transfer.version
  swap
  · rw [if_pos hversion] at h
    cases h
  · rw [if_neg (not_not_intro hversion)] at h ⊢
    cases hlabel : repeatedLabel? [] (function.blocks.map Block.label) with
    | some label =>
      simp only [hlabel] at h
      cases h
    | none =>
      simp only [hlabel] at h ⊢
      obtain ⟨position, -, h, hlog⟩ := exists_of_result_bind h
      obtain ⟨argumentPositions, -, h, hlog'⟩ := exists_of_result_bind h
      obtain ⟨blocks, hblocks, -, hlog''⟩ := exists_of_result_bind h
      rw [hlog, hlog', hlog'', log_eq_nil_of_logs (.mapM? (logs_soundSpan _) _),
        log_eq_nil_of_logs (.mapM (logs_soundSpan _) _), log_mapM_of_ok hblocks]
      rw [result_mapM, mapM_eq_ok_iff] at hblocks
      rw [List.flatMap_assoc]
      refine (List.append_nil _).trans (List.flatMap_congr fun block hmem => ?_)
      obtain ⟨planned, -, hplanned⟩ := exists_mem_of_forall₂ hblocks hmem
      exact log_planBlock hplanned

theorem log_lower {function : Function} {parts : EntityParts} (h : (lower function).result = .ok parts) :
    (lower function).log = (function.blocks.flatMap Block.instructions).flatMap (eventsOf function.name) := by
  obtain ⟨plan, hplan, -, hlog⟩ := exists_of_result_bind h
  rw [lower, hlog, log_planOf hplan]
  exact List.append_nil _

/-! ## Events and stopgaps -/

/-- What is logged of an instruction are the stopgaps of its statements. -/
theorem Means.eventsOf_eq {statements : List Statement} (h : Means labels inst statements) (name : String) :
    eventsOf name inst = (statements.flatMap Statement.stopgaps).map (Stopgap.event name inst) := by
  cases h with
  | operation result operands position hmnemonic =>
    rw [eventsOf_of_not_mem hmnemonic, List.flatMap_singleton, Statement.stopgaps_deliver, Expr.stopgaps_ofOperation]
  | call result target args =>
    rw [List.flatMap_singleton, Statement.stopgaps_deliver]
    rfl
  | _ => rfl

end Lowering

def Event.stopgap? : Event → Option Lowering.Stopgap
  | fallback _ _ op => some (.fallback op)
  | primitive .. => some .primitive
  | _ => none

namespace Lowering

variable {name : String} {labels : List String} {inst : Instruction}

theorem stopgap?_event (name : String) (inst : Instruction) (gap : Stopgap) :
    (gap.event name inst).stopgap? = some gap := by
  cases gap <;> rfl

theorem InstructionPlanned.stopgaps_eq {planned : PlannedInstruction} (h : InstructionPlanned labels inst planned)
    (name : String) : (eventsOf name inst).filterMap Event.stopgap? = planned.stopgaps := by
  have hsome : Event.stopgap? ∘ Stopgap.event name inst = some := funext (stopgap?_event name inst)
  rw [h.means.eventsOf_eq name, List.filterMap_map, hsome, List.filterMap_some]
  rfl

/-- The stopgaps of a tree, which are told in the order of their making, are those that have been logged. -/
theorem stopgaps_of_lower {function : Function} {parts : EntityParts} (h : (lower function).result = .ok parts) :
    parts.ast.stopgaps = (lower function).log.filterMap Event.stopgap? := by
  have hlog := log_lower h
  rw [result_lower] at h
  obtain ⟨plan, hplan, ⟨⟩⟩ := bind_eq_ok_iff.1 h
  have hplanned := functionPlanned_of_planOf hplan
  have hbuilt : (partsOf function plan).ast.stopgaps = plan.stopgaps := leaves_plan plan {}
  rw [hbuilt, hlog, List.filterMap_flatMap, List.flatMap_assoc]
  symm
  refine flatMap_eq_of_forall₂ (hplanned.blocks.imp fun block planned hblock => ?_)
  exact flatMap_eq_of_forall₂ (hblock.instructions.imp fun inst planned hinst => hinst.stopgaps_eq function.name)

theorem length_stopgaps (ast : Ast) : ast.stopgaps.length =
    (ast.nodes.toList.countP fun data => data.operator?.any Operator.isFallback) +
      ast.nodes.toList.countP fun data => data.kind = .primitive := by
  rw [Ast.stopgaps]
  induction ast.nodes.toList with
  | nil => rfl
  | cons data rest ih =>
    have hhead : ([data].filterMap NodeData.stopgap?).length =
        ([data].countP fun data => data.operator?.any Operator.isFallback) +
          [data].countP fun data => data.kind = .primitive := by
      cases data with
      | operator op =>
        cases hop : op.isFallback <;>
          simp [NodeData.stopgap?, Operator.stopgap?, NodeData.operator?, NodeData.kind, hop]
      | interior kind children => cases kind <;> rfl
      | _ => rfl
    rw [← List.singleton_append, List.filterMap_append, List.length_append, List.countP_append, List.countP_append, hhead,
      ih]
    omega

/-- Of a function that is lowered, one event is logged for each operation that no operator stands for, in source order;
there are as many such events as there are stopgaps in the tree. -/
theorem noticed_of_lower (function : Function) (parts : EntityParts) (h : (lower function).result = .ok parts) :
    List.Forall₂ (Noticed function.name)
        ((function.blocks.flatMap Block.instructions).filter fun inst => inst.Unmodelled) (lower function).log ∧
      (lower function).log.filterMap Event.stopgap? = parts.ast.stopgaps ∧
      (lower function).log.length =
        (parts.ast.nodes.toList.countP fun data => data.operator?.any Operator.isFallback) +
          parts.ast.nodes.toList.countP fun data => data.kind = .primitive := by
  have hstopgaps := stopgaps_of_lower h
  have hlog := log_lower h
  refine ⟨hlog ▸ forall₂_noticed function.name _, hstopgaps.symm, ?_⟩
  rw [← length_stopgaps, hstopgaps]
  symm
  rw [List.filterMap_length_eq_length]
  intro event hmem
  rw [hlog] at hmem
  obtain ⟨inst, -, hevent⟩ := List.mem_flatMap.1 hmem
  obtain ⟨gap, rfl⟩ := exists_of_mem_eventsOf hevent
  rw [stopgap?_event]
  rfl

/-- Operations of no, one, two and three operands, among others that need no stopgap. -/
def improvised : Function where
  name := "f"
  returnType := "Int"
  blocks := [
    ⟨"entry", [
      { opcode := "add", result := some "x", operands := [.int 1, .int 2] },
      { opcode := "rotate", result := some "y", operands := [.var "x", .int 3] },
      { opcode := "br", targets := ["exit"] }]⟩,
    ⟨"exit", [
      { opcode := "add", operands := [.var "y"] },
      { opcode := "select", result := some "z", operands := [.bool true, .var "x", .var "y"] },
      { opcode := "fence" },
      { opcode := "return", operands := [.var "z"] }]⟩]

theorem noticed_of_lower_improvised : ∃ parts, (lower improvised).result = .ok parts ∧
    (lower improvised).log = [.fallback "f" "rotate" .anyBinary, .fallback "f" "add" .anyUnary,
      .primitive "f" "select" 3, .primitive "f" "fence" 0] ∧
    parts.ast.stopgaps = [.fallback .anyBinary, .fallback .anyUnary, .primitive, .primitive] :=
  ⟨_, rfl, rfl, (noticed_of_lower improvised _ rfl).2.1.symm⟩

end Lowering

end FunctionTrees
