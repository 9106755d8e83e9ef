import FunctionTrees.Proofs.Ast.Moves
import FunctionTrees.Proofs.Lowering.Refinement

/-!
# Lowering as a list of actions

* `Build.Scripted given act made` : `act` comes down to actions that a builder allows; `Scripted.bind`, `Scripted.mapM`;
* `Expr.Matched`, `Statement.Matched` : every operator stands over as many operands as it takes;
* `scripted_statement`, `scripted_instruction`, `scripted_block`, `scripted_plan` : so it is with all that is built for
  a function;
* `exists_steps_of_lower` : a lowered function is what a list of allowed actions leaves.
-/

set_option autoImplicit false

namespace FunctionTrees

/-! ## Lists of actions -/

namespace Builder

theorem admits_append {b : Builder} {steps more : List BuildStep} (h : b.Admits steps)
    (h' : (b.after steps).Admits more) : b.Admits (steps ++ more) := by
  induction steps generalizing b with
  | nil => exact h'
  | cons step steps ih => exact ⟨h.1, ih h.2 h'⟩

end Builder

namespace Build

variable {α β : Type} {given : List Node}

/-! ## Scripts -/

/-- In a builder with the nodes of `given`, `act` does what a list of allowed actions does, and hands out nodes. -/
def Scripted (given : List Node) (act : Build α) (made : α → List Node) : Prop :=
  ∀ b : Builder, (∀ node ∈ given, b.ast.contains node = true) →
    (∃ steps, b.Admits steps ∧ (act.run b).2 = b.after steps) ∧
      ∀ node ∈ made (act.run b).1, (act.run b).2.ast.contains node = true

theorem Scripted.nothing (value : α) (made : α → List Node) (hmade : made value ⊆ given) :
    Scripted given (pure value : Build α) made := by
  intro b hgiven
  exact ⟨⟨[], trivial, rfl⟩, fun node hmem => hgiven node (hmade hmem)⟩

theorem Scripted.bind {act : Build α} {made : α → List Node} {next : α → Build β} {made' : β → List Node}
    (h : Scripted given act made) (hnext : ∀ value, Scripted (made value ++ given) (next value) made') :
    Scripted given (act >>= next) made' := by
  intro b hgiven
  obtain ⟨⟨steps, hadmits, hrun⟩, hmade⟩ := h b hgiven
  have hgrown := (Builder.moves_after hadmits).grown
  rw [← hrun] at hgrown
  have hgiven' : ∀ node ∈ made (act.run b).1 ++ given, (act.run b).2.ast.contains node = true := by
    intro node hmem
    rcases List.mem_append.1 hmem with hmem | hmem
    · exact hmade node hmem
    · have hlt := Ast.contains_iff.1 (hgiven node hmem)
      exact Ast.contains_iff.2 (Nat.lt_of_lt_of_le hlt hgrown.size_le)
  obtain ⟨⟨more, hadmits', hrun'⟩, hmade'⟩ := hnext _ _ hgiven'
  rw [hrun] at hadmits'
  refine ⟨⟨steps ++ more, Builder.admits_append hadmits hadmits', ?_⟩, hmade'⟩
  rw [Builder.after_append, ← hrun, ← hrun', run_bind]

theorem Scripted.weaken {act : Build α} {made : α → List Node} {more : List Node} (h : Scripted given act made)
    (hmore : given ⊆ more) : Scripted more act made :=
  fun b hgiven => h b fun node hmem => hgiven node (hmore hmem)

theorem Scripted.mapM {f : α → Build β} {made : β → List Node} {items : List α}
    (h : ∀ item ∈ items, Scripted [] (f item) made) :
    Scripted given (items.mapM f) fun values => values.flatMap made := by
  induction items generalizing given with
  | nil => exact .nothing [] _ (List.nil_subset _)
  | cons item items ih =>
    rw [List.forall_mem_cons] at h
    rw [List.mapM_cons]
    refine (h.1.weaken (List.nil_subset _)).bind fun value => (ih h.2).bind fun values => .nothing _ _ ?_
    intro node hmem
    rw [List.flatMap_cons, List.mem_append] at hmem
    simp only [List.mem_append]
    tauto

/-! ## Single actions -/

/-- `act` hands out the last node that it makes. -/
def Last (act : Build Node) : Prop := ∀ b : Builder, (act.run b).2.ast.size = (act.run b).1.index + 1

theorem last_interior {kind : NodeKind} (h : kind.isLeaf = false) (children : List Node) :
    Last (interior kind children) := by
  intro b
  rw [run_interior h]
  exact b.size_store _

theorem last_constant (value : Constant) : Last (constant value) := fun b => b.size_store (.constant value)

theorem Last.bind {act : Build α} {next : α → Build Node} (h : ∀ value, (next value).Last) : Last (act >>= next) :=
  fun b => h _ (act.run b).2

theorem last_call (target : Node) (args : List Node) : Last (call target args) := by
  intro b
  rw [run_call]
  exact b.size_store _

/-- One action that makes a node. -/
theorem scripted_of_step {act : Build Node} (step : BuildStep) (hrun : ∀ b : Builder, (act.run b).2 = (step.run b).2)
    (hgiven : step.given ⊆ given) (hmatched : step.matched = true) (hlast : act.Last) :
    Scripted given act fun node => [node] := by
  intro b hnodes
  have hallowed : step.Allowed b := ⟨fun node hmem => hnodes node (hgiven hmem), hmatched⟩
  refine ⟨⟨[step], ⟨hallowed, trivial⟩, hrun b⟩, fun node hmem => ?_⟩
  have hsize := hlast b
  rw [List.mem_singleton.1 hmem, Ast.contains_iff]
  omega

/-- One action that makes no node. -/
theorem scripted_of_silent_step {act : Build α} (step : BuildStep)
    (hrun : ∀ b : Builder, (act.run b).2 = (step.run b).2) (hgiven : step.given = []) (hmatched : step.matched = true) :
    Scripted given act fun _ => [] := by
  intro b _
  have hallowed : step.Allowed b := ⟨fun node hmem => by simp [hgiven] at hmem, hmatched⟩
  exact ⟨⟨[step], ⟨hallowed, trivial⟩, hrun b⟩, fun _ hmem => nomatch hmem⟩

theorem scripted_var (name : String) : Scripted given (var name) fun node => [node] :=
  scripted_of_step (.var name) (fun _ => rfl) (List.nil_subset _) rfl (.bind fun _ => last_interior rfl _)

theorem scripted_label (name : String) : Scripted given (label name) fun node => [node] :=
  scripted_of_step (.label name) (fun _ => rfl) (List.nil_subset _) rfl (.bind fun _ => last_interior rfl _)

theorem scripted_place (span : FileSpan) : Scripted given (place span) fun _ => [] :=
  scripted_of_silent_step (.intern span.file) (fun _ => rfl) rfl rfl

theorem scripted_place? (span : Option FileSpan) : Scripted given (span.mapM place) fun _ => [] := by
  cases span with
  | none => exact .nothing none _ (List.nil_subset _)
  | some span => exact (scripted_place span).bind fun _ => .nothing _ _ (List.nil_subset _)

theorem scripted_at? (position : Option Position) : Scripted given (at? position) fun _ => [] :=
  scripted_of_silent_step (.at? position) (fun _ => rfl) rfl rfl

end Build

namespace Lowering

open Build

variable {given : List Node}

/-! ## Statements -/

/-- Every operator stands over as many operands as it takes. -/
def Expr.Matched : Expr → Prop
  | binary op _ _ => op.arity = .binary
  | unary op _ => op.arity = .unary
  | _ => True

def Statement.Matched : Statement → Prop
  | bind _ value => value.Matched
  | eval value => value.Matched
  | _ => True

theorem Expr.matched_ofOperation (mnemonic : String) (operands : List Transfer.Operand) :
    (Expr.ofOperation mnemonic operands).Matched := by
  rw [Expr.ofOperation_eq]
  split
  next operand => exact Operator.arity_resolve mnemonic .unary
  next lhs rhs => exact Operator.arity_resolve mnemonic .binary
  next => trivial

theorem Statement.matched_deliver {value : Expr} (h : value.Matched) (result : Option String) :
    (deliver result value).Matched := by
  cases result <;> exact h

theorem Means.matched {labels : List String} {inst : Transfer.Instruction} {statements : List Statement}
    (h : Means labels inst statements) : ∀ statement ∈ statements, statement.Matched := by
  cases h with
  | condBr => simp [Statement.Matched]
  | call result target args =>
    rw [List.forall_mem_singleton]
    have hcall : (Expr.call target args).Matched := trivial
    exact Statement.matched_deliver hcall result
  | operation result operands =>
    rw [List.forall_mem_singleton]
    exact Statement.matched_deliver (Expr.matched_ofOperation _ operands) result
  | _ => simp [Statement.Matched]

/-! ## Scripts of statements -/

theorem scripted_operand (operand : Transfer.Operand) : Scripted given (buildOperand operand) fun node => [node] := by
  have hconstant (value : Constant) : Scripted given (constant value) fun node => [node] :=
    scripted_of_step (.constant value) (fun _ => rfl) (List.nil_subset _) rfl (last_constant value)
  cases operand with
  | var name => exact scripted_var name
  | str text =>
    exact scripted_of_step (.string text) (fun _ => rfl) (List.nil_subset _) rfl (.bind fun _ => last_constant _)
  | _ => exact hconstant _

theorem scripted_operands (operands : List Transfer.Operand) :
    Scripted given (operands.mapM buildOperand) fun nodes => nodes := by
  have h : Scripted given (operands.mapM buildOperand) fun nodes => nodes.flatMap fun node => [node] :=
    Scripted.mapM fun operand _ => scripted_operand operand
  simpa only [List.flatMap_singleton'] using h

theorem Expr.scripted_build {value : Expr} (h : value.Matched) : Scripted given value.build fun node => [node] := by
  cases value with
  | binary op lhs rhs =>
    refine (scripted_operand lhs).bind fun left => (scripted_operand rhs).bind fun right => ?_
    refine scripted_of_step (.binary op left right) (fun _ => rfl) ?_ (decide_eq_true h) (.bind fun _ => last_interior rfl _)
    simp [BuildStep.given]
  | unary op operand =>
    refine (scripted_operand operand).bind fun node => ?_
    refine scripted_of_step (.unary op node) (fun _ => rfl) ?_ (decide_eq_true h) (.bind fun _ => last_interior rfl _)
    simp [BuildStep.given]
  | primitive name operands =>
    refine (scripted_operands operands).bind fun nodes => ?_
    refine scripted_of_step (.primitive name nodes) (fun _ => rfl) ?_ rfl (.bind fun _ => last_interior rfl _)
    simp [BuildStep.given]
  | call target args =>
    refine (scripted_operand target).bind fun node => (scripted_operands args).bind fun nodes => ?_
    refine scripted_of_step (.call node nodes) (fun _ => rfl) ?_ rfl (last_call node nodes)
    simp [BuildStep.given]

/-- The variable is made after the value, over which it is put. -/
theorem scripted_binding {act : Build Node} (h : Scripted given act fun node => [node]) (name : String) :
    Scripted given (act >>= buildBinding name) fun node => [node] := by
  refine h.bind fun value => (scripted_var name).bind fun named => ?_
  refine scripted_of_step (.assign named value) (fun _ => rfl) ?_ rfl (last_interior rfl _)
  simp [BuildStep.given]

theorem scripted_statement {statement : Statement} (h : statement.Matched) :
    Scripted given statement.build fun node => [node] := by
  cases statement with
  | assign name value => exact scripted_binding (scripted_operand value) name
  | bind name value => exact scripted_binding (value.scripted_build h) name
  | eval value => exact value.scripted_build h
  | ret value =>
    cases value with
    | none => exact scripted_of_step (.ret none) (fun _ => rfl) (List.nil_subset _) rfl (last_interior rfl _)
    | some value =>
      refine (scripted_operand value).bind fun node => ?_
      refine scripted_of_step (.ret (some node)) (fun _ => rfl) ?_ rfl (last_interior rfl _)
      simp [BuildStep.given]
  | goto target =>
    exact scripted_of_step (.goto target) (fun _ => rfl) (List.nil_subset _) rfl (.bind fun _ => last_interior rfl _)
  | ifGoto condition target =>
    refine (scripted_operand condition).bind fun node => ?_
    refine scripted_of_step (.ifGoto node target) (fun _ => rfl) ?_ rfl (.bind fun _ => last_interior rfl _)
    simp [BuildStep.given]

/-! ## Scripts of functions -/

theorem scripted_instruction {inst : PlannedInstruction} (h : ∀ statement ∈ inst.statements, statement.Matched) :
    Scripted given inst.build fun nodes => nodes := by
  refine (scripted_place? inst.position).bind fun position => (scripted_at? position).bind fun _ => ?_
  have hstatements : Scripted ([] ++ ([] ++ given)) (inst.statements.mapM Statement.build) fun nodes =>
      nodes.flatMap fun node => [node] :=
    Scripted.mapM fun statement hmem => scripted_statement (h statement hmem)
  refine hstatements.bind fun nodes => (scripted_at? none).bind fun _ => .nothing nodes _ ?_
  simp

theorem scripted_block {block : PlannedBlock}
    (h : ∀ inst ∈ block.instructions, ∀ statement ∈ inst.statements, statement.Matched) :
    Scripted given block.build fun root => [root] := by
  refine (scripted_label block.label).bind fun label => ?_
  have hinstructions : Scripted ([label] ++ given) (block.instructions.mapM PlannedInstruction.build) fun segments =>
      segments.flatMap fun nodes => nodes :=
    Scripted.mapM fun inst hmem => scripted_instruction (h inst hmem)
  refine hinstructions.bind fun segments => ?_
  refine scripted_of_step (.block (label :: segments.flatten)) (fun _ => rfl) ?_ rfl (last_interior rfl _)
  simp [BuildStep.given, List.flatMap_id']

theorem scripted_plan {plan : Plan}
    (h : ∀ block ∈ plan.blocks, ∀ inst ∈ block.instructions, ∀ statement ∈ inst.statements, statement.Matched) :
    Scripted given plan.build fun _ => [] := by
  refine (scripted_place? plan.position).bind fun position => ?_
  have harguments : Scripted ([] ++ given) (plan.argumentPositions.mapM place) fun positions =>
      positions.flatMap fun _ => [] :=
    Scripted.mapM fun span _ => scripted_place span
  refine harguments.bind fun positions => ?_
  have hblocks : Scripted ((positions.flatMap fun _ => []) ++ ([] ++ given)) (plan.blocks.mapM PlannedBlock.build)
      fun roots => roots.flatMap fun root => [root] :=
    Scripted.mapM fun block hmem => scripted_block (h block hmem)
  exact hblocks.bind fun roots => .nothing _ _ (List.nil_subset _)

/-- A lowered function is what a list of allowed actions leaves. -/
theorem exists_steps_of_lower {function : Transfer.Function} {parts : EntityParts}
    (h : (lower function).result = .ok parts) :
    ∃ steps, Builder.Admits {} steps ∧ parts.builder = Builder.after {} steps := by
  rw [result_lower] at h
  obtain ⟨plan, hplan, ⟨⟩⟩ := Outcome.bind_eq_ok_iff.1 h
  have hplanned := functionPlanned_of_planOf hplan
  have hmatched : ∀ block ∈ plan.blocks, ∀ inst ∈ block.instructions, ∀ statement ∈ inst.statements,
      statement.Matched := by
    intro block hblock planned hinst
    obtain ⟨_, _, hmeans⟩ := hplanned.exists_means hblock hinst
    exact hmeans.matched
  have hnone : ∀ node ∈ ([] : List Node), Ast.contains {} node = true := fun _ hmem => nomatch hmem
  obtain ⟨⟨steps, hadmits, hrun⟩, -⟩ := scripted_plan hmatched {} hnone
  exact ⟨steps, hadmits, (builder_partsOf function plan).trans hrun⟩

end Lowering

end FunctionTrees
