import FunctionTrees.Proofs.Ast.Actions
import FunctionTrees.Proofs.Lowering.Planning

/-!
# Stopgaps in a tree

* `NodeData.stopgap?`, `Ast.stopgaps` : the nodes that stand in for operators, in the order of their making;
* `Build.Leaves act gaps` : `act` makes just these; `Leaves.bind`, `Leaves.mapM`;
* `Expr.stopgaps`, `Statement.stopgaps` : those of expressions and statements; `Expr.stopgaps_ofOperation` : an operation
  has those that the attempt at it notes;
* `leaves_statement`, `leaves_plan` : what is built for a statement and for a plan has the same.
-/

set_option autoImplicit false

namespace FunctionTrees

open Lowering (Stopgap)

/-! ## Nodes that stand in for operators -/

def Operator.stopgap? (op : Operator) : Option Stopgap := if op.isFallback then some (.fallback op) else none

theorem Operator.toList_stopgap? (op : Operator) :
    op.stopgap?.toList = if op.isFallback then [.fallback op] else [] := by
  unfold stopgap?
  split <;> rfl

/-- What the node stands in with: a fallback operator, or an expression over no operator. -/
def NodeData.stopgap? : NodeData → Option Stopgap
  | operator op => op.stopgap?
  | interior .primitive _ => some .primitive
  | _ => none

def Ast.stopgaps (ast : Ast) : List Stopgap := ast.nodes.toList.filterMap NodeData.stopgap?

namespace Build

variable {α β : Type}

/-! ## What actions leave -/

/-- Wherever it is run, `act` makes these stopgaps. -/
def Leaves (act : Build α) (gaps : List Stopgap) : Prop :=
  ∀ b : Builder, (act.run b).2.ast.stopgaps = b.ast.stopgaps ++ gaps

/-- An action that leaves the nodes alone. -/
theorem leaves_nothing {act : Build α} (h : ∀ b : Builder, (act.run b).2.ast.nodes = b.ast.nodes) : Leaves act [] := by
  intro b
  rw [Ast.stopgaps, h, List.append_nil]
  rfl

theorem leaves_pure (value : α) : Leaves (pure value : Build α) [] := leaves_nothing fun _ => rfl

theorem Leaves.bind {act : Build α} {next : α → Build β} {gaps more : List Stopgap} (h : Leaves act gaps)
    (hnext : ∀ value, Leaves (next value) more) : Leaves (act >>= next) (gaps ++ more) := by
  intro b
  rw [run_bind, hnext, h, List.append_assoc]

/-- What follows without stopgaps of its own does not count. -/
theorem Leaves.seal {act : Build α} {next : α → Build β} {gaps : List Stopgap} (h : Leaves act gaps)
    (hnext : ∀ value, Leaves (next value) []) : Leaves (act >>= next) gaps :=
  List.append_nil gaps ▸ h.bind hnext

theorem Leaves.mapM {f : α → Build β} {gaps : α → List Stopgap} (h : ∀ item, Leaves (f item) (gaps item))
    (items : List α) : Leaves (items.mapM f) (items.flatMap gaps) := by
  induction items with
  | nil => exact leaves_pure []
  | cons item items ih =>
    rw [List.mapM_cons, List.flatMap_cons]
    exact (h item).bind fun _ => ih.seal fun _ => leaves_pure _

theorem Leaves.mapM_nil {f : α → Build β} (h : ∀ item, Leaves (f item) []) (items : List α) :
    Leaves (items.mapM f) [] := by
  have hall := Leaves.mapM h items
  rwa [List.flatMap_eq_nil_iff.2 fun _ _ => rfl] at hall

theorem leaves_push (data : NodeData) : Leaves (push data) data.stopgap?.toList := by
  intro b
  show (b.ast.nodes.push data).toList.filterMap NodeData.stopgap? = _
  rw [Arena.toList_push, List.filterMap_append]
  rfl

theorem leaves_stamp (node : Node) : Leaves (stamp node) [] := by
  refine leaves_nothing fun b => ?_
  show ((stamp node) b).2.ast.nodes = _
  unfold stamp
  split <;> rfl

theorem leaves_interior (kind : NodeKind) (children : List Node) :
    Leaves (interior kind children) (NodeData.interior kind children).stopgap?.toList :=
  (leaves_push _).seal fun node => (leaves_stamp node).seal fun _ => leaves_pure node

theorem leaves_intern (text : String) : Leaves (intern text) [] := leaves_nothing fun _ => rfl

theorem leaves_string (text : String) : Leaves (string text) [] :=
  (leaves_intern text).bind fun _ => leaves_push _

/-- A node over a name. -/
theorem leaves_named (name : String) {next : Node → Build Node} {gaps : List Stopgap}
    (h : ∀ node, Leaves (next node) gaps) : Leaves (string name >>= next) gaps :=
  (leaves_string name).bind h

theorem leaves_var (name : String) : Leaves (var name) [] := leaves_named name fun _ => leaves_interior _ _

theorem leaves_label (name : String) : Leaves (label name) [] := leaves_named name fun _ => leaves_interior _ _

theorem leaves_place (span : FileSpan) : Leaves (place span) [] := (leaves_intern span.file).bind fun _ => leaves_pure _

theorem leaves_place? (span : Option FileSpan) : Leaves (span.mapM place) [] := by
  cases span with
  | none => exact leaves_pure none
  | some span => exact (leaves_place span).bind fun _ => leaves_pure _

theorem leaves_at? (position : Option Position) : Leaves (at? position) [] := leaves_nothing fun _ => rfl

theorem leaves_call (target : Node) (args : List Node) : Leaves (call target args) [] :=
  (leaves_nothing fun _ => rfl : Leaves (get : Build Builder) []).bind fun _ =>
    (leaves_interior .call _).bind fun node =>
      (leaves_nothing fun _ => rfl : Leaves (modify _ : Build PUnit) []).bind fun _ => leaves_pure node

end Build

namespace Lowering

open Transfer Build

/-! ## Expressions and statements -/

def Expr.stopgaps : Expr → List Stopgap
  | binary op _ _ => op.stopgap?.toList
  | unary op _ => op.stopgap?.toList
  | primitive _ _ => [.primitive]
  | call _ _ => []

def Statement.stopgaps : Statement → List Stopgap
  | bind _ value => value.stopgaps
  | eval value => value.stopgaps
  | _ => []

theorem Expr.stopgaps_over? {op : Operator} {operands : List Operand} {value : Expr}
    (h : over? op operands = some value) : value.stopgaps = op.stopgap?.toList := by
  unfold over? at h
  split at h
  · cases h
    rfl
  · cases h
    rfl
  · cases h

/-- An operation has the stopgaps that the attempt at it notes. -/
theorem Expr.stopgaps_ofOperation (mnemonic : String) (operands : List Operand) :
    (ofOperation mnemonic operands).stopgaps = (attempt mnemonic operands).1 := by
  cases hcount : Arity.ofCount? operands.length with
  | none =>
    rw [ofOperation, attempt_of_none mnemonic hcount]
    rfl
  | some arity =>
    obtain ⟨value, hvalue, hattempt⟩ := attempt_of_some mnemonic hcount
    rw [ofOperation, hattempt, ← Operator.toList_stopgap?]
    exact stopgaps_over? hvalue

theorem Statement.stopgaps_deliver (result : Option String) (value : Expr) :
    (deliver result value).stopgaps = value.stopgaps := by
  cases result <;> rfl

theorem leaves_buildOperand (operand : Operand) : Leaves (buildOperand operand) [] := by
  cases operand with
  | var name => exact leaves_var name
  | str text => exact leaves_string text
  | _ => exact leaves_push _

theorem leaves_expr (value : Expr) : Leaves value.build value.stopgaps := by
  cases value with
  | binary op lhs rhs =>
    refine (leaves_buildOperand lhs).bind fun _ => (leaves_buildOperand rhs).bind fun _ => ?_
    exact (leaves_push (.operator op)).seal fun _ => leaves_interior _ _
  | unary op operand =>
    refine (leaves_buildOperand operand).bind fun _ => ?_
    exact (leaves_push (.operator op)).seal fun _ => leaves_interior _ _
  | primitive name operands =>
    refine (Leaves.mapM_nil leaves_buildOperand operands).bind fun _ => ?_
    exact leaves_named name fun _ => leaves_interior _ _
  | call target args =>
    refine (leaves_buildOperand target).bind fun _ => (Leaves.mapM_nil leaves_buildOperand args).bind fun _ => ?_
    exact leaves_call _ _

theorem leaves_binding (name : String) (value : Node) : Leaves (buildBinding name value) [] :=
  (leaves_var name).bind fun _ => leaves_interior _ _

theorem leaves_statement (statement : Statement) : Leaves statement.build statement.stopgaps := by
  cases statement with
  | assign name value => exact (leaves_buildOperand value).bind fun _ => leaves_binding name _
  | bind name value => exact (leaves_expr value).seal fun _ => leaves_binding name _
  | eval value => exact leaves_expr value
  | ret value =>
    cases value with
    | none => exact leaves_interior _ _
    | some value => exact (leaves_buildOperand value).bind fun _ => leaves_interior _ _
  | goto label => exact leaves_named label fun _ => leaves_interior _ _
  | ifGoto condition label =>
    exact (leaves_buildOperand condition).bind fun _ => leaves_named label fun _ => leaves_interior _ _

/-! ## Plans -/

def PlannedInstruction.stopgaps (inst : PlannedInstruction) : List Stopgap := inst.statements.flatMap Statement.stopgaps

def PlannedBlock.stopgaps (block : PlannedBlock) : List Stopgap :=
  block.instructions.flatMap PlannedInstruction.stopgaps

def Plan.stopgaps (plan : Plan) : List Stopgap := plan.blocks.flatMap PlannedBlock.stopgaps

theorem leaves_instruction (inst : PlannedInstruction) : Leaves inst.build inst.stopgaps := by
  refine (leaves_place? _).bind fun position => (leaves_at? position).bind fun _ => ?_
  exact (Leaves.mapM leaves_statement _).seal fun _ => (leaves_at? none).bind fun _ => leaves_pure _

theorem leaves_block (block : PlannedBlock) : Leaves block.build block.stopgaps := by
  refine (leaves_label block.label).bind fun _ => ?_
  exact (Leaves.mapM leaves_instruction _).seal fun _ => leaves_interior _ _

theorem leaves_plan (plan : Plan) : Leaves plan.build plan.stopgaps := by
  refine (leaves_place? _).bind fun _ => (Leaves.mapM_nil leaves_place _).bind fun _ => ?_
  exact (Leaves.mapM leaves_block _).seal fun _ => leaves_pure _

end Lowering

end FunctionTrees
