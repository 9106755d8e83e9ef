import FunctionTrees.Proofs.Ast.Moves
import FunctionTrees.Proofs.Outcome

/-!
# The shapes of nodes

* `Builder.Given b steps` : each action is given nodes that the builder has by then; `admits_of_given` : if there are such
  actions, the operators of their expressions take the operands;
* `NodeKind.arity?`, `Ast.Regular.exprOperator?` : the expressions, and no other nodes, have an operator, and it is one of
  their arity;
* `shapes_of_offered` : whatever actions a builder takes, all of its nodes have the shapes that their kinds ask for.
-/

set_option autoImplicit false

namespace FunctionTrees

open Outcome

/-! ## Actions -/

/-- The operators of the actions with a fixed number of operands take that many. -/
theorem BuildStep.arity_of_mem_ownOperators {arity : Arity} {op : Operator} (h : op ∈ ownOperators arity) :
    op.arity = arity := by
  have hall : ∀ op ∈ ownOperators arity, op.arity = arity := by
    cases arity with
    | unary => decide
    | binary => decide
  exact hall op h

theorem BuildStep.matched_of_isOffered {step : BuildStep} (h : step.isOffered = true) : step.matched = true := by
  cases step with
  | binary op lhs rhs => exact decide_eq_true (arity_of_mem_ownOperators (of_decide_eq_true h))
  | unary op operand => exact decide_eq_true (arity_of_mem_ownOperators (of_decide_eq_true h))
  | _ => rfl

namespace Builder

/-- Each action is given nodes that the builder has by then. -/
def Given (b : Builder) : List BuildStep → Prop
  | [] => True
  | step :: steps => (∀ node ∈ step.given, b.ast.contains node = true) ∧ Given (step.run b).2 steps

instance decidableGiven : (b : Builder) → (steps : List BuildStep) → Decidable (b.Given steps)
  | _, [] => .isTrue trivial
  | b, step :: steps =>
    have := decidableGiven (step.run b).2 steps
    inferInstanceAs (Decidable (_ ∧ _))

theorem admits_of_given {b : Builder} {steps : List BuildStep} (hoffered : ∀ step ∈ steps, step.isOffered = true)
    (hgiven : b.Given steps) : b.Admits steps := by
  induction steps generalizing b with
  | nil => trivial
  | cons step steps ih =>
    rw [List.forall_mem_cons] at hoffered
    exact ⟨⟨hgiven.1, BuildStep.matched_of_isOffered hoffered.1⟩, ih hoffered.2 hgiven.2⟩

end Builder

/-! ## Operators of expressions -/

def NodeKind.arity? : NodeKind → Option Arity
  | binaryExpr => some .binary
  | unaryExpr => some .unary
  | _ => none

namespace Ast

variable {ast : Ast} {node : Node}

/-- The operator of an expression is its first child. -/
theorem exprOperator?_of_isOperator {kind : NodeKind} {first : Node} {operands : List Node} {arity : Arity}
    (hdata : ast.data node = .ok (.interior kind (first :: operands))) (hkind : kind.arity? = some arity)
    (hfirst : ast.IsOperator arity first) :
    ∃ op, ast.exprOperator? node = .ok (some op) ∧ op.arity = arity := by
  obtain ⟨op, hop, harity⟩ := hfirst
  have hnode : ast.kind node = .ok kind := kind_eq_ok_iff.2 ⟨_, hdata, rfl⟩
  have hchild : ast.child? node 0 = .ok (some first) :=
    map_eq_ok_iff.2 ⟨_, children_eq_ok_iff.2 ⟨_, hdata, rfl⟩, rfl⟩
  have hoperator : ast.operator? first = .ok (some op) := map_eq_ok_iff.2 ⟨_, hop, rfl⟩
  refine ⟨op, ?_, harity⟩
  rw [exprOperator?, hnode, ok_bind]
  cases kind with
  | binaryExpr => exact bind_eq_ok_iff.2 ⟨_, hchild, hoperator⟩
  | unaryExpr => exact bind_eq_ok_iff.2 ⟨_, hchild, hoperator⟩
  | _ => cases hkind

/-- Where shapes are good, the expressions, and no other nodes, have an operator, and it is one of their arity. -/
theorem Regular.exprOperator? (h : ast.Regular) {kind : NodeKind} (hkind : ast.kind node = .ok kind) :
    ∃ op?, ast.exprOperator? node = .ok op? ∧ op?.map Operator.arity = kind.arity? := by
  have hnone (hplain : kind.arity? = none) : ast.exprOperator? node = .ok none := by
    rw [Ast.exprOperator?, hkind, ok_bind]
    cases kind with
    | binaryExpr => cases hplain
    | unaryExpr => cases hplain
    | _ => rfl
  have hsome {arity : Arity} (harity : kind.arity? = some arity)
      (hop : ∃ op, ast.exprOperator? node = .ok (some op) ∧ op.arity = arity) :
      ∃ op?, ast.exprOperator? node = .ok op? ∧ op?.map Operator.arity = kind.arity? := by
    obtain ⟨op, hop, rfl⟩ := hop
    exact ⟨some op, hop, harity.symm⟩
  obtain ⟨data, hdata, rfl⟩ := kind_eq_ok_iff.1 hkind
  cases h.shape node data hdata with
  | binaryExpr lhs rhs hop => exact hsome rfl (exprOperator?_of_isOperator hdata rfl hop)
  | unaryExpr operand hop => exact hsome rfl (exprOperator?_of_isOperator hdata rfl hop)
  | _ => exact ⟨none, hnone rfl, rfl⟩

end Ast

/-! ## All together -/

/-- Whatever actions a builder takes, each of its nodes has the shape that its kind asks for and comes after its children.
The expressions, and no other nodes, have an operator, and it is one of their arity. -/
theorem shapes_of_offered (steps : List BuildStep) (hoffered : ∀ step ∈ steps, step.isOffered = true)
    (hgiven : Builder.Given {} steps) :
    let ast := (Builder.after {} steps).ast
    (∀ node data, ast.data node = .ok data → ast.Shape data ∧ ∀ child ∈ data.children, child.index < node.index) ∧
      ∀ node kind, ast.kind node = .ok kind →
        ∃ op?, ast.exprOperator? node = .ok op? ∧ op?.map Operator.arity = kind.arity? := by
  intro ast
  have hmoves := Builder.moves_after (Builder.admits_of_given hoffered hgiven)
  have hregular : ast.Regular := Builder.regular_of_moves hmoves Builder.regular_empty
  refine ⟨fun node data hdata => ⟨hregular.shape node data hdata, ?_⟩, fun node kind => hregular.exprOperator?⟩
  exact hregular.closed node data hdata

/-- A sum over a negation, after an expression that is refused because its operator takes one operand only. -/
def negatedSum : List BuildStep :=
  [.var "x", .expr .neg [⟨1⟩, ⟨1⟩], .unary .neg ⟨1⟩, .expr .add [⟨1⟩, ⟨3⟩], .ret (some ⟨5⟩), .block [⟨6⟩]]

theorem shapes_of_offered_negatedSum :
    let ast := (Builder.after {} negatedSum).ast
    (∀ step ∈ negatedSum, step.isOffered = true) ∧ Builder.Given {} negatedSum ∧
      ast.data ⟨5⟩ = .ok (.interior .binaryExpr [⟨4⟩, ⟨1⟩, ⟨3⟩]) ∧
      ast.Shape (.interior .binaryExpr [⟨4⟩, ⟨1⟩, ⟨3⟩]) ∧
      ∃ op?, ast.exprOperator? ⟨5⟩ = .ok op? ∧ op?.map Operator.arity = some .binary := by
  intro ast
  have hoffered : ∀ step ∈ negatedSum, step.isOffered = true := by decide
  have hgiven : Builder.Given {} negatedSum := by decide
  have hdata : ast.data ⟨5⟩ = .ok (.interior .binaryExpr [⟨4⟩, ⟨1⟩, ⟨3⟩]) := by decide
  have hkind : ast.kind ⟨5⟩ = .ok .binaryExpr := by decide
  obtain ⟨hshapes, hoperators⟩ := shapes_of_offered negatedSum hoffered hgiven
  exact ⟨hoffered, hgiven, hdata, (hshapes _ _ hdata).1, hoperators _ _ hkind⟩

end FunctionTrees
