import FunctionTrees.Proofs.Ast.Actions
import Mathlib.Logic.Relation

/-!
# What a builder can do

* `Ast.Shape data` : a node of this data has the children that its kind asks for;
* `Builder.Move b b'` : one of the few ways in which a builder can change: it takes in a string, turns to another
  position, makes a node of a good shape, or makes a call and lists it;
* `BuildStep.Allowed`, `Builder.Admits` : actions that are given nodes of the builder, and as many operands as their
  operator takes;
* `moves_run`, `moves_after` : such actions are rows of moves;
* `Ast.Regular`, `regular_of_moves` : whatever moves a builder makes, its nodes have good shapes and come after their
  children.
-/

set_option autoImplicit false

namespace FunctionTrees

/-! ## Shapes -/

namespace Ast

def IsString (ast : Ast) (node : Node) : Prop := ∃ symbol, ast.data node = .ok (.constant (.str symbol))

def IsOperator (ast : Ast) (arity : Arity) (node : Node) : Prop :=
  ∃ op, ast.data node = .ok (.operator op) ∧ op.arity = arity

/-- A node of this data has the children that its kind asks for. -/
inductive Shape (ast : Ast) : NodeData → Prop
  | operator (op : Operator) : Shape ast (.operator op)
  | constant (value : Constant) : Shape ast (.constant value)
  | empty : Shape ast .empty
  | var {name : Node} (hname : ast.IsString name) : Shape ast (.interior .var [name])
  | binaryExpr {op : Node} (lhs rhs : Node) (hop : ast.IsOperator .binary op) :
    Shape ast (.interior .binaryExpr [op, lhs, rhs])
  | unaryExpr {op : Node} (operand : Node) (hop : ast.IsOperator .unary op) :
    Shape ast (.interior .unaryExpr [op, operand])
  | primitive {name : Node} (operands : List Node) (hname : ast.IsString name) :
    Shape ast (.interior .primitive (name :: operands))
  | call (target : Node) (args : List Node) : Shape ast (.interior .call (target :: args))
  | assign (lhs rhs : Node) : Shape ast (.interior .assign [lhs, rhs])
  | ret (value : Option Node) : Shape ast (.interior .ret value.toList)
  | goto {label : Node} (hlabel : ast.IsString label) : Shape ast (.interior .goto [label])
  | ifGoto (condition : Node) {label : Node} (hlabel : ast.IsString label) :
    Shape ast (.interior .ifGoto [condition, label])
  | label {name : Node} (hname : ast.IsString name) : Shape ast (.interior .label [name])
  | block (statements : List Node) : Shape ast (.interior .block statements)

theorem IsString.grow {small large : Ast} {node : Node} (h : small.IsString node) (hgrown : small.Extends large) :
    large.IsString node := by
  obtain ⟨symbol, hdata⟩ := h
  exact ⟨symbol, hgrown.data hdata⟩

theorem IsOperator.grow {small large : Ast} {arity : Arity} {node : Node} (h : small.IsOperator arity node)
    (hgrown : small.Extends large) : large.IsOperator arity node := by
  obtain ⟨op, hdata, harity⟩ := h
  exact ⟨op, hgrown.data hdata, harity⟩

theorem Shape.grow {small large : Ast} {data : NodeData} (h : small.Shape data) (hgrown : small.Extends large) :
    large.Shape data := by
  cases h with
  | operator op => exact .operator op
  | constant value => exact .constant value
  | empty => exact .empty
  | var hname => exact .var (hname.grow hgrown)
  | binaryExpr lhs rhs hop => exact .binaryExpr lhs rhs (hop.grow hgrown)
  | unaryExpr operand hop => exact .unaryExpr operand (hop.grow hgrown)
  | primitive operands hname => exact .primitive operands (hname.grow hgrown)
  | call target args => exact .call target args
  | assign lhs rhs => exact .assign lhs rhs
  | ret value => exact .ret value
  | goto hlabel => exact .goto (hlabel.grow hgrown)
  | ifGoto condition hlabel => exact .ifGoto condition (hlabel.grow hgrown)
  | label hname => exact .label (hname.grow hgrown)
  | block statements => exact .block statements

end Ast

/-! ## Moves -/

namespace Builder

inductive Move : Builder → Builder → Prop
  | intern (b : Builder) (text : String) : Move b ((Build.intern text).run b).2
  | turn (b : Builder) (current : Option Position) : Move b { b with current }
  | store {b : Builder} {data : NodeData} (hshape : b.ast.Shape data) (hcall : data.kind ≠ .call)
      (hchildren : ∀ child ∈ data.children, child.index < b.ast.size) : Move b (b.store data)
  | call {b : Builder} {target : Node} {args : List Node}
      (hchildren : ∀ child ∈ target :: args, child.index < b.ast.size) : Move b ((Build.call target args).run b).2

abbrev Moves : Builder → Builder → Prop := Relation.ReflTransGen Move

theorem extends_enlist (b : Builder) (site : CallSite) : b.ast.Extends (b.enlist site).ast :=
  ⟨List.prefix_rfl, List.prefix_rfl, List.prefix_append _ _⟩

theorem Move.grown {b b' : Builder} (h : Move b b') : b.ast.Extends b'.ast := by
  cases h with
  | intern text => exact ⟨List.prefix_rfl, b.ast.strings.strings_prefix_insert text, List.prefix_rfl⟩
  | turn current => exact .refl b.ast
  | store => exact b.extends_store _
  | call =>
    rw [Build.run_call]
    exact (b.extends_store _).trans (extends_enlist _ _)

theorem Moves.grown {b b' : Builder} (h : Moves b b') : b.ast.Extends b'.ast := by
  induction h with
  | refl => exact .refl b.ast
  | tail _ hmove ih => exact ih.trans hmove.grown

end Builder

/-! ## Actions as moves -/

namespace Build

open Builder

theorem moves_string (text : String) (b : Builder) : Moves b ((string text).run b).2 :=
  .tail (.single (.intern b text)) (.store (.constant _) NodeKind.noConfusion fun _ hmem => nomatch hmem)

theorem moves_interior {kind : NodeKind} {children : List Node} {b : Builder} (hleaf : kind.isLeaf = false)
    (hcall : kind ≠ .call) (hshape : b.ast.Shape (.interior kind children))
    (hchildren : ∀ child ∈ children, child.index < b.ast.size) : Moves b ((interior kind children).run b).2 := by
  rw [run_interior hleaf]
  exact .single (.store hshape hcall hchildren)

/-- A node that is made under other nodes after a string constant of its own. -/
theorem moves_over_string {kind : NodeKind} {children : Node → List Node} {given : List Node} {b : Builder}
    (text : String) (hleaf : kind.isLeaf = false) (hcall : kind ≠ .call)
    (hshape : ∀ (ast : Ast) (name : Node), ast.IsString name → ast.Shape (.interior kind (children name)))
    (hchildren : ∀ name, children name ⊆ name :: given) (hgiven : ∀ node ∈ given, node.index < b.ast.size) :
    Moves b ((string text >>= fun name => interior kind (children name)).run b).2 := by
  have hstring := moves_string text b
  have hname : ((string text).run b).2.ast.data ((string text).run b).1 = .ok (.constant (.str _)) :=
    Builder.data_store _ _
  rw [run_bind]
  refine hstring.trans (moves_interior hleaf hcall (hshape _ _ ⟨_, hname⟩) fun child hmem => ?_)
  rcases List.mem_cons.1 (hchildren _ hmem) with rfl | hmem
  · exact Ast.lt_size_of_data hname
  · exact Nat.lt_of_lt_of_le (hgiven child hmem) hstring.grown.size_le

/-- A node that is made over operands after an operator of its own. -/
theorem moves_over_operator {kind : NodeKind} {operands : List Node} {b : Builder} (op : Operator)
    (hleaf : kind.isLeaf = false) (hcall : kind ≠ .call)
    (hshape : ∀ (ast : Ast) (node : Node), ast.IsOperator op.arity node →
      ast.Shape (.interior kind (node :: operands)))
    (hoperands : ∀ node ∈ operands, node.index < b.ast.size) :
    Moves b ((operator op >>= fun node => interior kind (node :: operands)).run b).2 := by
  have hmove : Move b (b.store (.operator op)) := .store (.operator op) NodeKind.noConfusion fun _ hmem => nomatch hmem
  have hop := b.data_store (.operator op)
  rw [run_bind, run_operator]
  refine .head hmove (moves_interior hleaf hcall (hshape _ _ ⟨op, hop, rfl⟩) fun child hmem => ?_)
  rcases List.mem_cons.1 hmem with rfl | hmem
  · exact Ast.lt_size_of_data hop
  · exact Nat.lt_of_lt_of_le (hoperands child hmem) hmove.grown.size_le

theorem moves_binary {op : Operator} {lhs rhs : Node} {b : Builder} (harity : op.arity = .binary)
    (hoperands : ∀ node ∈ [lhs, rhs], node.index < b.ast.size) : Moves b ((binary op lhs rhs).run b).2 :=
  moves_over_operator op rfl NodeKind.noConfusion (fun _ _ hop => .binaryExpr lhs rhs (harity ▸ hop)) hoperands

theorem moves_unary {op : Operator} {operand : Node} {b : Builder} (harity : op.arity = .unary)
    (hoperands : ∀ node ∈ [operand], node.index < b.ast.size) : Moves b ((unary op operand).run b).2 :=
  moves_over_operator op rfl NodeKind.noConfusion (fun _ _ hop => .unaryExpr operand (harity ▸ hop)) hoperands

/-- An operator with the wrong number of operands builds nothing. -/
theorem moves_expr? {op : Operator} {operands : List Node} {b : Builder}
    (hoperands : ∀ node ∈ operands, node.index < b.ast.size) : Moves b ((expr? op operands).run b).2 := by
  unfold expr?
  split
  next lhs rhs harity => exact moves_binary harity hoperands
  next operand harity => exact moves_unary harity hoperands
  next => exact .refl

end Build

namespace BuildStep

def given : BuildStep → List Node
  | binary _ lhs rhs => [lhs, rhs]
  | unary _ operand => [operand]
  | expr _ operands => operands
  | primitive _ operands => operands
  | call target args => target :: args
  | assign lhs rhs => [lhs, rhs]
  | ret value => value.toList
  | ifGoto condition _ => [condition]
  | block statements => statements
  | _ => []

def matched : BuildStep → Bool
  | binary op _ _ => op.arity = .binary
  | unary op _ => op.arity = .unary
  | _ => true

/-- The action is given nodes of the builder, and as many operands as its operator takes. -/
def Allowed (b : Builder) (step : BuildStep) : Prop :=
  (∀ node ∈ step.given, b.ast.contains node = true) ∧ step.matched = true

instance (b : Builder) (step : BuildStep) : Decidable (step.Allowed b) :=
  inferInstanceAs (Decidable (_ ∧ _))

open Builder

theorem moves_run {b : Builder} {step : BuildStep} (h : step.Allowed b) : Moves b (step.run b).2 := by
  obtain ⟨hcontains, hmatched⟩ := h
  have hgiven : ∀ node ∈ step.given, node.index < b.ast.size :=
    fun node hmem => Ast.contains_iff.1 (hcontains node hmem)
  have hleaf {data : NodeData} (hshape : b.ast.Shape data) (hcall : data.kind ≠ .call) (hnone : data.children = []) :
      Moves b (b.store data) := .single (.store hshape hcall fun _ hmem => by simp [hnone] at hmem)
  have hover {kind : NodeKind} {children : List Node} (hleaf : kind.isLeaf = false) (hcall : kind ≠ .call)
      (hshape : b.ast.Shape (.interior kind children)) (hchildren : children = step.given) :
      Moves b ((Build.interior kind children).run b).2 :=
    Build.moves_interior hleaf hcall hshape (hchildren ▸ hgiven)
  cases step with
  | intern text => exact .single (.intern b text)
  | position file firstLine firstCol lastLine lastCol => exact .single (.intern b file)
  | at? current => exact .single (.turn b current)
  | operator op => exact hleaf (.operator op) NodeKind.noConfusion rfl
  | constant value => exact hleaf (.constant value) NodeKind.noConfusion rfl
  | string text => exact Build.moves_string text b
  | empty => exact hleaf .empty NodeKind.noConfusion rfl
  | var name =>
    exact Build.moves_over_string name rfl NodeKind.noConfusion (fun _ _ hname => .var hname)
      (fun _ => List.Subset.refl _) hgiven
  | binary op lhs rhs => exact Build.moves_binary (of_decide_eq_true hmatched) hgiven
  | unary op operand => exact Build.moves_unary (of_decide_eq_true hmatched) hgiven
  | expr op operands => exact Build.moves_expr? hgiven
  | primitive name operands =>
    exact Build.moves_over_string name rfl NodeKind.noConfusion (fun _ _ hname => .primitive operands hname)
      (fun _ => List.Subset.refl _) hgiven
  | call target args => exact .single (.call hgiven)
  | assign lhs rhs => exact hover rfl NodeKind.noConfusion (.assign lhs rhs) rfl
  | ret value => exact hover rfl NodeKind.noConfusion (.ret value) rfl
  | goto target =>
    exact Build.moves_over_string target rfl NodeKind.noConfusion (fun _ _ hlabel => .goto hlabel)
      (fun _ => List.Subset.refl _) hgiven
  | ifGoto condition target =>
    exact Build.moves_over_string target rfl NodeKind.noConfusion (fun _ _ hlabel => .ifGoto condition hlabel)
      (fun _ => (List.Perm.swap _ _ []).subset) hgiven
  | label name =>
    exact Build.moves_over_string name rfl NodeKind.noConfusion (fun _ _ hname => .label hname)
      (fun _ => List.Subset.refl _) hgiven
  | block statements => exact hover rfl NodeKind.noConfusion (.block statements) rfl

end BuildStep

namespace Builder

theorem after_append (b : Builder) (steps more : List BuildStep) :
    b.after (steps ++ more) = (b.after steps).after more :=
  List.foldl_append

/-- Each action of the list is allowed when its turn comes. -/
def Admits (b : Builder) : List BuildStep → Prop
  | [] => True
  | step :: steps => step.Allowed b ∧ Admits (step.run b).2 steps

instance decidableAdmits : (b : Builder) → (steps : List BuildStep) → Decidable (b.Admits steps)
  | _, [] => .isTrue trivial
  | b, step :: steps =>
    have := decidableAdmits (step.run b).2 steps
    inferInstanceAs (Decidable (_ ∧ _))

theorem moves_after {b : Builder} {steps : List BuildStep} (h : b.Admits steps) : Moves b (b.after steps) := by
  induction steps generalizing b with
  | nil => exact .refl
  | cons step steps ih => exact (BuildStep.moves_run h.1).trans (ih h.2)

end Builder

/-! ## What all moves keep -/

/-- All nodes have good shapes, and come after their children. -/
structure Ast.Regular (ast : Ast) : Prop where
  shape : ∀ node data, ast.data node = .ok data → ast.Shape data
  closed : ast.Closed

namespace Builder

theorem regular_empty : Ast.Regular {} := by
  refine ⟨fun node data h => ?_, sound_empty.closed⟩
  have hlt := Ast.lt_size_of_data h
  exact absurd hlt (Nat.not_lt_zero _)

/-- Only nodes matter. -/
theorem regular_of_nodes {small large : Ast} (h : small.Regular) (hgrown : small.Extends large)
    (hnodes : large.nodes = small.nodes) : large.Regular := by
  have hdata : large.data = small.data := by
    funext node
    simp only [Ast.data, hnodes]
  refine ⟨fun node data hnode => ?_, fun node data hnode => ?_⟩
  · rw [hdata] at hnode
    exact (h.shape node data hnode).grow hgrown
  · rw [hdata] at hnode
    exact h.closed node data hnode

theorem regular_store {b : Builder} {data : NodeData} (h : b.ast.Regular) (hshape : b.ast.Shape data)
    (hchildren : ∀ child ∈ data.children, child.index < b.ast.size) : (b.store data).ast.Regular := by
  refine ⟨fun node stored hstored => ?_, closed_store h.closed hchildren⟩
  rcases data_store_cases hstored with ⟨rfl, rfl⟩ | hold
  · exact hshape.grow (b.extends_store _)
  · exact (h.shape node stored hold).grow (b.extends_store _)

theorem Move.regular {b b' : Builder} (hmove : Move b b') (h : b.ast.Regular) : b'.ast.Regular := by
  have hgrown := hmove.grown
  cases hmove with
  | intern text => exact regular_of_nodes h hgrown rfl
  | turn current => exact h
  | store hshape hcall hchildren => exact regular_store h hshape hchildren
  | @call target args hchildren =>
    rw [Build.run_call]
    exact regular_of_nodes (regular_store h (.call target args) hchildren) (extends_enlist _ _) rfl

theorem regular_of_moves {b b' : Builder} (hmoves : Moves b b') (h : b.ast.Regular) : b'.ast.Regular := by
  induction hmoves with
  | refl => exact h
  | tail _ hmove ih => exact hmove.regular ih

end Builder

end FunctionTrees
