import FunctionTrees.Lowering
import FunctionTrees.Proofs.Ast.Actions
import FunctionTrees.Proofs.Lowering.Instructions
import FunctionTrees.Proofs.Operator

/-!
# The tree of a function, read off the function

* `Operand.tree`, `Instruction.trees`, `Block.tree` : what an operand, an instruction and a block amount to as trees, with
  neither keys nor symbols;
* `Tree.Hereditary P`, `Hereditary.trees` : what goes up from the operands holds of the trees of the instruction;
* `Statement.tree` : the same for plain statements; `Statement.makes_build` : building a statement makes its tree;
* `Means.map_tree` : the statements of a sound instruction have its trees.
-/

set_option autoImplicit false

namespace FunctionTrees

/-! ## Trees of what is handed over -/

namespace Transfer

def Operand.tree : Operand → Tree
  | .var name => .named .var name
  | .int value => .literal (.int value)
  | .float bits => .literal (.float bits)
  | .bool value => .literal (.bool value)
  | .str text => .string text
  | .null => .literal .null

/-- The operator that stands for a mnemonic: the precise one of the arity, or else the fallback. -/
def operatorFor (mnemonic : String) (arity : Arity) : Operator :=
  (Operator.precise? mnemonic arity).getD (Operator.fallback arity)

def operationTree (mnemonic : String) : List Tree → Tree
  | [operand] => .node .unaryExpr [.operator (operatorFor mnemonic .unary), operand]
  | [lhs, rhs] => .node .binaryExpr [.operator (operatorFor mnemonic .binary), lhs, rhs]
  | operands => .node .primitive (.string mnemonic :: operands)

def assignTree (name : String) (value : Tree) : Tree := .node .assign [.named .var name, value]

/-- The value goes to the result, if there is one. -/
def deliverTree (result : Option String) (value : Tree) : Tree :=
  match result with
  | some name => assignTree name value
  | none => value

namespace Instruction

/-- The trees of the statements of a sound instruction. -/
def trees (inst : Instruction) : List Tree :=
  let operands := inst.operands.map Operand.tree
  if inst.opcode = "assign" then
    match inst.result, operands with
    | some name, [value] => [assignTree name value]
    | _, _ => []
  else if inst.opcode = "return" then [.node .ret operands]
  else if inst.opcode = "br" then inst.targets.map (Tree.named .goto)
  else if inst.opcode = "cond_br" then
    match operands, inst.targets with
    | [condition], [target, otherwise] => [.node .ifGoto [condition, .string target], .named .goto otherwise]
    | _, _ => []
  else if inst.opcode = "call" then [deliverTree inst.result (.node .call operands)]
  else [deliverTree inst.result (operationTree inst.opcode operands)]

def width (inst : Instruction) : Nat := if inst.opcode = "cond_br" then 2 else 1

end Instruction

/-- The tree of a block: its label, then the statements of its instructions. -/
def Block.tree (block : Block) : Tree :=
  .node .block (.named .label block.label :: block.instructions.flatMap Instruction.trees)

end Transfer

/-- `P` holds of operators and of texts, and of a node that is no block if it holds of the trees under it. -/
structure Tree.Hereditary (P : Tree → Prop) : Prop where
  operator : ∀ op, P (.operator op)
  string : ∀ text, P (.string text)
  node : ∀ kind children, kind ≠ .block → (∀ child ∈ children, P child) → P (.node kind children)

namespace Tree.Hereditary

open Transfer

variable {P : Tree → Prop}

theorem named (h : Hereditary P) {kind : NodeKind} (hkind : kind ≠ .block) (name : String) : P (.named kind name) :=
  h.node kind _ hkind (List.forall_mem_singleton.2 (h.string name))

theorem operationTree (h : Hereditary P) (mnemonic : String) {operands : List Tree}
    (hoperands : ∀ operand ∈ operands, P operand) : P (operationTree mnemonic operands) := by
  unfold Transfer.operationTree
  split
  · exact h.node _ _ NodeKind.noConfusion (List.forall_mem_cons.2 ⟨h.operator _, hoperands⟩)
  · exact h.node _ _ NodeKind.noConfusion (List.forall_mem_cons.2 ⟨h.operator _, hoperands⟩)
  · exact h.node _ _ NodeKind.noConfusion (List.forall_mem_cons.2 ⟨h.string _, hoperands⟩)

theorem assignTree (h : Hereditary P) (name : String) {value : Tree} (hvalue : P value) : P (assignTree name value) :=
  h.node _ _ NodeKind.noConfusion
    (List.forall_mem_cons.2 ⟨h.named NodeKind.noConfusion name, List.forall_mem_singleton.2 hvalue⟩)

theorem deliverTree (h : Hereditary P) (result : Option String) {value : Tree} (hvalue : P value) :
    P (deliverTree result value) := by
  cases result with
  | none => exact hvalue
  | some name => exact h.assignTree name hvalue

/-- What holds of the operands holds of the trees of the instruction. -/
theorem trees (h : Hereditary P) {inst : Instruction} (hinst : ∀ operand ∈ inst.operands, P operand.tree) :
    ∀ tree ∈ inst.trees, P tree := by
  have hoperands : ∀ operand ∈ inst.operands.map Operand.tree, P operand := List.forall_mem_map.2 hinst
  unfold Instruction.trees
  generalize inst.operands.map Operand.tree = operands at hoperands
  dsimp only
  split_ifs
  · split
    · exact List.forall_mem_singleton.2 (h.assignTree _ (List.forall_mem_singleton.1 hoperands))
    · exact nofun
  · exact List.forall_mem_singleton.2 (h.node _ _ NodeKind.noConfusion hoperands)
  · exact List.forall_mem_map.2 fun target _ => h.named NodeKind.noConfusion target
  · split
    next condition target otherwise _ =>
      refine List.forall_mem_cons.2 ⟨h.node _ _ NodeKind.noConfusion ?_,
        List.forall_mem_singleton.2 (h.named NodeKind.noConfusion otherwise)⟩
      exact List.forall_mem_cons.2
        ⟨List.forall_mem_singleton.1 hoperands, List.forall_mem_singleton.2 (h.string target)⟩
    next => exact nofun
  · exact List.forall_mem_singleton.2 (h.deliverTree _ (h.node _ _ NodeKind.noConfusion hoperands))
  · exact List.forall_mem_singleton.2 (h.deliverTree _ (h.operationTree _ hoperands))

end Tree.Hereditary

namespace Lowering

open Transfer

/-! ## Trees of plain statements -/

def Expr.tree : Expr → Tree
  | binary op lhs rhs => .node .binaryExpr [.operator op, lhs.tree, rhs.tree]
  | unary op operand => .node .unaryExpr [.operator op, operand.tree]
  | primitive name operands => .node .primitive (.string name :: operands.map Operand.tree)
  | call target args => .node .call (target.tree :: args.map Operand.tree)

def Statement.tree : Statement → Tree
  | assign name value => assignTree name value.tree
  | bind name value => assignTree name value.tree
  | eval value => value.tree
  | ret value => .node .ret (value.toList.map Operand.tree)
  | goto label => .named .goto label
  | ifGoto condition label => .node .ifGoto [condition.tree, .string label]

theorem Expr.tree_ofOperation (mnemonic : String) (operands : List Operand) :
    (Expr.ofOperation mnemonic operands).tree = operationTree mnemonic (operands.map Operand.tree) := by
  rw [Expr.ofOperation_eq]
  split
  next operand =>
    rw [Operator.resolve_eq_getD]
    rfl
  next lhs rhs =>
    rw [Operator.resolve_eq_getD]
    rfl
  next hunary hbinary =>
    match operands with
    | [] => rfl
    | [operand] => exact absurd rfl (hunary operand)
    | [lhs, rhs] => exact absurd rfl (hbinary lhs rhs)
    | _ :: _ :: _ :: _ => rfl

theorem Statement.tree_deliver (result : Option String) (value : Expr) :
    (deliver result value).tree = deliverTree result value.tree := by
  cases result <;> rfl

/-! ## Building statements -/

section Building

open Build

theorem makes_buildOperand (operand : Operand) : (buildOperand operand).Makes operand.tree := by
  cases operand with
  | var name => exact makes_var name
  | str text => exact makes_string text
  | _ => exact makes_constant fun _ => rfl

theorem Expr.makes_build (value : Expr) : value.build.Makes value.tree := by
  intro b h
  cases value with
  | binary op lhs rhs =>
    have hlhs := makes_buildOperand lhs b h
    exact grows_binary (hlhs.append (makes_buildOperand rhs _ hlhs.sound)) op
  | unary op operand => exact grows_unary (makes_buildOperand operand b h) op
  | primitive name operands => exact grows_primitive (makesAll_mapM makes_buildOperand operands b h) name
  | call target args =>
    have htarget := makes_buildOperand target b h
    exact grows_call (htarget.append (makesAll_mapM makes_buildOperand args _ htarget.sound))

/-- The name comes to stand in front of the value, but is built after it. -/
theorem makes_binding {act : Build Node} {value : Tree} (h : act.Makes value) (name : String) :
    (act >>= buildBinding name).Makes (assignTree name value) := by
  intro b hsound
  have hvalue := h b hsound
  exact grows_interior (hvalue.append (makes_var name _ hvalue.sound)).front rfl NodeKind.noConfusion

theorem Statement.makes_build (statement : Statement) : statement.build.Makes statement.tree := by
  cases statement with
  | assign name value => exact makes_binding (makes_buildOperand value) name
  | bind name value => exact makes_binding value.makes_build name
  | eval value => exact value.makes_build
  | ret value =>
    intro b h
    cases value with
    | none => exact grows_interior (.of_covers_nil (.refl h) rfl) rfl NodeKind.noConfusion
    | some value => exact grows_interior (makes_buildOperand value b h) rfl NodeKind.noConfusion
  | goto label => exact makes_goto label
  | ifGoto condition label =>
    intro b h
    exact grows_ifGoto (makes_buildOperand condition b h) label

end Building

/-! ## Statements of sound instructions -/

theorem trees_of_not_mem {inst : Instruction} (h : inst.opcode ∉ controlOpcodes) :
    inst.trees = [deliverTree inst.result (operationTree inst.opcode (inst.operands.map Operand.tree))] := by
  obtain ⟨hassign, hcall, hret, hbr, hcond⟩ := not_mem_controlOpcodes.1 h
  rw [Instruction.trees, if_neg hassign, if_neg hret, if_neg hbr, if_neg hcond, if_neg hcall]

theorem Means.map_tree {labels : List String} {inst : Instruction} {statements : List Statement}
    (h : Means labels inst statements) : statements.map Statement.tree = inst.trees := by
  cases h with
  | assign => rfl
  | ret value => cases value <;> rfl
  | br => rfl
  | condBr => rfl
  | call result target args =>
    rw [List.map_singleton, Statement.tree_deliver]
    rfl
  | operation result operands position hmnemonic =>
    rw [List.map_singleton, Statement.tree_deliver, Expr.tree_ofOperation, trees_of_not_mem hmnemonic]

theorem Means.length_eq {labels : List String} {inst : Instruction} {statements : List Statement}
    (h : Means labels inst statements) : statements.length = inst.width := by
  cases h with
  | operation result operands position hmnemonic =>
    obtain ⟨-, -, -, -, hcond⟩ := not_mem_controlOpcodes.1 hmnemonic
    rw [Instruction.width, if_neg hcond]
    rfl
  | _ => rfl

/-- No statement is a leaf. -/
theorem Statement.tree_eq_node (statement : Statement) :
    ∃ kind trees, statement.tree = .node kind trees ∧ kind.isLeaf = false := by
  cases statement with
  | eval value => cases value <;> exact ⟨_, _, rfl, rfl⟩
  | _ => exact ⟨_, _, rfl, rfl⟩

theorem Statement.inner_of_stands {ast : Ast} {node : Node} {statement : Statement}
    (h : ast.Stands node statement.tree) : ast.Inner node := by
  obtain ⟨kind, trees, htree, hkind⟩ := statement.tree_eq_node
  rw [htree] at h
  obtain ⟨children, hdata⟩ := h.exists_children
  exact (Ast.inner_iff hdata).2 hkind

end Lowering

end FunctionTrees
