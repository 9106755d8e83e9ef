import FunctionTrees.Proofs.Ast.Growth

/-!
# What the actions of a builder make

* `run_interior`, `run_operator`, `run_constant` : each node is made by a `Builder.store`;
* `Builder.enlist`, `run_call` : a call is moreover listed;
* `Makes act tree` : wherever it is run, `act` makes the nodes of `tree` and hands out the last of them;
* `makes_string`, `makes_var`, `makes_goto`, `makes_label` : nodes with a name;
* `makesAll_mapM` : actions one after the other;
* `grows_primitive`, `grows_binary`, … : nodes over operands that were made before.
-/

set_option autoImplicit false

namespace FunctionTrees

namespace Tree

def string (value : String) : Tree := .literal (.str value)

/-- A node with nothing but a name under it. -/
def named (kind : NodeKind) (name : String) : Tree := .node kind [string name]

end Tree

def Builder.enlist (b : Builder) (site : CallSite) : Builder :=
  { b with ast := { b.ast with callSites := b.ast.callSites ++ [site] } }

namespace Build

variable {α β : Type}

/-! ## Runs -/

theorem run_bind (act : Build α) (next : α → Build β) (b : Builder) :
    (act >>= next).run b = (next (act.run b).1).run (act.run b).2 := rfl

theorem run_interior {kind : NodeKind} (h : kind.isLeaf = false) (children : List Node) (b : Builder) :
    (interior kind children).run b = (⟨b.ast.size⟩, b.store (.interior kind children)) := by
  have hkind : (NodeData.interior kind children).kind.isLeaf = false := h
  obtain ⟨ast, positions, current⟩ := b
  unfold Builder.store
  rw [hkind]
  cases current <;> rfl

theorem run_operator (op : Operator) (b : Builder) :
    (operator op).run b = (⟨b.ast.size⟩, b.store (.operator op)) := rfl

theorem run_constant (value : Constant) (b : Builder) :
    (constant value).run b = (⟨b.ast.size⟩, b.store (.constant value)) := rfl

theorem run_call (target : Node) (args : List Node) (b : Builder) :
    (call target args).run b = (⟨b.ast.size⟩,
      (b.store (.interior .call (target :: args))).enlist ⟨⟨b.ast.size⟩, target, callee? b.ast target⟩) := by
  have hleaf : NodeKind.call.isLeaf = false := rfl
  have hnode := run_interior hleaf (target :: args) b
  rw [call, run_bind]
  show (_, Builder.enlist ((interior .call (target :: args)).run b).2 _) = _
  rw [hnode]
  rfl

/-- Taking a text in builds no node. -/
theorem grows_intern (text : String) {b : Builder} (h : b.Sound) : b.Grows ((intern text).run b).2 [] [] :=
  .of_covers_nil (.nil h rfl (b.ast.strings.strings_prefix_insert text) List.prefix_rfl rfl) rfl

theorem string_intern (text : String) (b : Builder) :
    ((intern text).run b).2.ast.string ((intern text).run b).1 = .ok text :=
  StringPool.fetch_eq_ok_iff.2 (b.ast.strings.get?_insert_self text)

/-! ## Actions that make a tree -/

/-- Wherever it is run, `act` makes the nodes of `tree` and hands out the last of them. -/
def Makes (act : Build Node) (tree : Tree) : Prop :=
  ∀ b : Builder, b.Sound → b.Grows (act.run b).2 [(act.run b).1] [tree]

def MakesAll (act : Build (List Node)) (trees : List Tree) : Prop :=
  ∀ b : Builder, b.Sound → b.Grows (act.run b).2 (act.run b).1 trees

theorem makes_operator (op : Operator) : (operator op).Makes (.operator op) := by
  intro b h
  rw [run_operator]
  exact (Builder.Grows.of_covers_nil (.refl h) rfl).store rfl (.operator (b.data_store _))

theorem makes_constant {value : Constant} {literal : Literal} (h : ∀ ast : Ast, ast.literal value = .ok literal) :
    (constant value).Makes (.literal literal) := by
  intro b hsound
  rw [run_constant]
  exact (Builder.Grows.of_covers_nil (.refl hsound) rfl).store rfl (.constant (b.data_store _) (h _))

theorem makes_string (text : String) : (string text).Makes (.string text) := by
  intro b h
  rw [string, run_bind, run_constant]
  refine (grows_intern text h).store rfl (.constant (Builder.data_store _ _) ?_)
  rw [Ast.literal, Ast.string, Builder.strings_store]
  exact Outcome.map_eq_ok_iff.2 ⟨text, string_intern text b, rfl⟩

/-- A node whose children are made right before it. -/
theorem grows_interior {b b' : Builder} {children : List Node} {trees : List Tree} (h : b.Grows b' children trees)
    {kind : NodeKind} (hleaf : kind.isLeaf = false) (hkind : kind ≠ .block) :
    b.Grows ((interior kind children).run b').2 [((interior kind children).run b').1] [.node kind trees] := by
  rw [run_interior hleaf]
  exact h.interior hkind

theorem makes_named {kind : NodeKind} (hleaf : kind.isLeaf = false) (hkind : kind ≠ .block) (name : String) :
    (string name >>= fun child => interior kind [child]).Makes (.named kind name) := by
  intro b h
  rw [run_bind]
  exact grows_interior (makes_string name b h) hleaf hkind

theorem makes_var (name : String) : (var name).Makes (.named .var name) :=
  makes_named rfl NodeKind.noConfusion name

theorem makes_goto (label : String) : (goto label).Makes (.named .goto label) :=
  makes_named rfl NodeKind.noConfusion label

theorem makes_label (name : String) : (label name).Makes (.named .label name) :=
  makes_named rfl NodeKind.noConfusion name

theorem makesAll_mapM {f : α → Build Node} {tree : α → Tree} (h : ∀ item, (f item).Makes (tree item))
    (items : List α) : (items.mapM f).MakesAll (items.map tree) := by
  induction items with
  | nil =>
    intro b hsound
    exact .of_covers_nil (.refl hsound) rfl
  | cons item items ih =>
    intro b hsound
    rw [List.mapM_cons, run_bind, run_bind]
    have hhead := h item b hsound
    exact hhead.append (ih _ hhead.sound)

/-! ## Nodes over operands -/

section Operands

variable {b b' : Builder} {operands : List Node} {trees : List Tree}

theorem grows_primitive (h : b.Grows b' operands trees) (name : String) :
    b.Grows ((primitive name operands).run b').2 [((primitive name operands).run b').1]
      [.node .primitive (.string name :: trees)] := by
  rw [primitive, run_bind]
  exact grows_interior (h.append (makes_string name b' h.sound)).front rfl NodeKind.noConfusion

theorem grows_binary {lhs rhs : Node} {left right : Tree} (h : b.Grows b' [lhs, rhs] [left, right]) (op : Operator) :
    b.Grows ((binary op lhs rhs).run b').2 [((binary op lhs rhs).run b').1]
      [.node .binaryExpr [.operator op, left, right]] := by
  rw [binary, run_bind]
  exact grows_interior (h.append (makes_operator op b' h.sound)).front rfl NodeKind.noConfusion

theorem grows_unary {operand : Node} {tree : Tree} (h : b.Grows b' [operand] [tree]) (op : Operator) :
    b.Grows ((unary op operand).run b').2 [((unary op operand).run b').1]
      [.node .unaryExpr [.operator op, tree]] := by
  rw [unary, run_bind]
  exact grows_interior (h.append (makes_operator op b' h.sound)).front rfl NodeKind.noConfusion

theorem grows_call {target : Node} {args : List Node} (h : b.Grows b' (target :: args) trees) :
    b.Grows ((call target args).run b').2 [((call target args).run b').1] [.node .call trees] := by
  have hleaf : NodeKind.call.isLeaf = false := rfl
  have hcall := grows_interior h hleaf NodeKind.noConfusion
  -- the call is listed, which changes no node
  have hlisted : Builder.Grows ((interior .call (target :: args)).run b').2 ((call target args).run b').2 [] [] :=
    .of_covers_nil (.nil hcall.sound rfl List.prefix_rfl (List.prefix_append _ _) rfl) rfl
  have happend := hcall.append hlisted
  rwa [List.append_nil, List.append_nil] at happend

theorem grows_ifGoto {condition : Node} {tree : Tree} (h : b.Grows b' [condition] [tree]) (label : String) :
    b.Grows ((ifGoto condition label).run b').2 [((ifGoto condition label).run b').1]
      [.node .ifGoto [tree, .string label]] := by
  rw [ifGoto, run_bind]
  exact grows_interior (h.append (makes_string label b' h.sound)) rfl NodeKind.noConfusion

end Operands

end Build

end FunctionTrees
