import FunctionTrees.Proofs.Ast.Unfolding
import FunctionTrees.Tree.Printer

/-!
# Trees whose references resolve

* `Ast.Knows ast symbol` : the symbol stands for a string of the tree;
* `Ast.Resolved ast` : what the nodes and the calls of a tree refer to is in the tree;
* `Resolved.exists_unfoldTo` : a node of such a tree unfolds, in as many levels as there are nodes before it;
* `Readable ast positions node`, `Resolved.readable` : whatever is asked of a node of such a tree has an answer;
* `knows_of_unfoldTo` : conversely, the strings under a node that unfolds are in the tree.
-/

set_option autoImplicit false

namespace FunctionTrees.Ast

open Outcome

variable {ast : Ast}

/-! ## References -/

/-- The symbol stands for a string of the tree. -/
def Knows (ast : Ast) (symbol : Symbol) : Prop := ∃ text, ast.string symbol = .ok text

theorem knows_iff {symbol : Symbol} : ast.Knows symbol ↔ (ast.string? symbol).isSome := by
  rw [Option.isSome_iff_exists]
  exact exists_congr fun _ => StringPool.fetch_eq_ok_iff

/-- What the nodes and the calls of a tree refer to is in the tree. -/
structure Resolved (ast : Ast) : Prop where
  children : ∀ node children, ast.children node = .ok children → ∀ child ∈ children, ast.contains child = true
  /-- There is no way in a circle. -/
  falling : ∀ node children, ast.children node = .ok children → ∀ child ∈ children, child.index < node.index
  constants : ∀ node symbol, ast.constant? node = .ok (some (.str symbol)) → ast.Knows symbol
  sites : ∀ site ∈ ast.callSites, ast.contains site.call = true ∧ ast.contains site.target = true ∧
    ∀ symbol ∈ site.callee, ast.Knows symbol

theorem constant?_eq_some_iff {node : Node} {value : Constant} :
    ast.constant? node = .ok (some value) ↔ ast.data node = .ok (.constant value) := by
  unfold constant?
  rw [map_eq_ok_iff]
  constructor
  · rintro ⟨data, hdata, hvalue⟩
    cases data <;> cases hvalue
    exact hdata
  · exact fun hdata => ⟨_, hdata, rfl⟩

/-! ## Unfolding -/

section Unfolding

variable {positionOf : Node → Option Position}

theorem exists_literal {value : Constant} (h : ∀ symbol, value = .str symbol → ast.Knows symbol) :
    ∃ literal, ast.literal value = .ok literal := by
  cases value with
  | str symbol =>
    obtain ⟨text, htext⟩ := h symbol rfl
    exact ⟨.str text, map_eq_ok_iff.2 ⟨text, htext, rfl⟩⟩
  | _ => exact ⟨_, rfl⟩

theorem exists_note {position : Option Position} (h : ∀ known, position = some known → ast.Knows known.file)
    (tree : Tree) :
    ∃ noted, ast.note position tree = .ok noted := by
  cases position with
  | none => exact ⟨tree, rfl⟩
  | some position =>
    obtain ⟨file, hfile⟩ := h position rfl
    exact ⟨_, map_eq_ok_iff.2 ⟨_, map_eq_ok_iff.2 ⟨file, hfile, rfl⟩, rfl⟩⟩

/-- A node unfolds in one level more than its children do. -/
theorem Resolved.exists_unfoldTo_succ (h : ast.Resolved)
    (hpositions : ∀ node position, positionOf node = some position → ast.Knows position.file)
    {node : Node} (hnode : ast.contains node = true) {depth : Nat}
    (hchildren : ∀ children, ast.children node = .ok children → ∀ child ∈ children,
      ∃ tree, ast.unfoldTo positionOf depth child = .ok tree) :
    ∃ tree, ast.unfoldTo positionOf (depth + 1) node = .ok tree := by
  obtain ⟨data, hdata⟩ := exists_data (contains_iff.1 hnode)
  replace hchildren := hchildren data.children (children_eq_ok_iff.2 ⟨data, hdata, rfl⟩)
  cases data with
  | operator op => exact ⟨_, unfoldTo_operator hdata⟩
  | constant value =>
    obtain ⟨literal, hliteral⟩ := exists_literal fun symbol (hvalue : value = .str symbol) =>
      h.constants node symbol (constant?_eq_some_iff.2 (hvalue ▸ hdata))
    exact ⟨_, by rw [unfoldTo_constant hdata, hliteral, ok_bind]⟩
  | empty => exact ⟨_, unfoldTo_empty hdata⟩
  | interior kind children =>
    by_cases hkind : kind = .block
    · subst hkind
      have hnoted : ∀ child ∈ children, ∃ noted,
          ast.unfoldTo positionOf depth child >>= ast.note (positionOf child) = .ok noted := by
        intro child hmem
        obtain ⟨tree, htree⟩ := hchildren child hmem
        obtain ⟨noted, hnoted⟩ := exists_note (hpositions child) tree
        exact ⟨noted, by rw [htree, ok_bind, hnoted]⟩
      obtain ⟨trees, htrees⟩ := exists_mapM hnoted
      exact ⟨_, by rw [unfoldTo_block hdata, htrees, ok_bind]⟩
    · obtain ⟨trees, htrees⟩ : ∃ trees, children.mapM (ast.unfoldTo positionOf depth) = .ok trees :=
        exists_mapM hchildren
      exact ⟨_, by rw [unfoldTo_interior hdata hkind, htrees, ok_bind]⟩

/-- A node unfolds, in as many levels as there are nodes up to it. -/
theorem Resolved.exists_unfoldTo (h : ast.Resolved)
    (hpositions : ∀ node position, positionOf node = some position → ast.Knows position.file)
    {node : Node} (hnode : ast.contains node = true) :
    ∃ tree, ∀ depth, node.index < depth → ast.unfoldTo positionOf depth node = .ok tree := by
  suffices hone : ∀ bound node, ast.contains node = true → node.index < bound →
      ∃ tree, ast.unfoldTo positionOf bound node = .ok tree by
    obtain ⟨tree, htree⟩ := hone (node.index + 1) node hnode (Nat.lt_succ_self _)
    exact ⟨tree, fun depth hlt => unfoldTo_mono (.refl ast) hlt htree⟩
  intro bound
  induction bound with
  | zero => exact fun node _ hlt => absurd hlt (Nat.not_lt_zero _)
  | succ bound ih =>
    -- children come before their parents, so they are within the smaller bound
    intro node hnode hlt
    refine h.exists_unfoldTo_succ hpositions hnode fun children hchildren child hmem => ?_
    have hfalling := h.falling node children hchildren child hmem
    exact ih child (h.children node children hchildren child hmem) (by omega)

end Unfolding

/-! ## Reading -/

/-- Whatever is asked of the node has an answer. -/
structure Readable (ast : Ast) (positions : PositionTable) (node : Node) : Prop where
  kind : ∃ kind, ast.kind node = .ok kind
  children : ∃ children, ast.children node = .ok children
  exprOperator? : ∃ op, ast.exprOperator? node = .ok op
  name? : ∃ name, ast.name? node = .ok name
  /-- The node unfolds to a tree, in as many levels as there are nodes up to it. -/
  text : ∃ tree, (∀ depth, node.index < depth → ast.unfoldTo positions.get? depth node = .ok tree) ∧
    ast.textOf (some positions) node = .ok tree.text

namespace Resolved

theorem exists_child? (h : ast.Resolved) {node : Node} (hnode : ast.contains node = true) (i : Nat) :
    ∃ child, ast.child? node i = .ok child ∧ ∀ first ∈ child, ast.contains first = true := by
  obtain ⟨data, hdata⟩ := exists_data (contains_iff.1 hnode)
  have hchildren : ast.children node = .ok data.children := children_eq_ok_iff.2 ⟨data, hdata, rfl⟩
  refine ⟨data.children[i]?, map_eq_ok_iff.2 ⟨_, hchildren, rfl⟩, fun first hfirst => ?_⟩
  exact h.children node _ hchildren first (List.mem_of_getElem? hfirst)

theorem exists_exprOperator? (h : ast.Resolved) {node : Node} (hnode : ast.contains node = true) :
    ∃ op, ast.exprOperator? node = .ok op := by
  obtain ⟨data, hdata⟩ := exists_data (contains_iff.1 hnode)
  have hkind : ast.kind node = .ok data.kind := kind_eq_ok_iff.2 ⟨data, hdata, rfl⟩
  obtain ⟨child, hchild, hcontains⟩ := h.exists_child? hnode 0
  unfold exprOperator?
  rw [hkind, ok_bind, hchild]
  cases child with
  | none => split <;> exact ⟨none, rfl⟩
  | some first =>
    obtain ⟨found, hfound⟩ := exists_data (contains_iff.1 (hcontains first rfl))
    have hop : ast.operator? first = .ok found.operator? := map_eq_ok_iff.2 ⟨found, hfound, rfl⟩
    split
    · exact ⟨_, hop⟩
    · exact ⟨_, hop⟩
    · exact ⟨none, rfl⟩

theorem exists_nameSymbol? (h : ast.Resolved) {node : Node} (hnode : ast.contains node = true) :
    ∃ symbol, ast.nameSymbol? node = .ok symbol ∧ ∀ name ∈ symbol, ast.Knows name := by
  obtain ⟨child, hchild, hcontains⟩ := h.exists_child? hnode 0
  unfold nameSymbol?
  rw [hchild, ok_bind]
  cases child with
  | none => exact ⟨none, rfl, fun _ hname => nomatch hname⟩
  | some first =>
    obtain ⟨data, hdata⟩ := exists_data (contains_iff.1 (hcontains first rfl))
    have hconstant : ast.constant? first = .ok data.constant? := map_eq_ok_iff.2 ⟨data, hdata, rfl⟩
    refine ⟨data.constant?.bind Constant.str?, bind_eq_ok_iff.2 ⟨_, hconstant, rfl⟩, fun name hname => ?_⟩
    obtain ⟨value, hvalue, hstr⟩ := Option.bind_eq_some_iff.1 hname
    cases value <;> cases hstr
    exact h.constants first name (hvalue ▸ hconstant)

theorem exists_name? (h : ast.Resolved) {node : Node} (hnode : ast.contains node = true) :
    ∃ name, ast.name? node = .ok name := by
  obtain ⟨symbol, hsymbol, hknows⟩ := h.exists_nameSymbol? hnode
  unfold name?
  rw [hsymbol, ok_bind]
  cases symbol with
  | none => exact ⟨none, rfl⟩
  | some symbol =>
    obtain ⟨text, htext⟩ := hknows symbol rfl
    exact ⟨some text, bind_eq_ok_iff.2 ⟨text, htext, rfl⟩⟩

theorem readable (h : ast.Resolved) {positions : PositionTable}
    (hpositions : ∀ node position, positions.get? node = some position → ast.Knows position.file) {node : Node}
    (hnode : ast.contains node = true) : ast.Readable positions node := by
  obtain ⟨data, hdata⟩ := exists_data (contains_iff.1 hnode)
  refine ⟨⟨_, kind_eq_ok_iff.2 ⟨data, hdata, rfl⟩⟩, ⟨_, children_eq_ok_iff.2 ⟨data, hdata, rfl⟩⟩,
    h.exists_exprOperator? hnode, h.exists_name? hnode, ?_⟩
  obtain ⟨tree, htree⟩ := h.exists_unfoldTo hpositions hnode
  have hlt : node.index < ast.size + 1 := Nat.lt_succ_of_lt (contains_iff.1 hnode)
  exact ⟨tree, htree, map_eq_ok_iff.2 ⟨tree, htree _ hlt, rfl⟩⟩

end Resolved

/-! ## What has been unfolded -/

/-- The strings under a node that unfolds are in the tree. -/
theorem knows_of_unfoldTo {positionOf : Node → Option Position} {top node : Node} {depth : Nat} {tree : Tree}
    (htree : ast.unfoldTo positionOf depth top = .ok tree) (hbelow : ast.Below top node) {symbol : Symbol}
    (hdata : ast.data node = .ok (.constant (.str symbol))) : ast.Knows symbol := by
  induction hbelow generalizing depth tree with
  | self top =>
    cases depth with
    | zero => cases htree
    | succ depth =>
      rw [unfoldTo_constant hdata] at htree
      obtain ⟨literal, hliteral, -⟩ := bind_eq_ok_iff.1 htree
      obtain ⟨text, htext, -⟩ := map_eq_ok_iff.1 hliteral
      exact ⟨text, htext⟩
  | @under top child node children hchildren hmem hbelow ih =>
    obtain ⟨data, htop, rfl⟩ := children_eq_ok_iff.1 hchildren
    cases depth with
    | zero => cases htree
    | succ depth =>
      cases data with
      | interior kind children =>
        by_cases hkind : kind = .block
        · subst hkind
          rw [unfoldTo_block htop] at htree
          obtain ⟨trees, htrees, -⟩ := bind_eq_ok_iff.1 htree
          obtain ⟨noted, -, hchild⟩ := exists_mem_of_forall₂ (mapM_eq_ok_iff.1 htrees) hmem
          obtain ⟨under, hunder, -⟩ := bind_eq_ok_iff.1 hchild
          exact ih hunder hdata
        · rw [unfoldTo_interior htop hkind] at htree
          obtain ⟨trees, htrees, -⟩ := bind_eq_ok_iff.1 htree
          obtain ⟨under, -, hunder⟩ := exists_mem_of_forall₂ (mapM_eq_ok_iff.1 htrees) hmem
          exact ih hunder hdata
      | _ => cases hmem

end FunctionTrees.Ast
