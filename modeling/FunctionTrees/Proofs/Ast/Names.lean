import FunctionTrees.Proofs.Ast.Parts

/-!
# Names in a tree

* `Ast.Reaches top path node` : going down from `top`, each time to the child with the next index, leads to `node`;
  `Below.exists_reaches`;
* `Tree.at? path` : the subtree that the same way down leads to; `Stands.exists_at` : the nodes on the way
  stand for the subtrees;
* `Tree.Each P` : `P` holds of all subtrees; `each_node_iff`;
* `Tree.kind?`, `Tree.title?` : the kind of a tree, and the text that comes first in it;
* `Stands.kind_eq`, `Stands.name?_eq` : a node has the kind and the name of the tree that it stands for.
-/

set_option autoImplicit false

namespace FunctionTrees

/-! ## Trees -/

namespace Tree

/-- The subtree that is found by going down, each time to the child with the next index. -/
def at? : Tree → List Nat → Option Tree
  | tree, [] => some tree
  | .node _ children, index :: path => children[index]?.bind fun child => child.at? path
  | _, _ :: _ => none

/-- The kind of the nodes that stand for the tree. -/
def kind? : Tree → Option NodeKind
  | operator _ => some .operator
  | literal _ => some .constant
  | empty => some .empty
  | node kind _ => some kind
  | noted _ _ => none

def text? : Tree → Option String
  | literal (.str text) => some text
  | _ => none

/-- The text that comes first in the tree, if its first child is a string constant. -/
def title? : Tree → Option String
  | node _ (first :: _) => first.text?
  | _ => none

/-- `P` holds of the tree and of all that stands in it. -/
def Each (P : Tree → Prop) (tree : Tree) : Prop := ∀ part : Tree, part.Part tree → P part

variable {P : Tree → Prop}

@[simp] theorem each_operator_iff (op : Operator) : (operator op).Each P ↔ P (operator op) := by
  constructor
  · exact fun h => h _ .self
  · rintro h part ⟨⟩
    exact h

@[simp] theorem each_literal_iff (value : Literal) : (literal value).Each P ↔ P (literal value) := by
  constructor
  · exact fun h => h _ .self
  · rintro h part ⟨⟩
    exact h

@[simp] theorem each_node_iff (kind : NodeKind) (children : List Tree) :
    (node kind children).Each P ↔ P (node kind children) ∧ ∀ child ∈ children, child.Each P := by
  constructor
  · exact fun h => ⟨h _ .self, fun child hmem part hpart => h part (.under hmem hpart)⟩
  · rintro ⟨hnode, hchildren⟩ part hpart
    cases hpart with
    | self => exact hnode
    | under hmem hpart => exact hchildren _ hmem part hpart

end Tree

/-! ## Ways down -/

namespace Ast

open Outcome

variable {ast : Ast}

inductive Reaches (ast : Ast) : Node → List Nat → Node → Prop
  | here (top : Node) : Reaches ast top [] top
  | down {top child node : Node} {children : List Node} {index : Nat} {path : List Nat}
      (hchildren : ast.children top = .ok children) (hchild : children[index]? = some child)
      (hreaches : Reaches ast child path node) : Reaches ast top (index :: path) node

theorem Below.exists_reaches {top node : Node} (h : ast.Below top node) : ∃ path, ast.Reaches top path node := by
  induction h with
  | self top => exact ⟨[], .here top⟩
  | under hchildren hmem _ ih =>
    obtain ⟨index, hchild⟩ := List.mem_iff_getElem?.1 hmem
    obtain ⟨path, hreaches⟩ := ih
    exact ⟨index :: path, .down hchildren hchild hreaches⟩

/-- The nodes on the way down from a node stand for the subtrees on the way down its tree. -/
theorem Stands.exists_at (hclosed : ast.Closed) {top node : Node} {path : List Nat} {tree : Tree}
    (h : ast.Stands top tree) (hreaches : ast.Reaches top path node) :
    ∃ part, tree.at? path = some part ∧ ast.Stands node part := by
  induction hreaches generalizing tree with
  | here top => exact ⟨tree, by rw [Tree.at?], h⟩
  | @down top child node children index path hchildren hchild _ ih =>
    obtain ⟨data, hdata, rfl⟩ := children_eq_ok_iff.1 hchildren
    cases data with
    | interior kind children =>
      obtain ⟨trees, rfl, hstands⟩ := h.eq_node hclosed hdata
      obtain ⟨subtree, hsubtree, hstands⟩ := exists_of_forall₂ hstands hchild
      obtain ⟨part, hpart, hnode⟩ := ih hstands
      exact ⟨part, by rw [Tree.at?, hsubtree, Option.bind_some, hpart], hnode⟩
    | _ => cases hchild

/-! ## Kinds and names -/

theorem Stands.kind_eq (hclosed : ast.Closed) {node : Node} {tree : Tree} (h : ast.Stands node tree) :
    ∃ kind, tree.kind? = some kind ∧ ast.kind node = .ok kind := by
  obtain ⟨data, hdata, hpictured⟩ := h.exists_pictured hclosed
  refine ⟨data.kind, ?_, kind_eq_ok_iff.2 ⟨data, hdata, rfl⟩⟩
  cases hpictured <;> rfl

theorem nameSymbol?_of_child {node first : Node} {kind : NodeKind} {rest : List Node} {data : NodeData}
    (hdata : ast.data node = .ok (.interior kind (first :: rest))) (hfirst : ast.data first = .ok data) :
    ast.nameSymbol? node = .ok (data.constant?.bind Constant.str?) := by
  simp [nameSymbol?, child?, children, constant?, hdata, hfirst, Except.map, NodeData.children]

theorem nameSymbol?_of_no_child {node : Node} {data : NodeData} (hdata : ast.data node = .ok data)
    (hchildren : data.children = []) : ast.nameSymbol? node = .ok none := by
  simp [nameSymbol?, child?, children, hdata, Except.map, hchildren]

theorem name?_of_symbol {node : Node} {symbol : Option Symbol} {title : Option String}
    (hsymbol : ast.nameSymbol? node = .ok symbol)
    (htitle : Option.Rel (fun symbol text => ast.string? symbol = some text) symbol title) :
    ast.name? node = .ok title := by
  cases htitle with
  | none => simp [name?, hsymbol]
  | some htext => simp [name?, hsymbol, StringPool.fetch_eq_ok_iff.2 htext]

/-- The string constant that a node is, is the text that its tree is. -/
theorem Pictured.text {data : NodeData} {tree : Tree} (h : ast.Pictured data tree) :
    Option.Rel (fun symbol text => ast.string? symbol = some text) (data.constant?.bind Constant.str?) tree.text? := by
  cases h with
  | @constant value literal hliteral =>
    cases value with
    | str symbol =>
      obtain ⟨text, htext, rfl⟩ := map_eq_ok_iff.1 hliteral
      exact .some (StringPool.fetch_eq_ok_iff.1 htext)
    | _ =>
      cases hliteral
      exact .none
  | _ => exact .none

/-- A node is called what comes first in its tree. -/
theorem Stands.name?_eq (hclosed : ast.Closed) {node : Node} {tree : Tree} (h : ast.Stands node tree) :
    ast.name? node = .ok tree.title? := by
  obtain ⟨data, hdata, hpictured⟩ := h.exists_pictured hclosed
  cases hpictured with
  | interior hstands =>
    cases hstands with
    | nil => exact name?_of_symbol (nameSymbol?_of_no_child hdata rfl) .none
    | cons hfirst _ =>
      obtain ⟨first, hdata', hpictured⟩ := hfirst.exists_pictured hclosed
      exact name?_of_symbol (nameSymbol?_of_child hdata hdata') hpictured.text
  | _ => exact name?_of_symbol (nameSymbol?_of_no_child hdata rfl) .none

end Ast

end FunctionTrees
