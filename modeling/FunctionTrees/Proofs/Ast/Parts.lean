import FunctionTrees.Proofs.Ast.Actions

/-!
# The trees in a tree

* `Tree.Part part tree` : `part` is `tree` or stands somewhere in it;
* `Tree.Lacks kind tree` : no part of the tree is a node of the kind; `lacks_node_iff`;
* `unfoldTo_shallow` : a look as deep as the key of a node sees all that is under it;
* `Stands.eq_node`, `Stands.exists_nodes`, `Stands.exists_pair` : an inner node that stands for a tree has children
  that stand for the subtrees; `Pictured`, `Stands.exists_pictured` : what is stored for any node that stands for one;
* `Stands.exists_part` : each node under a node stands for a part of its tree;
* `Stands.kind_ne`, `Stands.eq_top` : where to look for the nodes of a kind;
* `Stands.exists_symbol` : what stands for a text is a string constant.
-/

set_option autoImplicit false

namespace FunctionTrees

/-- `part` is the tree or stands somewhere in it. -/
inductive Tree.Part (part : Tree) : Tree → Prop
  | self : Part part part
  | under {kind : NodeKind} {child : Tree} {children : List Tree} (hmem : child ∈ children) (h : Part part child) :
    Part part (.node kind children)

/-! ## Kinds in a tree -/

namespace Tree

def Lacks (kind : NodeKind) (tree : Tree) : Prop := ∀ trees, ¬ (Tree.node kind trees).Part tree

variable {kind : NodeKind}

@[simp] theorem lacks_operator (op : Operator) : (Tree.operator op).Lacks kind := by
  rintro trees ⟨⟩

@[simp] theorem lacks_literal (value : Literal) : (Tree.literal value).Lacks kind := by
  rintro trees ⟨⟩

@[simp] theorem lacks_node_iff {other : NodeKind} {children : List Tree} :
    (Tree.node other children).Lacks kind ↔ other ≠ kind ∧ ∀ child ∈ children, child.Lacks kind := by
  constructor
  · intro h
    refine ⟨?_, fun child hmem trees hpart => h trees (.under hmem hpart)⟩
    rintro rfl
    exact h children .self
  · rintro ⟨hkind, hchildren⟩ trees hpart
    cases hpart with
    | self => exact hkind rfl
    | under hmem hpart => exact hchildren _ hmem trees hpart

@[simp] theorem lacks_string (text : String) : (Tree.string text).Lacks kind := lacks_literal _

@[simp] theorem lacks_named_iff {other : NodeKind} {text : String} :
    (Tree.named other text).Lacks kind ↔ other ≠ kind := by
  simp [Tree.named]

end Tree

namespace Ast

open Outcome

variable {ast : Ast}

/-! ## Depth -/

/-- A look as deep as the key of a node sees all that is under it. -/
theorem unfoldTo_shallow (hclosed : ast.Closed) {positionOf : Node → Option Position} {depth : Nat} {node : Node}
    {tree : Tree} (hlt : node.index < depth) (h : ast.unfoldTo positionOf depth node = .ok tree) :
    ast.unfoldTo positionOf (node.index + 1) node = .ok tree := by
  induction depth generalizing node tree with
  | zero => exact absurd hlt (Nat.not_lt_zero _)
  | succ depth ih =>
    obtain ⟨data, hdata, -⟩ := bind_eq_ok_iff.1 (unfoldTo.eq_2 .. ▸ h)
    -- what is seen of a child at this depth is seen at the key of its parent
    have hchild : ∀ child ∈ data.children, ∀ tree, ast.unfoldTo positionOf depth child = .ok tree →
        ast.unfoldTo positionOf node.index child = .ok tree := by
      intro child hmem tree htree
      have hbefore := hclosed node data hdata child hmem
      exact unfoldTo_mono (.refl ast) hbefore (ih (by omega) htree)
    cases data with
    | operator op =>
      rw [unfoldTo_operator hdata] at h ⊢
      exact h
    | constant value =>
      rw [unfoldTo_constant hdata] at h ⊢
      exact h
    | empty =>
      rw [unfoldTo_empty hdata] at h ⊢
      exact h
    | interior kind children =>
      by_cases hkind : kind = .block
      · subst hkind
        rw [unfoldTo_block hdata] at h ⊢
        obtain ⟨trees, htrees, hnode⟩ := bind_eq_ok_iff.1 h
        rw [mapM_congr_ok (fun child hmem noted hnoted => ?_) htrees, ok_bind, hnode]
        obtain ⟨tree, htree, hnote⟩ := bind_eq_ok_iff.1 hnoted
        rw [hchild child hmem tree htree, ok_bind, hnote]
      · rw [unfoldTo_interior hdata hkind] at h ⊢
        obtain ⟨trees, htrees, hnode⟩ := bind_eq_ok_iff.1 h
        have hagain : children.mapM (ast.unfoldTo positionOf node.index) = .ok trees := mapM_congr_ok hchild htrees
        rw [hagain, ok_bind, hnode]

/-! ## Subtrees -/

/-- A block with statements stands for no one tree, since the statements may be noted with positions. -/
theorem Stands.eq_nil_of_block {node : Node} {tree : Tree} (h : ast.Stands node tree) {statements : List Node}
    (hdata : ast.data node = .ok (.interior .block statements)) : statements = [] := by
  cases statements with
  | nil => rfl
  | cons statement rest =>
    -- a position in a file that the tree does not know
    let astray : Position := ⟨⟨ast.strings.size⟩, ⟨1, 1, 1, 1, by decide, by decide⟩⟩
    have hastray := h fun _ => some astray
    rw [unfoldTo_block hdata] at hastray
    obtain ⟨trees, htrees, -⟩ := bind_eq_ok_iff.1 hastray
    obtain ⟨noted, -, hnoted, -, -⟩ := List.forall₂_cons_left_iff.1 (mapM_eq_ok_iff.1 htrees)
    obtain ⟨plain, -, hnote⟩ := bind_eq_ok_iff.1 hnoted
    obtain ⟨span, hspan, -⟩ := map_eq_ok_iff.1 hnote
    obtain ⟨file, hfile, -⟩ := map_eq_ok_iff.1 hspan
    have hlt := (List.getElem?_eq_some_iff.1 (StringPool.fetch_eq_ok_iff.1 hfile)).1
    exact absurd hlt (Nat.lt_irrefl _)

/-- An inner node that stands for a tree has children that stand for the subtrees. -/
theorem Stands.eq_node {node : Node} {tree : Tree} (h : ast.Stands node tree) (hclosed : ast.Closed) {kind : NodeKind}
    {children : List Node} (hdata : ast.data node = .ok (.interior kind children)) :
    ∃ trees, tree = .node kind trees ∧ List.Forall₂ ast.Stands children trees := by
  by_cases hkind : kind = .block
  · subst hkind
    obtain rfl := h.eq_nil_of_block hdata
    have hunfold := h fun _ => none
    rw [unfoldTo_block hdata] at hunfold
    cases hunfold
    exact ⟨[], rfl, .nil⟩
  · have hunfold (positionOf : Node → Option Position) :
        ∃ trees, children.mapM (ast.unfoldTo positionOf node.index) = .ok trees ∧ tree = .node kind trees := by
      have hnode := h positionOf
      rw [unfoldTo_interior hdata hkind] at hnode
      obtain ⟨trees, htrees, ⟨⟩⟩ := bind_eq_ok_iff.1 hnode
      exact ⟨trees, htrees, rfl⟩
    obtain ⟨trees, htrees, rfl⟩ := hunfold fun _ => none
    refine ⟨trees, rfl, ?_⟩
    have hlength := (mapM_eq_ok_iff.1 htrees).length_eq
    rw [List.forall₂_iff_get]
    refine ⟨hlength, fun index hlt hlt' positionOf => ?_⟩
    obtain ⟨others, hothers, hsame⟩ := hunfold positionOf
    cases hsame
    have hchild := (mapM_eq_ok_iff.1 hothers).get hlt hlt'
    have hbefore := hclosed node _ hdata _ (List.get_mem children ⟨index, hlt⟩)
    exact unfoldTo_shallow hclosed hbefore hchild

/-- What is stored for a node that stands for the tree. -/
inductive Pictured (ast : Ast) : NodeData → Tree → Prop
  | operator (op : Operator) : Pictured ast (.operator op) (.operator op)
  | constant {value : Constant} {literal : Literal} (hliteral : ast.literal value = .ok literal) :
    Pictured ast (.constant value) (.literal literal)
  | empty : Pictured ast .empty .empty
  | interior {kind : NodeKind} {children : List Node} {trees : List Tree}
      (hstands : List.Forall₂ ast.Stands children trees) : Pictured ast (.interior kind children) (.node kind trees)

theorem Stands.exists_pictured (hclosed : ast.Closed) {node : Node} {tree : Tree} (h : ast.Stands node tree) :
    ∃ data, ast.data node = .ok data ∧ ast.Pictured data tree := by
  have hunfold := h fun _ => none
  obtain ⟨data, hdata, -⟩ := bind_eq_ok_iff.1 (unfoldTo.eq_2 .. ▸ hunfold)
  refine ⟨data, hdata, ?_⟩
  cases data with
  | operator op =>
    rw [unfoldTo_operator hdata] at hunfold
    cases hunfold
    exact .operator op
  | constant value =>
    rw [unfoldTo_constant hdata] at hunfold
    obtain ⟨literal, hliteral, hsame⟩ := bind_eq_ok_iff.1 hunfold
    cases hsame
    exact .constant hliteral
  | empty =>
    rw [unfoldTo_empty hdata] at hunfold
    cases hunfold
    exact .empty
  | interior kind children =>
    obtain ⟨trees, rfl, hstands⟩ := h.eq_node hclosed hdata
    exact .interior hstands

/-- What stands for an inner node is one, over nodes that stand for its children. -/
theorem Stands.exists_nodes (hclosed : ast.Closed) {node : Node} {kind : NodeKind} {trees : List Tree}
    (h : ast.Stands node (.node kind trees)) :
    ∃ children, ast.data node = .ok (.interior kind children) ∧ List.Forall₂ ast.Stands children trees := by
  obtain ⟨children, hdata⟩ := h.exists_children
  obtain ⟨_, ⟨⟩, hstands⟩ := h.eq_node hclosed hdata
  exact ⟨children, hdata, hstands⟩

theorem Stands.exists_pair (hclosed : ast.Closed) {node : Node} {kind : NodeKind} {left right : Tree}
    (h : ast.Stands node (.node kind [left, right])) : ∃ first second,
      ast.data node = .ok (.interior kind [first, second]) ∧ ast.Stands first left ∧ ast.Stands second right := by
  obtain ⟨children, hdata, hstands⟩ := h.exists_nodes hclosed
  obtain ⟨first, rest, hfirst, hrest, rfl⟩ := List.forall₂_cons_right_iff.1 hstands
  obtain ⟨second, rest, hsecond, ⟨⟩, rfl⟩ := List.forall₂_cons_right_iff.1 hrest
  exact ⟨first, second, hdata, hfirst, hsecond⟩

/-- Each node under a node stands for a part of its tree. -/
theorem Stands.exists_part (hclosed : ast.Closed) {top node : Node} {tree : Tree} (h : ast.Stands top tree)
    (hbelow : ast.Below top node) : ∃ part, part.Part tree ∧ ast.Stands node part := by
  induction hbelow generalizing tree with
  | self => exact ⟨tree, .self, h⟩
  | under hchildren hmem _ ih =>
    obtain ⟨data, hdata, rfl⟩ := children_eq_ok_iff.1 hchildren
    cases data with
    | interior kind children =>
      obtain ⟨trees, rfl, hstands⟩ := h.eq_node hclosed hdata
      obtain ⟨subtree, hsubtree, hchild⟩ := exists_mem_of_forall₂ hstands hmem
      obtain ⟨part, hpart, hnode⟩ := ih hchild
      exact ⟨part, .under hsubtree hpart, hnode⟩
    | _ => cases hmem

/-- A node that has a kind of inner nodes is an inner node. -/
theorem exists_children_of_kind {node : Node} {kind : NodeKind} (hleaf : kind.isLeaf = false)
    (h : ast.kind node = .ok kind) : ∃ children, ast.data node = .ok (.interior kind children) := by
  obtain ⟨data, hdata, rfl⟩ := kind_eq_ok_iff.1 h
  cases data with
  | interior kind children => exact ⟨children, hdata⟩
  | _ => cases hleaf

/-- Under what stands for a tree without nodes of the kind, there is none. -/
theorem Stands.kind_ne (hclosed : ast.Closed) {top node : Node} {tree : Tree} (h : ast.Stands top tree)
    {kind : NodeKind} (hleaf : kind.isLeaf = false) (hlacks : tree.Lacks kind) (hbelow : ast.Below top node) :
    ast.kind node ≠ .ok kind := by
  intro hkind
  obtain ⟨children, hdata⟩ := exists_children_of_kind hleaf hkind
  obtain ⟨part, hpart, hstands⟩ := h.exists_part hclosed hbelow
  obtain ⟨trees, rfl, -⟩ := hstands.eq_node hclosed hdata
  exact hlacks trees hpart

/-- Where only the tree itself can be of the kind, only the top node can be so. -/
theorem Stands.eq_top (hclosed : ast.Closed) {top node : Node} {other : NodeKind} {trees : List Tree}
    (h : ast.Stands top (.node other trees)) {kind : NodeKind} (hleaf : kind.isLeaf = false)
    (hlacks : ∀ tree ∈ trees, tree.Lacks kind) (hbelow : ast.Below top node) (hkind : ast.kind node = .ok kind) :
    node = top := by
  obtain ⟨children, hdata, hstands⟩ := h.exists_nodes hclosed
  rcases hbelow.eq_or_under hdata with hsame | ⟨child, hmem, hbelow⟩
  · exact hsame
  · obtain ⟨tree, htree, hchild⟩ := exists_mem_of_forall₂ hstands hmem
    exact absurd hkind (hchild.kind_ne hclosed hleaf (hlacks tree htree) hbelow)

/-- What stands for a text is a string constant. -/
theorem Stands.exists_symbol (hclosed : ast.Closed) {node : Node} {text : String}
    (h : ast.Stands node (.string text)) :
    ∃ symbol, ast.data node = .ok (.constant (.str symbol)) ∧ ast.string? symbol = some text := by
  obtain ⟨data, hdata, hpictured⟩ := h.exists_pictured hclosed
  cases hpictured with
  | @constant value literal hliteral =>
    cases value with
    | str symbol =>
      obtain ⟨found, hfound, hsame⟩ := map_eq_ok_iff.1 hliteral
      cases hsame
      exact ⟨symbol, hdata, StringPool.fetch_eq_ok_iff.1 hfound⟩
    | _ => cases hliteral

/-- What stands for a node with a name has a string constant as its only child. -/
theorem Stands.exists_name (hclosed : ast.Closed) {node : Node} {kind : NodeKind} {text : String}
    (h : ast.Stands node (.named kind text)) : ∃ child symbol, ast.data node = .ok (.interior kind [child]) ∧
      ast.data child = .ok (.constant (.str symbol)) ∧ ast.string? symbol = some text := by
  obtain ⟨children, hdata, hstands⟩ := h.exists_nodes hclosed
  obtain ⟨child, rest, hchild, ⟨⟩, rfl⟩ := List.forall₂_cons_right_iff.1 hstands
  obtain ⟨symbol, hsymbol, htext⟩ := hchild.exists_symbol hclosed
  exact ⟨child, symbol, hdata, hsymbol, htext⟩

end Ast

end FunctionTrees
