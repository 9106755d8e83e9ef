import FunctionTrees.Ast
import FunctionTrees.Proofs.Outcome
import FunctionTrees.Proofs.StringPool

/-!
# Trees that grow

* `Extends small large` : all that `small` holds stands under the same keys and symbols in `large`; `Extends.trans`,
  `Extends.data`, `Extends.string`;
* `Closed` : the children of a node come before it;
* `Inner` : the node is there and is no leaf;
* `Below top node` : `node` is `top` or under it; `Closed.le_of_below`, `Extends.below_iff` (growth adds nothing under
  an old node).
-/

set_option autoImplicit false

namespace FunctionTrees

@[simp] theorem Node.mk_index (node : Node) : Node.mk node.index = node := rfl

theorem Node.ext_index {node other : Node} (h : node.index = other.index) : node = other := by
  rw [← Node.mk_index node, h]

namespace Ast

/-! ## What is stored -/

theorem data_eq_ok_iff {ast : Ast} {node : Node} {data : NodeData} :
    ast.data node = .ok data ↔ ast.nodes.toList[node.index]? = some data := by
  rw [Arena.toList, Array.getElem?_toList]
  unfold Ast.data Arena.fetch Arena.get?
  split <;> simp_all

theorem size_eq_length (ast : Ast) : ast.size = ast.nodes.toList.length := by
  simp [Ast.size, Arena.size, Arena.toList]

theorem lt_size_of_data {ast : Ast} {node : Node} {data : NodeData} (h : ast.data node = .ok data) :
    node.index < ast.size := by
  rw [size_eq_length]
  exact (List.getElem?_eq_some_iff.1 (data_eq_ok_iff.1 h)).1

theorem exists_data {ast : Ast} {node : Node} (h : node.index < ast.size) : ∃ data, ast.data node = .ok data := by
  rw [size_eq_length] at h
  exact ⟨_, data_eq_ok_iff.2 (List.getElem?_eq_getElem h)⟩

theorem contains_iff {ast : Ast} {node : Node} : ast.contains node ↔ node.index < ast.size := by
  simp [Ast.contains, Arena.contains, Ast.size]

theorem children_eq_ok_iff {ast : Ast} {node : Node} {children : List Node} :
    ast.children node = .ok children ↔ ∃ data, ast.data node = .ok data ∧ data.children = children :=
  Outcome.map_eq_ok_iff

theorem kind_eq_ok_iff {ast : Ast} {node : Node} {kind : NodeKind} :
    ast.kind node = .ok kind ↔ ∃ data, ast.data node = .ok data ∧ data.kind = kind :=
  Outcome.map_eq_ok_iff

/-- Whether `node` is there and is no leaf. -/
def Inner (ast : Ast) (node : Node) : Prop := ∃ kind, ast.kind node = .ok kind ∧ kind.isLeaf = false

theorem inner_iff {ast : Ast} {node : Node} {data : NodeData} (h : ast.data node = .ok data) :
    ast.Inner node ↔ data.kind.isLeaf = false := by
  simp [Inner, Ast.kind, h, Except.map]

theorem Inner.lt_size {ast : Ast} {node : Node} (h : ast.Inner node) : node.index < ast.size := by
  obtain ⟨kind, hkind, -⟩ := h
  obtain ⟨data, hdata, -⟩ := kind_eq_ok_iff.1 hkind
  exact lt_size_of_data hdata

/-- The children of a node come before it. -/
def Closed (ast : Ast) : Prop :=
  ∀ node data, ast.data node = .ok data → ∀ child ∈ data.children, child.index < node.index

/-! ## Growth -/

/-- All that `small` holds stands under the same keys and symbols in `large`. -/
structure Extends (small large : Ast) : Prop where
  nodes : small.nodes.toList <+: large.nodes.toList
  strings : small.strings.strings <+: large.strings.strings
  callSites : small.callSites <+: large.callSites

namespace Extends

variable {small middle large : Ast}

theorem refl (ast : Ast) : Extends ast ast := ⟨List.prefix_rfl, List.prefix_rfl, List.prefix_rfl⟩

theorem trans (h : Extends small middle) (h' : Extends middle large) : Extends small large :=
  ⟨h.nodes.trans h'.nodes, h.strings.trans h'.strings, h.callSites.trans h'.callSites⟩

theorem size_le (h : Extends small large) : small.size ≤ large.size := by
  rw [size_eq_length, size_eq_length]
  exact h.nodes.length_le

theorem data (h : Extends small large) {node : Node} {data : NodeData} (hdata : small.data node = .ok data) :
    large.data node = .ok data := by
  obtain ⟨more, hmore⟩ := h.nodes
  rw [data_eq_ok_iff] at hdata ⊢
  rw [← hmore, List.getElem?_append_left (List.getElem?_eq_some_iff.1 hdata).1]
  exact hdata

/-- Growth stores nothing new under an old key. -/
theorem data_of_lt (h : Extends small large) {node : Node} (hlt : node.index < small.size) {data : NodeData}
    (hdata : large.data node = .ok data) : small.data node = .ok data := by
  obtain ⟨old, hold⟩ := exists_data hlt
  rw [h.data hold] at hdata
  rw [hold, hdata]

theorem children (h : Extends small large) {node : Node} {children : List Node}
    (hchildren : small.children node = .ok children) : large.children node = .ok children := by
  obtain ⟨data, hdata, rfl⟩ := children_eq_ok_iff.1 hchildren
  exact children_eq_ok_iff.2 ⟨data, h.data hdata, rfl⟩

theorem kind (h : Extends small large) {node : Node} {kind : NodeKind} (hkind : small.kind node = .ok kind) :
    large.kind node = .ok kind := by
  obtain ⟨data, hdata, rfl⟩ := kind_eq_ok_iff.1 hkind
  exact kind_eq_ok_iff.2 ⟨data, h.data hdata, rfl⟩

theorem kind_eq (h : Extends small large) {node : Node} (hlt : node.index < small.size) :
    large.kind node = small.kind node := by
  obtain ⟨data, hdata⟩ := exists_data hlt
  rw [Ast.kind, Ast.kind, hdata, h.data hdata]

theorem inner_iff (h : Extends small large) {node : Node} (hlt : node.index < small.size) :
    large.Inner node ↔ small.Inner node := by
  obtain ⟨data, hdata⟩ := exists_data hlt
  rw [Ast.inner_iff hdata, Ast.inner_iff (h.data hdata)]

theorem string (h : Extends small large) {symbol : Symbol} {text : String} (htext : small.string symbol = .ok text) :
    large.string symbol = .ok text :=
  StringPool.fetch_eq_ok_iff.2 (StringPool.get?_of_prefix h.strings (StringPool.fetch_eq_ok_iff.1 htext))

theorem resolve (h : Extends small large) {position : Position} {span : FileSpan}
    (hspan : position.resolve small.strings = .ok span) : position.resolve large.strings = .ok span := by
  obtain ⟨file, hfile, rfl⟩ := Outcome.map_eq_ok_iff.1 hspan
  exact Outcome.map_eq_ok_iff.2 ⟨file, h.string hfile, rfl⟩

end Extends

/-! ## Subtrees -/

/-- `node` is `top` or one of the nodes under it. -/
inductive Below (ast : Ast) : Node → Node → Prop
  | self (top : Node) : Below ast top top
  | under {top child node : Node} {children : List Node} (hchildren : ast.children top = .ok children)
      (hmem : child ∈ children) (hbelow : Below ast child node) : Below ast top node

theorem Below.trans {ast : Ast} {top middle node : Node} (h : ast.Below top middle) (h' : ast.Below middle node) :
    ast.Below top node := by
  induction h with
  | self => exact h'
  | under hchildren hmem _ ih => exact .under hchildren hmem (ih h')

/-- What is below a node is that node or below one of its children. -/
theorem Below.eq_or_under {ast : Ast} {top node : Node} (h : ast.Below top node) {data : NodeData}
    (hdata : ast.data top = .ok data) : node = top ∨ ∃ child ∈ data.children, ast.Below child node := by
  cases h with
  | self => exact .inl rfl
  | under hchildren hmem hbelow =>
    obtain ⟨found, hfound, rfl⟩ := children_eq_ok_iff.1 hchildren
    cases hdata.symm.trans hfound
    exact .inr ⟨_, hmem, hbelow⟩

theorem Closed.le_of_below {ast : Ast} (h : ast.Closed) {top node : Node} (hbelow : ast.Below top node) :
    node.index ≤ top.index := by
  induction hbelow with
  | self => exact Nat.le_refl _
  | under hchildren hmem _ ih =>
    obtain ⟨data, hdata, rfl⟩ := children_eq_ok_iff.1 hchildren
    exact Nat.le_trans ih (Nat.le_of_lt (h _ data hdata _ hmem))

/-- Growth adds nothing under an old node. -/
theorem Extends.below_iff {small large : Ast} (h : Extends small large) (hclosed : small.Closed) {top node : Node}
    (hlt : top.index < small.size) : large.Below top node ↔ small.Below top node := by
  constructor
  · intro hbelow
    induction hbelow with
    | self => exact .self _
    | under hchildren hmem _ ih =>
      obtain ⟨data, hdata, rfl⟩ := children_eq_ok_iff.1 hchildren
      have hold := h.data_of_lt hlt hdata
      have hchild := hclosed _ data hold _ hmem
      exact .under (children_eq_ok_iff.2 ⟨data, hold, rfl⟩) hmem (ih (by omega))
  · intro hbelow
    clear hlt
    induction hbelow with
    | self => exact .self _
    | under hchildren hmem _ ih => exact .under (h.children hchildren) hmem ih

end Ast

end FunctionTrees
