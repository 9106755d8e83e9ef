import FunctionTrees.Proofs.Ast.Extension
import FunctionTrees.Tree

/-!
# What nodes stand for

* `unfoldTo_mono` : a deeper look into a tree that has grown shows the same;
* `Stands node tree` : `node` unfolds to `tree`, whatever positions its statements have; `Stands.extends`;
  `Stands.operator`, `Stands.constant` (leaves); `Stands.interior` (a node over nodes that stand for trees);
* `unfold_block` : a block over statements that stand for trees.
-/

set_option autoImplicit false

namespace FunctionTrees.Ast

open Outcome

/-! ## One level -/

section Level

variable {ast : Ast} {positionOf : Node → Option Position} {depth : Nat} {node : Node}

theorem unfoldTo_operator {op : Operator} (h : ast.data node = .ok (.operator op)) :
    ast.unfoldTo positionOf (depth + 1) node = .ok (.operator op) := by
  rw [unfoldTo, h]
  rfl

theorem unfoldTo_constant {value : Constant} (h : ast.data node = .ok (.constant value)) :
    ast.unfoldTo positionOf (depth + 1) node = ast.literal value >>= fun literal => .ok (.literal literal) := by
  rw [unfoldTo, h]
  rfl

theorem unfoldTo_empty (h : ast.data node = .ok .empty) :
    ast.unfoldTo positionOf (depth + 1) node = .ok .empty := by
  rw [unfoldTo, h]
  rfl

theorem unfoldTo_block {statements : List Node} (h : ast.data node = .ok (.interior .block statements)) :
    ast.unfoldTo positionOf (depth + 1) node =
      (statements.mapM fun statement =>
        ast.unfoldTo positionOf depth statement >>= ast.note (positionOf statement)) >>=
          fun trees => .ok (.node .block trees) := by
  rw [unfoldTo, h]
  rfl

theorem unfoldTo_interior {kind : NodeKind} {children : List Node} (h : ast.data node = .ok (.interior kind children))
    (hkind : kind ≠ .block) :
    ast.unfoldTo positionOf (depth + 1) node =
      children.mapM (ast.unfoldTo positionOf depth) >>= fun trees => .ok (.node kind trees) := by
  rw [unfoldTo, h]
  cases kind with
  | block => exact absurd rfl hkind
  | _ => rfl

end Level

/-! ## Growth -/

theorem Extends.literal {small large : Ast} (h : Extends small large) {value : Constant} {literal : Literal}
    (hvalue : small.literal value = .ok literal) : large.literal value = .ok literal := by
  cases value with
  | str symbol =>
    obtain ⟨text, htext, rfl⟩ := map_eq_ok_iff.1 hvalue
    exact map_eq_ok_iff.2 ⟨text, h.string htext, rfl⟩
  | _ => exact hvalue

theorem Extends.note {small large : Ast} (h : Extends small large) {position : Option Position} {tree noted : Tree}
    (hnote : small.note position tree = .ok noted) : large.note position tree = .ok noted := by
  cases position with
  | none => exact hnote
  | some position =>
    obtain ⟨span, hspan, rfl⟩ := map_eq_ok_iff.1 hnote
    exact map_eq_ok_iff.2 ⟨span, h.resolve hspan, rfl⟩

/-- A deeper look into a tree that has grown shows the same. -/
theorem unfoldTo_mono {small large : Ast} (h : Extends small large) {positionOf : Node → Option Position}
    {depth depth' : Nat} (hle : depth ≤ depth') {node : Node} {tree : Tree}
    (htree : small.unfoldTo positionOf depth node = .ok tree) : large.unfoldTo positionOf depth' node = .ok tree := by
  induction depth generalizing depth' node tree with
  | zero => simp [unfoldTo] at htree
  | succ depth ih =>
    obtain ⟨more, rfl⟩ : ∃ more, depth' = more + 1 := ⟨depth' - 1, by omega⟩
    have hdeeper : depth ≤ more := Nat.le_of_succ_le_succ hle
    obtain ⟨data, hdata, -⟩ := bind_eq_ok_iff.1 (unfoldTo.eq_2 .. ▸ htree)
    have hlarge := h.data hdata
    cases data with
    | operator op =>
      rw [unfoldTo_operator hdata] at htree
      rw [unfoldTo_operator hlarge, htree]
    | constant value =>
      rw [unfoldTo_constant hdata] at htree
      obtain ⟨literal, hliteral, htree⟩ := bind_eq_ok_iff.1 htree
      rw [unfoldTo_constant hlarge, h.literal hliteral, ok_bind, htree]
    | empty =>
      rw [unfoldTo_empty hdata] at htree
      rw [unfoldTo_empty hlarge, htree]
    | interior kind children =>
      by_cases hkind : kind = .block
      · subst hkind
        rw [unfoldTo_block hdata] at htree
        obtain ⟨trees, htrees, htree⟩ := bind_eq_ok_iff.1 htree
        rw [unfoldTo_block hlarge, mapM_congr_ok (fun child _ noted hnoted => ?_) htrees, ok_bind, htree]
        obtain ⟨tree, hchild, hnote⟩ := bind_eq_ok_iff.1 hnoted
        rw [ih hdeeper hchild, ok_bind, h.note hnote]
      · rw [unfoldTo_interior hdata hkind] at htree
        obtain ⟨trees, htrees, htree⟩ := bind_eq_ok_iff.1 htree
        rw [unfoldTo_interior hlarge hkind, mapM_congr_ok (fun child _ tree hchild => ih hdeeper hchild) htrees, ok_bind,
          htree]

/-! ## Trees under nodes -/

/-- `node` unfolds to `tree`, whatever positions the statements under it have. -/
def Stands (ast : Ast) (node : Node) (tree : Tree) : Prop :=
  ∀ positionOf, ast.unfoldTo positionOf (node.index + 1) node = .ok tree

theorem Stands.extends {small large : Ast} (h : Extends small large) {node : Node} {tree : Tree}
    (hstands : small.Stands node tree) : large.Stands node tree :=
  fun positionOf => unfoldTo_mono h (Nat.le_refl _) (hstands positionOf)

theorem Stands.operator {ast : Ast} {node : Node} {op : Operator} (h : ast.data node = .ok (.operator op)) :
    ast.Stands node (.operator op) :=
  fun _ => unfoldTo_operator h

theorem Stands.constant {ast : Ast} {node : Node} {value : Constant} {literal : Literal}
    (h : ast.data node = .ok (.constant value)) (hliteral : ast.literal value = .ok literal) :
    ast.Stands node (.literal literal) := by
  intro positionOf
  rw [unfoldTo_constant h, hliteral, ok_bind]

theorem Stands.unfoldTo {ast : Ast} {node : Node} {tree : Tree} (h : ast.Stands node tree) {depth : Nat}
    (hlt : node.index < depth) (positionOf : Node → Option Position) :
    ast.unfoldTo positionOf depth node = .ok tree :=
  unfoldTo_mono (.refl ast) hlt (h positionOf)

theorem Stands.interior {ast : Ast} {node : Node} {kind : NodeKind} {children : List Node} {trees : List Tree}
    (h : ast.data node = .ok (.interior kind children)) (hclosed : ast.Closed) (hkind : kind ≠ .block)
    (hchildren : List.Forall₂ ast.Stands children trees) : ast.Stands node (.node kind trees) := by
  intro positionOf
  have hlt : ∀ child ∈ children, child.index < node.index := hclosed node _ h
  rw [unfoldTo_interior h hkind]
  rw [mapM_eq_ok_of_forall₂ hchildren fun child hmem tree hstands => hstands.unfoldTo (hlt child hmem) positionOf, ok_bind]

theorem Stands.lt_size {ast : Ast} {node : Node} {tree : Tree} (h : ast.Stands node tree) : node.index < ast.size := by
  obtain ⟨data, hdata, -⟩ := bind_eq_ok_iff.1 (unfoldTo.eq_2 .. ▸ h fun _ => none)
  exact lt_size_of_data hdata

theorem Stands.exists_children {ast : Ast} {node : Node} {kind : NodeKind} {trees : List Tree}
    (h : ast.Stands node (.node kind trees)) : ∃ children, ast.data node = .ok (.interior kind children) := by
  have hunfold := h fun _ => none
  obtain ⟨data, hdata, -⟩ := bind_eq_ok_iff.1 (unfoldTo.eq_2 .. ▸ hunfold)
  cases data with
  | operator op =>
    rw [unfoldTo_operator hdata] at hunfold
    cases hunfold
  | constant value =>
    rw [unfoldTo_constant hdata] at hunfold
    obtain ⟨literal, -, ⟨⟩⟩ := bind_eq_ok_iff.1 hunfold
  | empty =>
    rw [unfoldTo_empty hdata] at hunfold
    cases hunfold
  | interior kind' children =>
    by_cases hblock : kind' = .block
    · subst hblock
      rw [unfoldTo_block hdata] at hunfold
      obtain ⟨trees, -, ⟨⟩⟩ := bind_eq_ok_iff.1 hunfold
      exact ⟨children, hdata⟩
    · rw [unfoldTo_interior hdata hblock] at hunfold
      obtain ⟨trees, -, ⟨⟩⟩ := bind_eq_ok_iff.1 hunfold
      exact ⟨children, hdata⟩

/-- A block unfolds to its statements, each noted with its position. -/
theorem unfold_block {ast : Ast} {positionOf : Node → Option Position} {node : Node} {statements : List Node}
    {noted : List Tree} (h : ast.data node = .ok (.interior .block statements)) (hclosed : ast.Closed)
    (hnoted : List.Forall₂ (fun statement result => ∃ tree, ast.Stands statement tree ∧
      ast.note (positionOf statement) tree = .ok result) statements noted) :
    ast.unfold positionOf node = .ok (.node .block noted) := by
  have hlt : ∀ child ∈ statements, child.index < ast.size := fun child hmem =>
    Nat.lt_trans (hclosed node _ h child hmem) (lt_size_of_data h)
  unfold unfold
  rw [unfoldTo_block h]
  rw [mapM_eq_ok_of_forall₂ hnoted ?_, ok_bind]
  rintro statement hmem result ⟨tree, hstands, hnote⟩
  rw [hstands.unfoldTo (hlt statement hmem), ok_bind, hnote]

end FunctionTrees.Ast
