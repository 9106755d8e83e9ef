import FunctionTrees.Proofs.Ast.Actions

/-!
# Trees made one after the other

* `Covers.size_eq` : a single root is the last node that was made;
* `Ast.Rows low roots high` : the trees under `roots` take up the keys from `low` up to below `high`, one after the
  other; `Rows.append`, `Rows.grow`;
* `Rows.pairwise`, `Rows.first`, `Rows.next`, `Rows.exists_below_iff`, `Rows.unique` : what that says of single roots;
* `Rows.pairwise_flatMap` : nodes that are picked tree by tree come in the order of their keys;
* `Builder.Stacks b b' roots` : from `b` to `b'` only the trees under `roots` were made, and in this order;
  `Stacks.append`, `Covers.stacks`;
* `Build.Stacking.mapM` : actions one after the other.
-/

set_option autoImplicit false

namespace FunctionTrees

/-! ## Rows of trees -/

namespace Ast

/-- The trees under `roots` take up the keys from `low` up to below `high`, one after the other. -/
inductive Rows (ast : Ast) : Nat → List Node → Nat → Prop
  | nil (low : Nat) : Rows ast low [] low
  | cons {low high : Nat} {root : Node} {roots : List Node}
      (hbelow : ∀ node, ast.Below root node ↔ low ≤ node.index ∧ node.index ≤ root.index)
      (hrest : Rows ast (root.index + 1) roots high) : Rows ast low (root :: roots) high

namespace Rows

variable {ast : Ast} {low middle high : Nat} {roots more : List Node}

theorem le (h : ast.Rows low roots high) : low ≤ high := by
  induction h with
  | nil => exact Nat.le_refl _
  | @cons low high root roots hbelow _ ih =>
    have hroot := ((hbelow root).1 (.self root)).1
    omega

theorem append (h : ast.Rows low roots middle) (h' : ast.Rows middle more high) :
    ast.Rows low (roots ++ more) high := by
  induction h with
  | nil => exact h'
  | cons hbelow _ ih => exact .cons hbelow (ih h')

/-- The nodes under the roots are those with the keys in between. -/
theorem exists_below_iff (h : ast.Rows low roots high) {node : Node} :
    (∃ root ∈ roots, ast.Below root node) ↔ low ≤ node.index ∧ node.index < high := by
  induction h with
  | nil low =>
    have hnone : ¬ (low ≤ node.index ∧ node.index < low) := by omega
    simp [hnone]
  | @cons low high root roots hbelow hrest ih =>
    have hle := hrest.le
    have hroot := ((hbelow root).1 (.self root)).1
    rw [List.exists_mem_cons_iff, ih, hbelow]
    omega

theorem mem_roots (h : ast.Rows low roots high) {root : Node} (hmem : root ∈ roots) :
    low ≤ root.index ∧ root.index < high :=
  h.exists_below_iff.1 ⟨root, hmem, .self root⟩

theorem grow {large : Ast} (h : ast.Rows low roots high) (hclosed : ast.Closed) (hgrown : ast.Extends large)
    (hhigh : high ≤ ast.size) : large.Rows low roots high := by
  induction h with
  | nil => exact .nil _
  | @cons low high root roots hbelow hrest ih =>
    have hle := hrest.le
    have hlt : root.index < ast.size := by omega
    exact .cons (fun node => (hgrown.below_iff hclosed hlt).trans (hbelow node)) (ih hhigh)

theorem pairwise (h : ast.Rows low roots high) : roots.Pairwise fun root next => root.index < next.index := by
  induction h with
  | nil => exact .nil
  | @cons low high root roots _ hrest ih =>
    refine .cons (fun next hnext => ?_) ih
    have := (hrest.mem_roots hnext).1
    omega

/-- Under the first root are the keys up to its own. -/
theorem first (h : ast.Rows low roots high) {root : Node} (hroot : roots[0]? = some root) (node : Node) :
    ast.Below root node ↔ low ≤ node.index ∧ node.index ≤ root.index := by
  cases h with
  | nil => cases hroot
  | cons hbelow _ =>
    obtain rfl := Option.some.inj hroot
    exact hbelow node

/-- Under each further root are the keys after the root before it, up to its own. -/
theorem next (h : ast.Rows low roots high) {index : Nat} {root next : Node} (hroot : roots[index]? = some root)
    (hnext : roots[index + 1]? = some next) (node : Node) :
    ast.Below next node ↔ root.index < node.index ∧ node.index ≤ next.index := by
  induction h generalizing index with
  | nil => cases hroot
  | @cons low high head roots hbelow hrest ih =>
    cases index with
    | zero =>
      obtain rfl := Option.some.inj hroot
      exact hrest.first hnext node
    | succ index => exact ih hroot hnext

theorem unique (h : ast.Rows low roots high) {index other : Nat} {root root' node : Node}
    (hroot : roots[index]? = some root) (hroot' : roots[other]? = some root') (hbelow : ast.Below root node)
    (hbelow' : ast.Below root' node) : index = other := by
  induction h generalizing index other with
  | nil => cases hroot
  | @cons low high head roots hhead hrest ih =>
    -- the nodes under the head have keys below all others
    have hapart : ∀ {index : Nat} {root : Node}, roots[index]? = some root → ast.Below root node →
        head.index < node.index := by
      intro index root hroot hbelow
      exact (hrest.exists_below_iff.1 ⟨root, List.mem_of_getElem? hroot, hbelow⟩).1
    cases index with
    | zero =>
      obtain rfl := Option.some.inj hroot
      have hle := ((hhead node).1 hbelow).2
      cases other with
      | zero => rfl
      | succ other =>
        have := hapart hroot' hbelow'
        omega
    | succ index =>
      cases other with
      | zero =>
        obtain rfl := Option.some.inj hroot'
        have hle := ((hhead node).1 hbelow').2
        have := hapart hroot hbelow
        omega
      | succ other => rw [ih hroot hroot']

/-- Nodes that are picked tree by tree, each time in the order of their keys, are in that order. -/
theorem pairwise_flatMap (h : ast.Rows low roots high) {pick : Node → List Node}
    (hpick : ∀ root ∈ roots, (pick root).Pairwise fun node next => node.index < next.index)
    (hbelow : ∀ root ∈ roots, ∀ node ∈ pick root, ast.Below root node) :
    (roots.flatMap pick).Pairwise fun node next => node.index < next.index := by
  induction h with
  | nil => exact .nil
  | @cons low high root roots hhead hrest ih =>
    rw [List.forall_mem_cons] at hpick hbelow
    rw [List.flatMap_cons, List.pairwise_append]
    refine ⟨hpick.1, ih hpick.2 hbelow.2, fun node hnode next hnext => ?_⟩
    obtain ⟨other, hother, hnext⟩ := List.mem_flatMap.1 hnext
    have hle := ((hhead node).1 (hbelow.1 node hnode)).2
    have hlt := (hrest.exists_below_iff.1 ⟨other, hother, hbelow.2 other hother next hnext⟩).1
    omega

end Rows

end Ast

/-! ## Builders -/

namespace Builder

variable {b b' b'' : Builder} {root : Node} {roots more : List Node}

/-- A single root is the last node that was made: the last one has no parent. -/
theorem Covers.size_eq (h : b.Covers b' [root]) : b'.ast.size = root.index + 1 := by
  have hroot := h.mem_roots (List.mem_singleton_self root)
  have hlast : Node.mk (b'.ast.size - 1) ∈ keysBetween b.ast.size b'.ast.size := by
    rw [mem_keysBetween]
    show b.ast.size ≤ b'.ast.size - 1 ∧ b'.ast.size - 1 < b'.ast.size
    omega
  rcases List.mem_append.1 (h.parents.mem_iff.2 hlast) with hmem | hmem
  · have hindex : b'.ast.size - 1 = root.index := congrArg Node.index (List.mem_singleton.1 hmem)
    omega
  · obtain ⟨parent, data, -, hdata, hchild⟩ := Ast.mem_childrenFrom.1 hmem
    have hbefore : b'.ast.size - 1 < parent.index := h.sound.closed parent data hdata _ hchild
    have hbound := Ast.lt_size_of_data hdata
    omega

/-- From `b` to `b'` only the trees under `roots` were made, and in this order. -/
structure Stacks (b b' : Builder) (roots : List Node) : Prop extends Covers b b' roots where
  rows : b'.ast.Rows b.ast.size roots b'.ast.size

theorem Covers.stacks (h : b.Covers b' [root]) : b.Stacks b' [root] := by
  have hsize := h.size_eq
  refine ⟨h, .cons (fun node => ?_) ?_⟩
  · have hbelow : (∃ top ∈ [root], b'.ast.Below top node) ↔ _ := h.below_iff
    simp only [List.mem_singleton, exists_eq_left] at hbelow
    rw [hbelow, hsize]
    omega
  · rw [hsize]
    exact .nil _

theorem Covers.stacks_nil (h : b.Covers b' []) : b.Stacks b' [] := by
  refine ⟨h, ?_⟩
  rw [h.size_eq_of_nil]
  exact .nil _

theorem Stacks.append (h : b.Stacks b' roots) (h' : b'.Stacks b'' more) : b.Stacks b'' (roots ++ more) :=
  ⟨h.toCovers.append h'.toCovers, (h.rows.grow h.sound.closed h'.grown (Nat.le_refl _)).append h'.rows⟩

end Builder

/-! ## Actions -/

/-- Where `P` holds, `act` makes trees one after the other, under the roots that it hands out, and `P` holds again. -/
def Build.Stacking {α : Type} (P : Builder → Prop) (act : Build α) (roots : α → List Node) : Prop :=
  ∀ b : Builder, b.Sound → P b → P (act.run b).2 ∧ b.Stacks (act.run b).2 (roots (act.run b).1)

theorem Build.Stacking.mapM {α β : Type} {P : Builder → Prop} {f : α → Build β} {roots : β → List Node}
    {items : List α} (h : ∀ item ∈ items, Stacking P (f item) roots) :
    Stacking P (items.mapM f) fun values => values.flatMap roots := by
  induction items with
  | nil =>
    intro b hsound hP
    exact ⟨hP, (Builder.Covers.refl hsound).stacks_nil⟩
  | cons item items ih =>
    rw [List.forall_mem_cons] at h
    intro b hsound hP
    rw [List.mapM_cons, run_bind, run_bind]
    obtain ⟨hP', hhead⟩ := h.1 b hsound hP
    obtain ⟨hP'', htail⟩ := ih h.2 _ hhead.sound hP'
    exact ⟨hP'', hhead.append htail⟩

end FunctionTrees
