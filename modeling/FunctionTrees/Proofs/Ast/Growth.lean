import FunctionTrees.Ast.Builder
import FunctionTrees.Proofs.Ast.Unfolding
import FunctionTrees.Proofs.PositionTable

/-!
# What a builder has built

* `Builder.store` : the one way in which a builder makes a node; `data_store`, `get?_store`;
* `Builder.Sound` : children come before their parents, and positions belong to nodes;
* `Builder.Keeps b b'` : from `b` to `b'` nothing was lost or changed;
* `Builder.Covers b b' roots` : from `b` to `b'` only nodes under `roots` were made, and each new node is a root or has
  one parent, once; `Covers.append`, `Covers.store`, `Covers.below_iff`;
* `Builder.Grows b b' roots trees` : moreover the roots stand for `trees`, and the new inner nodes, no others, have the
  position that was current; `Grows.append`, `Grows.front`, `Grows.store`, `Grows.interior`.
-/

set_option autoImplicit false

namespace FunctionTrees

/-! ## Keys -/

def keysBetween (low high : Nat) : List Node := (List.range' low (high - low)).map Node.mk

theorem mem_keysBetween {low high : Nat} {node : Node} :
    node ∈ keysBetween low high ↔ low ≤ node.index ∧ node.index < high := by
  simp only [keysBetween, List.mem_map, List.mem_range'_1]
  constructor
  · rintro ⟨index, hindex, rfl⟩
    show low ≤ index ∧ index < high
    omega
  · intro h
    exact ⟨node.index, by omega, rfl⟩

theorem keysBetween_self (low : Nat) : keysBetween low low = [] := by
  simp [keysBetween]

theorem keysBetween_append {low middle high : Nat} (h : low ≤ middle) (h' : middle ≤ high) :
    keysBetween low middle ++ keysBetween middle high = keysBetween low high := by
  rw [keysBetween, keysBetween, keysBetween, ← List.map_append]
  have hmiddle : middle = low + 1 * (middle - low) := by omega
  have hlength : high - low = (middle - low) + (high - middle) := by omega
  rw [hlength, ← List.range'_append, ← hmiddle]

theorem keysBetween_succ {low high : Nat} (h : low ≤ high) :
    keysBetween low (high + 1) = keysBetween low high ++ [⟨high⟩] := by
  rw [← keysBetween_append h (Nat.le_succ high)]
  simp [keysBetween]

/-! ## Children -/

namespace Ast

/-- The children of all nodes from key `low` on, node by node. -/
def childrenFrom (ast : Ast) (low : Nat) : List Node := (ast.nodes.toList.drop low).flatMap NodeData.children

theorem childrenFrom_size (ast : Ast) : ast.childrenFrom ast.size = [] := by
  rw [childrenFrom, size_eq_length, List.drop_length]
  rfl

theorem mem_childrenFrom {ast : Ast} {low : Nat} {child : Node} :
    child ∈ ast.childrenFrom low ↔
      ∃ node data, low ≤ node.index ∧ ast.data node = .ok data ∧ child ∈ data.children := by
  rw [childrenFrom, List.mem_flatMap]
  simp only [data_eq_ok_iff]
  constructor
  · rintro ⟨data, hdata, hmem⟩
    obtain ⟨offset, hdata⟩ := List.mem_iff_getElem?.1 hdata
    rw [List.getElem?_drop] at hdata
    exact ⟨⟨low + offset⟩, data, Nat.le_add_right _ _, hdata, hmem⟩
  · rintro ⟨node, data, hle, hdata, hmem⟩
    refine ⟨data, List.mem_iff_getElem?.2 ⟨node.index - low, ?_⟩, hmem⟩
    rw [List.getElem?_drop, Nat.add_sub_cancel' hle]
    exact hdata

theorem Extends.childrenFrom {small large : Ast} (h : Extends small large) {low : Nat} (hle : low ≤ small.size) :
    large.childrenFrom low = small.childrenFrom low ++ large.childrenFrom small.size := by
  obtain ⟨more, hmore⟩ := h.nodes
  rw [size_eq_length] at hle
  rw [Ast.childrenFrom, Ast.childrenFrom, Ast.childrenFrom, ← hmore, size_eq_length,
    List.drop_append_of_le_length hle, List.drop_append_of_le_length (Nat.le_refl _), List.drop_length,
    List.nil_append, List.flatMap_append]

end Ast

namespace Builder

/-! ## One more node -/

/-- The builder with one more node, which gets the current position if it is no leaf. -/
def store (b : Builder) (data : NodeData) : Builder :=
  { ast := { b.ast with nodes := b.ast.nodes.push data }
    positions :=
      match data.kind.isLeaf, b.current with
      | false, some position => (b.positions.record ⟨b.ast.size⟩ position).2
      | _, _ => b.positions
    current := b.current }

@[simp] theorem strings_store (b : Builder) (data : NodeData) : (b.store data).ast.strings = b.ast.strings := rfl

@[simp] theorem size_store (b : Builder) (data : NodeData) : (b.store data).ast.size = b.ast.size + 1 :=
  Arena.size_push _ _

theorem toList_store (b : Builder) (data : NodeData) :
    (b.store data).ast.nodes.toList = b.ast.nodes.toList ++ [data] :=
  Arena.toList_push _ _

theorem extends_store (b : Builder) (data : NodeData) : b.ast.Extends (b.store data).ast :=
  ⟨by rw [toList_store]; exact List.prefix_append _ _, List.prefix_rfl, List.prefix_rfl⟩

theorem data_store (b : Builder) (data : NodeData) : (b.store data).ast.data ⟨b.ast.size⟩ = .ok data := by
  rw [Ast.data_eq_ok_iff, toList_store, Ast.size_eq_length]
  simp

theorem get?_store (b : Builder) (data : NodeData) (node : Node) :
    (b.store data).positions.get? node =
      if node = ⟨b.ast.size⟩ ∧ data.kind.isLeaf = false ∧ b.current.isSome then b.current
      else b.positions.get? node := by
  unfold store
  cases data.kind.isLeaf <;> cases b.current <;> simp [PositionTable.get?_record]

/-! ## Sound builders -/

structure Sound (b : Builder) : Prop where
  closed : b.ast.Closed
  unrecorded : ∀ node, b.ast.size ≤ node.index → b.positions.get? node = none

theorem sound_empty : Sound {} := by
  refine ⟨fun node data h => ?_, fun _ _ => rfl⟩
  rw [Ast.data_eq_ok_iff] at h
  simp [Arena.toList] at h

theorem Sound.at (b : Builder) (h : b.Sound) (current : Option Position) : Sound { b with current } :=
  ⟨h.closed, h.unrecorded⟩

/-- The position of a new node is the current one; a leaf has none. -/
theorem Sound.get?_store {b : Builder} (h : b.Sound) (data : NodeData) :
    (b.store data).positions.get? ⟨b.ast.size⟩ = if data.kind.isLeaf then none else b.current := by
  have hnew : b.positions.get? ⟨b.ast.size⟩ = none := h.unrecorded ⟨b.ast.size⟩ (Nat.le_refl _)
  rw [Builder.get?_store, hnew]
  cases data.kind.isLeaf <;> cases b.current <;> simp

theorem get?_store_of_ne (b : Builder) (data : NodeData) {node : Node} (h : node.index ≠ b.ast.size) :
    (b.store data).positions.get? node = b.positions.get? node := by
  rw [Builder.get?_store, if_neg]
  rintro ⟨rfl, -⟩
  exact h rfl

/-- What is stored in the builder with one more node. -/
theorem data_store_cases {b : Builder} {data stored : NodeData} {node : Node}
    (h : (b.store data).ast.data node = .ok stored) :
    node = ⟨b.ast.size⟩ ∧ stored = data ∨ b.ast.data node = .ok stored := by
  have hlt := Ast.lt_size_of_data h
  rw [b.size_store] at hlt
  by_cases hnode : node.index = b.ast.size
  · obtain rfl : node = ⟨b.ast.size⟩ := Node.ext_index hnode
    rw [b.data_store, Except.ok.injEq] at h
    exact .inl ⟨rfl, h.symm⟩
  · exact .inr ((b.extends_store data).data_of_lt (by omega) h)

theorem closed_store {b : Builder} (h : b.ast.Closed) {data : NodeData}
    (hchildren : ∀ child ∈ data.children, child.index < b.ast.size) : (b.store data).ast.Closed := by
  intro node stored hstored child hmem
  rcases data_store_cases hstored with ⟨rfl, rfl⟩ | hold
  · exact hchildren child hmem
  · exact h node stored hold child hmem

theorem Sound.store {b : Builder} (h : b.Sound) {data : NodeData}
    (hchildren : ∀ child ∈ data.children, child.index < b.ast.size) : (b.store data).Sound := by
  refine ⟨closed_store h.closed hchildren, fun node hle => ?_⟩
  rw [b.size_store] at hle
  rw [b.get?_store_of_ne data (by omega), h.unrecorded node (by omega)]

/-! ## Coverage -/

/-- From `b` to `b'` nothing was lost or changed. -/
structure Keeps (b b' : Builder) : Prop where
  grown : b.ast.Extends b'.ast
  kept : ∀ node, node.index < b.ast.size → b'.positions.get? node = b.positions.get? node

theorem keeps_store (b : Builder) (data : NodeData) : b.Keeps (b.store data) :=
  ⟨b.extends_store data, fun _ hlt => b.get?_store_of_ne data (Nat.ne_of_lt hlt)⟩

/-- From `b` to `b'` only the nodes under `roots` were made: each new node is one of them or the child of one new node,
and it is so once. -/
structure Covers (b b' : Builder) (roots : List Node) : Prop extends Keeps b b' where
  sound : b'.Sound
  parents : (roots ++ b'.ast.childrenFrom b.ast.size).Perm (keysBetween b.ast.size b'.ast.size)

namespace Covers

variable {b b' b'' : Builder} {roots more : List Node}

/-- Nothing is built where only strings and calls are taken in. -/
theorem nil (h : b.Sound) (hnodes : b'.ast.nodes = b.ast.nodes)
    (hstrings : b.ast.strings.strings <+: b'.ast.strings.strings) (hcalls : b.ast.callSites <+: b'.ast.callSites)
    (hpositions : b'.positions = b.positions) : Covers b b' [] := by
  have hsize : b'.ast.size = b.ast.size := congrArg Arena.size hnodes
  have hdata : b'.ast.data = b.ast.data := by
    funext node
    simp only [Ast.data, hnodes]
  refine ⟨⟨⟨hnodes ▸ List.prefix_rfl, hstrings, hcalls⟩, fun node _ => by rw [hpositions]⟩, ⟨?_, ?_⟩, ?_⟩
  · intro node data
    rw [hdata]
    exact h.closed node data
  · rw [hpositions, hsize]
    exact h.unrecorded
  · rw [hsize, keysBetween_self, ← hsize, Ast.childrenFrom_size]
    exact .refl _

theorem refl (h : b.Sound) : Covers b b [] := nil h rfl List.prefix_rfl List.prefix_rfl rfl

theorem append (h : Covers b b' roots) (h' : Covers b' b'' more) : Covers b b'' (roots ++ more) := by
  have hle := h.grown.size_le
  refine ⟨⟨h.grown.trans h'.grown, fun node hlt => ?_⟩, h'.sound, ?_⟩
  · rw [h'.kept node (by omega), h.kept node hlt]
  · rw [h'.grown.childrenFrom hle, ← keysBetween_append hle h'.grown.size_le]
    have hswap : (roots ++ more ++ (b'.ast.childrenFrom b.ast.size ++ b''.ast.childrenFrom b'.ast.size)).Perm
        (roots ++ b'.ast.childrenFrom b.ast.size ++ (more ++ b''.ast.childrenFrom b'.ast.size)) := by
      rw [List.append_assoc, List.append_assoc, ← List.append_assoc more, ← List.append_assoc _ more]
      exact (List.perm_append_comm.append_right _).append_left _
    exact hswap.trans (h.parents.append h'.parents)

theorem perm (h : Covers b b' roots) (hperm : more.Perm roots) : Covers b b' more :=
  ⟨h.toKeeps, h.sound, (hperm.append_right _).trans h.parents⟩

theorem at_ (h : Covers b b' roots) (current current' : Option Position) :
    Covers { b with current } { b' with current := current' } roots :=
  ⟨⟨h.grown, h.kept⟩, h.sound.at _ current', h.parents⟩

theorem mem_roots (h : Covers b b' roots) {root : Node} (hmem : root ∈ roots) :
    b.ast.size ≤ root.index ∧ root.index < b'.ast.size :=
  mem_keysBetween.1 (h.parents.mem_iff.1 (List.mem_append_left _ hmem))

/-- A node over the roots takes their place. -/
theorem store (h : Covers b b' roots) {data : NodeData} (hchildren : data.children = roots) :
    Covers b (b'.store data) [⟨b'.ast.size⟩] := by
  have hle := h.grown.size_le
  have hlast : (b'.store data).ast.childrenFrom b'.ast.size = roots := by
    rw [Ast.childrenFrom, toList_store, Ast.size_eq_length, List.drop_left, List.flatMap_singleton, hchildren]
  refine ⟨⟨h.grown.trans (b'.extends_store data), fun node hlt => ?_⟩, h.sound.store ?_, ?_⟩
  · rw [b'.get?_store_of_ne data (by omega), h.kept node hlt]
  · intro child hmem
    exact (h.mem_roots (hchildren ▸ hmem)).2
  · rw [(b'.extends_store data).childrenFrom hle, hlast, b'.size_store, keysBetween_succ hle, List.singleton_append]
    refine (List.perm_append_singleton _ _).symm.trans ?_
    exact (List.perm_append_comm.trans h.parents).append_right _

/-- The nodes under the roots are the new ones. -/
theorem below_iff (h : Covers b b' roots) {node : Node} :
    (∃ root ∈ roots, b'.ast.Below root node) ↔ b.ast.size ≤ node.index ∧ node.index < b'.ast.size := by
  constructor
  · rintro ⟨root, hroot, hbelow⟩
    have hbounds := h.mem_roots hroot
    clear hroot
    induction hbelow with
    | self => exact hbounds
    | under hchildren hmem _ ih =>
      obtain ⟨data, hdata, rfl⟩ := Ast.children_eq_ok_iff.1 hchildren
      have hchild := Ast.mem_childrenFrom.2 ⟨_, data, hbounds.1, hdata, hmem⟩
      exact ih (mem_keysBetween.1 (h.parents.mem_iff.1 (List.mem_append_right _ hchild)))
  · -- from the last node down: a node that is no root has a parent, which comes after it
    rintro ⟨hle, hlt⟩
    obtain ⟨gap, hgap⟩ : ∃ gap, b'.ast.size = node.index + gap := ⟨_, (Nat.add_sub_cancel' (Nat.le_of_lt hlt)).symm⟩
    induction gap using Nat.strongRecOn generalizing node with
    | _ gap ih =>
      rcases List.mem_append.1 (h.parents.mem_iff.2 (mem_keysBetween.2 ⟨hle, hlt⟩)) with hroot | hchild
      · exact ⟨node, hroot, .self node⟩
      · obtain ⟨parent, data, hparent, hdata, hmem⟩ := Ast.mem_childrenFrom.1 hchild
        have hbefore := h.sound.closed parent data hdata node hmem
        have hbound := Ast.lt_size_of_data hdata
        obtain ⟨root, hroot, hbelow⟩ :=
          ih (b'.ast.size - parent.index) (by omega) hparent hbound (by omega)
        exact ⟨root, hroot, hbelow.trans (.under (Ast.children_eq_ok_iff.2 ⟨data, hdata, rfl⟩) hmem (.self node))⟩

/-- Without roots there are no new nodes. -/
theorem size_eq_of_nil (h : Covers b b' []) : b'.ast.size = b.ast.size := by
  by_contra hne
  have hle := h.grown.size_le
  have hfirst : b.ast.size ≤ (Node.mk b.ast.size).index ∧ (Node.mk b.ast.size).index < b'.ast.size :=
    ⟨Nat.le_refl _, Nat.lt_of_le_of_ne hle (Ne.symm hne)⟩
  obtain ⟨root, hroot, -⟩ := h.below_iff.2 hfirst
  cases hroot

end Covers

/-! ## Growth by trees -/

/-- From `b` to `b'` the nodes of `trees` were made, under `roots`; the inner ones have the position that was current. -/
structure Grows (b b' : Builder) (roots : List Node) (trees : List Tree) : Prop extends Covers b b' roots where
  current : b'.current = b.current
  stands : List.Forall₂ b'.ast.Stands roots trees
  stamped : ∀ node, b.ast.size ≤ node.index → b'.ast.Inner node → b'.positions.get? node = b.current
  bare : ∀ node, b.ast.size ≤ node.index → ¬ b'.ast.Inner node → b'.positions.get? node = none

namespace Grows

variable {b b' b'' : Builder} {roots more : List Node} {trees others : List Tree}

theorem of_covers_nil (h : Covers b b' []) (hcurrent : b'.current = b.current) : Grows b b' [] [] := by
  have hsize := h.size_eq_of_nil
  refine ⟨h, hcurrent, .nil, fun node hle hinner => ?_, fun node hle _ => ?_⟩
  · have := hinner.lt_size
    omega
  · exact h.sound.unrecorded node (by omega)

theorem append (h : Grows b b' roots trees) (h' : Grows b' b'' more others) :
    Grows b b'' (roots ++ more) (trees ++ others) := by
  refine ⟨h.toCovers.append h'.toCovers, h'.current.trans h.current, ?_, fun node hle hinner => ?_,
    fun node hle hleaf => ?_⟩
  · exact List.rel_append (h.stands.imp fun _ _ => Ast.Stands.extends h'.grown) h'.stands
  · by_cases hlt : node.index < b'.ast.size
    · rw [h'.kept node hlt]
      exact h.stamped node hle ((h'.grown.inner_iff hlt).1 hinner)
    · rw [h'.stamped node (by omega) hinner, h.current]
  · by_cases hlt : node.index < b'.ast.size
    · rw [h'.kept node hlt]
      exact h.bare node hle fun hinner => hleaf ((h'.grown.inner_iff hlt).2 hinner)
    · exact h'.bare node (by omega) hleaf

/-- The tree built last may stand in front. -/
theorem front {root : Node} {tree : Tree} (h : Grows b b' (roots ++ [root]) (trees ++ [tree])) :
    Grows b b' (root :: roots) (tree :: trees) := by
  refine ⟨h.toCovers.perm (List.perm_append_singleton root roots).symm, h.current, ?_, h.stamped, h.bare⟩
  have hreverse := List.forall₂_reverse_iff.2 h.stands
  rw [List.reverse_append, List.reverse_append] at hreverse
  obtain ⟨hlast, hrest⟩ := List.forall₂_cons.1 hreverse
  exact .cons hlast (List.forall₂_reverse_iff.1 hrest)

/-- A node over the trees built so far, for which `tree` stands. -/
theorem store (h : Grows b b' roots trees) {data : NodeData} {tree : Tree} (hchildren : data.children = roots)
    (hstands : (b'.store data).ast.Stands ⟨b'.ast.size⟩ tree) :
    Grows b (b'.store data) [⟨b'.ast.size⟩] [tree] := by
  have hcovers := h.toCovers.store hchildren
  have hdata := b'.data_store data
  refine ⟨hcovers, h.current, .cons hstands .nil, fun node hle hinner => ?_, fun node hle hleaf => ?_⟩
  · by_cases hnode : node.index = b'.ast.size
    · obtain rfl : node = ⟨b'.ast.size⟩ := Node.ext_index hnode
      have hkind := (Ast.inner_iff hdata).1 hinner
      rw [h.sound.get?_store, hkind, ← h.current]
      rfl
    · have hlt := hinner.lt_size
      rw [b'.size_store] at hlt
      rw [b'.get?_store_of_ne data hnode]
      exact h.stamped node hle (((b'.extends_store data).inner_iff (by omega)).1 hinner)
  · by_cases hnode : node.index = b'.ast.size
    · obtain rfl : node = ⟨b'.ast.size⟩ := Node.ext_index hnode
      have hkind : data.kind.isLeaf = true := by
        rw [Ast.inner_iff hdata] at hleaf
        simpa using hleaf
      rw [h.sound.get?_store, hkind]
      rfl
    · rw [b'.get?_store_of_ne data hnode]
      by_cases hlt : node.index < b'.ast.size
      · exact h.bare node hle fun hinner => hleaf (((b'.extends_store data).inner_iff hlt).2 hinner)
      · exact h.sound.unrecorded node (by omega)

/-- An inner node over the trees built so far. -/
theorem interior (h : Grows b b' roots trees) {kind : NodeKind} (hkind : kind ≠ .block) :
    Grows b (b'.store (.interior kind roots)) [⟨b'.ast.size⟩] [.node kind trees] := by
  have hsound : (b'.store (.interior kind roots)).Sound := (h.toCovers.store rfl).sound
  have hchildren := h.stands.imp fun _ _ => Ast.Stands.extends (b'.extends_store (.interior kind roots))
  exact h.store rfl (.interior (b'.data_store _) hsound.closed hkind hchildren)

end Grows

end Builder

end FunctionTrees
