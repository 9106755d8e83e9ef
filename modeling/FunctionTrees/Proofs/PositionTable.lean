import FunctionTrees.PositionTable
import Mathlib.Data.List.Induction
import Mathlib.Data.List.Nodup

/-!
# The last position recorded for a node counts

* `find?_putFalling` : what is found after one more entry;
* `get?_record` : recording gives one node its position and leaves all others theirs;
* `mem_entries_iff` : the entries are the nodes with the positions that are found for them;
* `ext_get?` : a table is known by what is found in it;
* `ofList_of_perm` : the entries of a table make that table, in whatever order.
-/

set_option autoImplicit false

namespace FunctionTrees.PositionTable

theorem find?_putFalling (node other : Node) (position : Position) (entries : List (Node × Position)) :
    (putFalling node position entries).find? (fun entry => entry.1 == other) =
      if other = node then some (node, position) else entries.find? fun entry => entry.1 == other := by
  induction entries with
  | nil =>
    by_cases h : other = node
    · simp [putFalling, h]
    · simp [putFalling, h, Ne.symm h]
  | cons head rest ih =>
    rw [putFalling]
    split
    next =>
      by_cases h : other = node
      · simp [h]
      · simp [h, Ne.symm h]
    next =>
      split
      next heq =>
        by_cases h : other = node
        · simp [h]
        · simp [heq, h, Ne.symm h]
      next hne =>
        -- the entry at the head belongs to another node, so it hides nothing of `node`
        by_cases hhead : head.1 = other
        · have hother : other ≠ node := fun h => hne (hhead.trans h)
          simp [hhead, hother]
        · simp [hhead, ih]

theorem get?_record (table : PositionTable) (node other : Node) (position : Position) :
    (table.record node position).2.get? other = if other = node then some position else table.get? other := by
  unfold record get?
  rw [find?_putFalling]
  split <;> rfl

theorem nodup_nodes (table : PositionTable) : (table.entries.map Prod.fst).Nodup := by
  rw [List.nodup_iff_pairwise_ne, List.pairwise_map]
  apply table.falling.imp
  rintro ⟨node, _⟩ ⟨other, _⟩ hlt rfl
  exact Nat.lt_irrefl _ hlt

theorem of_find? {table : PositionTable} {node : Node} {entry : Node × Position}
    (h : table.entries.find? (fun entry => entry.1 == node) = some entry) :
    entry ∈ table.entries ∧ entry.1 = node := by
  have hnode := List.find?_some (p := fun entry : Node × Position => entry.1 == node) h
  exact ⟨List.mem_of_find?_eq_some h, beq_iff_eq.1 hnode⟩

theorem mem_entries_iff {table : PositionTable} {node : Node} {position : Position} :
    (node, position) ∈ table.entries ↔ table.get? node = some position := by
  unfold get?
  rw [Option.map_eq_some_iff]
  constructor
  · intro hmem
    have hsome : (table.entries.find? fun entry => entry.1 == node).isSome :=
      List.find?_isSome.2 ⟨_, hmem, beq_self_eq_true node⟩
    obtain ⟨entry, hentry⟩ := Option.isSome_iff_exists.1 hsome
    obtain ⟨hentries, hnode⟩ := of_find? hentry
    rw [List.inj_on_of_nodup_map table.nodup_nodes hentries hmem hnode] at hentry
    exact ⟨_, hentry, rfl⟩
  · rintro ⟨⟨other, position⟩, hentry, rfl⟩
    obtain ⟨hmem, rfl⟩ := of_find? hentry
    exact hmem

/-! ## Tables from their entries -/

/-- A table is known by what is found in it. -/
theorem ext_get? {table other : PositionTable} (h : ∀ node, table.get? node = other.get? node) : table = other := by
  have hmem : ∀ entry, entry ∈ table.entries ↔ entry ∈ other.entries := by
    rintro ⟨node, position⟩
    rw [mem_entries_iff, mem_entries_iff, h]
  have hperm : table.entries.Perm other.entries :=
    (List.perm_ext_iff_of_nodup table.nodup_nodes.of_map other.nodup_nodes.of_map).2 hmem
  have hentries : table.entries = other.entries :=
    hperm.eq_of_pairwise (fun _ _ _ _ hlt hlt' => absurd hlt (Nat.lt_asymm hlt')) table.falling other.falling
  cases table
  cases other
  cases hentries
  rfl

theorem ofList_concat (entries : List (Node × Position)) (last : Node × Position) :
    ofList (entries ++ [last]) = ((ofList entries).record last.1 last.2).2 :=
  List.foldl_append

theorem mem_of_mem_ofList {entries : List (Node × Position)} {entry : Node × Position}
    (h : entry ∈ (ofList entries).entries) : entry ∈ entries := by
  induction entries using List.reverseRecOn with
  | nil => exact h
  | append_singleton entries last ih =>
    rw [ofList_concat] at h
    rw [List.mem_append, List.mem_singleton]
    exact (mem_putFalling h).symm.imp ih id

/-- Entries of distinct nodes are all found. -/
theorem get?_ofList {entries : List (Node × Position)} (h : (entries.map Prod.fst).Nodup) (node : Node)
    (position : Position) : (ofList entries).get? node = some position ↔ (node, position) ∈ entries := by
  induction entries using List.reverseRecOn with
  | nil => simp [ofList, get?]
  | append_singleton entries entry ih =>
    obtain ⟨last, known⟩ := entry
    rw [List.map_append, List.nodup_append] at h
    obtain ⟨hnodup, -, hdisjoint⟩ := h
    rw [ofList_concat, get?_record, List.mem_append, List.mem_singleton, Prod.mk.injEq]
    split
    next hlast =>
      subst hlast
      have hnew : (node, position) ∉ entries := by
        intro hmem
        exact hdisjoint node (List.mem_map_of_mem hmem) node (List.mem_singleton_self node) rfl
      simp [hnew, eq_comm]
    next hother =>
      rw [ih hnodup]
      simp [hother]

/-- The entries of a table make the table, in whatever order. -/
theorem ofList_of_perm {table : PositionTable} {entries : List (Node × Position)} (h : entries.Perm table.toList) :
    ofList entries = table := by
  have hmem : ∀ entry, entry ∈ entries ↔ entry ∈ table.entries := by
    intro entry
    rw [h.mem_iff, toList, List.mem_reverse]
  have hnodup : (entries.map Prod.fst).Nodup := by
    rw [(h.map Prod.fst).nodup_iff, toList, List.map_reverse, List.nodup_reverse]
    exact table.nodup_nodes
  apply ext_get?
  intro node
  apply Option.ext
  intro position
  rw [get?_ofList hnodup, hmem, mem_entries_iff]

end FunctionTrees.PositionTable
