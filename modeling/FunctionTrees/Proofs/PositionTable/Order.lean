import FunctionTrees.Proofs.Outcome
import FunctionTrees.Proofs.PositionTable
import Mathlib.Data.Finset.Card

/-!
# Tables in whatever order they are filled and kept

* `recordAll records` : records positions one after the other; `lastOf records node` : the last one for a node;
* `get?_ofList_eq_lastOf` : what is found is what was recorded last;
* `toList_increasing`, `eq_toList_of_sorted` : the nodes of a table are listed in rising order, and its entries can be
  put in the order of their nodes in no other way;
* `Scattered records entries` : the entries of a hash map after the records, in whatever order it keeps them;
  `scattered_iff_perm` : these are the entries of the table, in all orders;
* `LastWins records answers table`, `lastWins_recordAll` : what a run of records has done.
-/

set_option autoImplicit false

namespace FunctionTrees.PositionTable

variable {records entries : List (Node × Position)} {node other : Node} {position : Position} {table : PositionTable}

/-! ## What was recorded last -/

def lastOf (records : List (Node × Position)) (node : Node) : Option Position :=
  (records.filter fun record => record.1 = node).getLast?.map Prod.snd

@[simp] theorem lastOf_nil (node : Node) : lastOf [] node = none := rfl

theorem lastOf_concat (records : List (Node × Position)) (node other : Node) (position : Position) :
    lastOf (records ++ [(node, position)]) other = if other = node then some position else lastOf records other := by
  unfold lastOf
  by_cases h : other = node
  · simp [h]
  · simp [h, Ne.symm h]

theorem lastOf_eq_none_iff : lastOf records node = none ↔ node ∉ records.map Prod.fst := by
  rw [lastOf, Option.map_eq_none_iff, List.getLast?_eq_none_iff, List.filter_eq_nil_iff]
  simp only [decide_eq_true_eq, List.mem_map, not_exists, not_and]

theorem get?_ofList_eq_lastOf (records : List (Node × Position)) (node : Node) :
    (ofList records).get? node = lastOf records node := by
  induction records using List.reverseRecOn with
  | nil => rfl
  | append_singleton records record ih => rw [ofList_concat, get?_record, lastOf_concat, ih]

/-! ## Runs -/

/-- Records positions one after the other, and tells which ones they have replaced. -/
def recordAll (records : List (Node × Position)) : StateM PositionTable (List (Option Position)) :=
  records.mapM fun record table => table.record record.1 record.2

theorem run_recordAll_concat (records : List (Node × Position)) (last : Node × Position) :
    (recordAll (records ++ [last])).run {} =
      (((recordAll records).run {}).1 ++ [((recordAll records).run {}).2.get? last.1],
        (((recordAll records).run {}).2.record last.1 last.2).2) := by
  rw [recordAll, Outcome.run_mapM_append]
  rfl

theorem table_recordAll (records : List (Node × Position)) : ((recordAll records).run {}).2 = ofList records := by
  induction records using List.reverseRecOn with
  | nil => rfl
  | append_singleton records record ih => rw [run_recordAll_concat, ofList_concat, ih]

theorem answers_recordAll (records : List (Node × Position)) :
    ((recordAll records).run {}).1 =
      records.zipIdx.map fun (record, index) => lastOf (records.take index) record.1 := by
  induction records using List.reverseRecOn with
  | nil => rfl
  | append_singleton records record ih =>
    rw [Outcome.map_zipIdx_concat (fun earlier record => lastOf earlier record.1), run_recordAll_concat, ih,
      table_recordAll, get?_ofList_eq_lastOf]

theorem size_ofList (records : List (Node × Position)) :
    (ofList records).size = (records.map Prod.fst).toFinset.card := by
  have hsame : (records.map Prod.fst).toFinset = ((ofList records).entries.map Prod.fst).toFinset := by
    ext node
    rw [List.mem_toFinset, List.mem_toFinset, ← not_iff_not, ← lastOf_eq_none_iff, ← get?_ofList_eq_lastOf]
    simp [Option.eq_none_iff_forall_ne_some, ← mem_entries_iff]
  rw [hsame, List.toFinset_card_of_nodup (nodup_nodes _), List.length_map, size]

/-! ## Entries in order -/

theorem mem_toList_iff : (node, position) ∈ table.toList ↔ table.get? node = some position := by
  rw [toList, List.mem_reverse, mem_entries_iff]

theorem toList_increasing (table : PositionTable) : table.toList.Pairwise fun a b => a.1.index < b.1.index :=
  List.pairwise_reverse.2 table.falling

theorem nodup_indices (table : PositionTable) : (table.toList.map fun entry => entry.1.index).Nodup :=
  List.pairwise_map.2 (table.toList_increasing.imp Nat.ne_of_lt)

/-- Since each node has one entry only, the order of the nodes leaves no choice. -/
theorem eq_toList_of_sorted (h : entries.Perm table.toList)
    (hsorted : entries.Pairwise fun a b => a.1.index ≤ b.1.index) : entries = table.toList := by
  have hincreasing : table.toList.Pairwise fun a b => a.1.index ≤ b.1.index :=
    table.toList_increasing.imp Nat.le_of_lt
  refine h.eq_of_pairwise (fun a b ha hb hab hba => ?_) hsorted hincreasing
  exact List.inj_on_of_nodup_map table.nodup_indices (h.subset ha) hb (Nat.le_antisymm hab hba)

/-! ## Entries in any order -/

/-- The entries of a hash map after records. A record puts the entry of its node in place of an earlier one, and may
change the order of them all. -/
inductive Scattered : List (Node × Position) → List (Node × Position) → Prop where
  | empty : Scattered [] []
  | record {records entries entries' : List (Node × Position)} {node : Node} {position : Position} :
      Scattered records entries →
      entries'.Perm ((node, position) :: entries.filter fun entry => entry.1 ≠ node) →
      Scattered (records ++ [(node, position)]) entries'

/-- Each recorded node stands among the entries once, with its last position. -/
structure Lists (records entries : List (Node × Position)) : Prop where
  nodup : (entries.map Prod.fst).Nodup
  mem_iff : ∀ node position, (node, position) ∈ entries ↔ lastOf records node = some position

theorem lists_nil : Lists [] [] := ⟨List.nodup_nil, by simp⟩

theorem lists_toList (records : List (Node × Position)) : Lists records (ofList records).toList where
  nodup := by
    rw [toList, List.map_reverse, List.nodup_reverse]
    exact nodup_nodes _
  mem_iff node position := by rw [mem_toList_iff, get?_ofList_eq_lastOf]

theorem Lists.perm (h : Lists records entries) : entries.Perm (ofList records).toList := by
  have h' := lists_toList records
  refine (List.perm_ext_iff_of_nodup h.nodup.of_map h'.nodup.of_map).2 fun entry => ?_
  rw [h.mem_iff, h'.mem_iff]

/-- What one record keeps. -/
theorem Lists.record (h : Lists records entries) (node : Node) (position : Position) :
    Lists (records ++ [(node, position)]) ((node, position) :: entries.filter fun entry => entry.1 ≠ node) where
  nodup := by
    have hkept : ((entries.filter fun entry => entry.1 ≠ node).map Prod.fst).Nodup :=
      h.nodup.sublist (List.filter_sublist.map Prod.fst)
    rw [List.map_cons, List.nodup_cons]
    exact ⟨by simp, hkept⟩
  mem_iff other position' := by
    rw [lastOf_concat, List.mem_cons, List.mem_filter, h.mem_iff]
    by_cases hother : other = node
    · simp [hother, eq_comm]
    · simp [hother]

theorem Lists.of_perm {entries' : List (Node × Position)} (h : Lists records entries) (hperm : entries'.Perm entries) :
    Lists records entries' where
  nodup := (hperm.map Prod.fst).nodup_iff.2 h.nodup
  mem_iff node position := by rw [hperm.mem_iff, h.mem_iff]

/-- What all records keep. -/
theorem Scattered.lists (h : Scattered records entries) : Lists records entries := by
  induction h with
  | empty => exact lists_nil
  | record _ hperm ih => exact (ih.record _ _).of_perm hperm

/-- Every order of the entries can come up, and nothing else. -/
theorem scattered_iff_perm : Scattered records entries ↔ entries.Perm (ofList records).toList := by
  refine ⟨fun h => h.lists.perm, fun h => ?_⟩
  induction records using List.reverseRecOn generalizing entries with
  | nil => exact h.eq_nil ▸ .empty
  | append_singleton records record ih =>
    -- the last record may change the order, so it does not matter in which one it has found the entries
    have hlists := ((lists_toList records).record record.1 record.2).perm
    exact .record (ih (.refl _)) (h.trans hlists.symm)

/-! ## The table -/

/-- What a run of records on a new table has done. -/
structure LastWins (records : List (Node × Position)) (answers : List (Option Position)) (table : PositionTable) :
    Prop where
  get?_eq : ∀ node, table.get? node = lastOf records node
  /-- Each record told what had been recorded for its node before. -/
  answers_eq : answers = records.zipIdx.map fun (record, index) => lastOf (records.take index) record.1
  /-- One more record tells what is found for its node, and changes that alone. -/
  record_eq : ∀ node position, (table.record node position).1 = table.get? node ∧
    (table.record node position).2.get? node = some position ∧
      ∀ other, other ≠ node → (table.record node position).2.get? other = table.get? other
  size_eq : table.size = (records.map Prod.fst).toFinset.card
  /-- The nodes are listed with their last positions, ... -/
  mem_iff : ∀ node position, (node, position) ∈ table.toList ↔ lastOf records node = some position
  /-- ... in rising order, so no node twice. -/
  increasing : table.toList.Pairwise fun a b => a.1.index < b.1.index
  /-- In whatever order a hash map keeps the entries, it has as many of them, it holds the same position for each node,
  and they are put in the order of the list by any way of sorting them by their nodes. -/
  scattered : ∀ entries, Scattered records entries → entries.length = table.size ∧
    (∀ node position, (node, position) ∈ entries ↔ table.get? node = some position) ∧
      ∀ sorted : List (Node × Position), sorted.Perm entries →
        (sorted.Pairwise fun a b => a.1.index ≤ b.1.index) → sorted = table.toList
  /-- Tables in which the same is found are listed alike, however they were filled. -/
  alike : ∀ records', (∀ node, lastOf records' node = lastOf records node) →
    ((recordAll records').run {}).2.toList = table.toList

/-- However a table is filled, the last position recorded for each node counts. -/
theorem lastWins_recordAll (records : List (Node × Position)) :
    LastWins records ((recordAll records).run {}).1 ((recordAll records).run {}).2 := by
  rw [table_recordAll]
  refine ⟨get?_ofList_eq_lastOf records, answers_recordAll records, fun node position => ?_, size_ofList records,
    (lists_toList records).mem_iff, toList_increasing _, fun entries h => ?_, fun records' h => ?_⟩
  · refine ⟨rfl, ?_, fun other hother => ?_⟩
    · rw [get?_record, if_pos rfl]
    · rw [get?_record, if_neg hother]
  · have hperm := scattered_iff_perm.1 h
    refine ⟨?_, fun node position => ?_, fun sorted hsorted hordered => ?_⟩
    · rw [hperm.length_eq, toList, List.length_reverse, size]
    · rw [hperm.mem_iff, mem_toList_iff]
    · exact eq_toList_of_sorted (hsorted.trans hperm) hordered
  · have hsame : ofList records' = ofList records :=
      ext_get? fun node => by rw [get?_ofList_eq_lastOf, get?_ofList_eq_lastOf, h]
    rw [table_recordAll, hsame]

end FunctionTrees.PositionTable
