import FunctionTrees.Arena
import FunctionTrees.Proofs.Outcome
import Mathlib.Data.List.Induction

/-!
# Values stored one after the other

* `KeyKind.key_eq_ok_iff`, `KeyKind.key_eq_error_iff` : which slots a kind of key can name;
* `Arena.insertAll kind values` : stores values one after the other, whether or not they get keys;
* `Arena.answers_insertAll` : the slots are offered as keys in order;
* `Arena.toList_insertAll` : every value is stored, also one that gets no key;
* `Arena.answer_eq_ok_iff`, `Arena.exists_insert_of_get?` : a key is handed out by the insert of the slot which it names,
  and stands for the value of that insert.
-/

set_option autoImplicit false

namespace FunctionTrees

/-! ## Keys -/

namespace KeyKind

variable {kind : KeyKind} {index key : Nat} {error : Misuse}

theorem key_eq_ok_iff : kind.key index = .ok key ↔ index ≤ kind.limit ∧ index = key := by
  unfold KeyKind.key
  split
  next hle => simp [hle]
  next hlt => simp [hlt]

theorem key_eq_error_iff : kind.key index = .error error ↔ kind.limit < index ∧ .unrepresentableKey = error := by
  unfold KeyKind.key
  split
  next hle => simp [Nat.not_lt.2 hle]
  next hlt => simp [Nat.lt_of_not_le hlt]

/-- A value with the key of its slot, as `Arena.entries` makes it. -/
theorem map_key_eq_ok_iff {α : Type} {value : α} {entry : Nat × α} :
    ((kind.key index).map fun key => (key, value)) = .ok entry ↔ index ≤ kind.limit ∧ (index, value) = entry := by
  rw [Outcome.map_eq_ok_iff]
  simp [key_eq_ok_iff]

theorem map_key_eq_error_iff {α : Type} {value : α} :
    ((kind.key index).map fun key => (key, value)) = .error error ↔
      kind.limit < index ∧ .unrepresentableKey = error := by
  rw [← key_eq_error_iff]
  cases kind.key index <;> simp [Except.map]

end KeyKind

/-! ## Runs -/

namespace Arena

variable {α : Type}

theorem size_eq_length (arena : Arena α) : arena.size = arena.toList.length := (Array.length_toList).symm

theorem get?_eq_getElem? (arena : Arena α) (key : Nat) : arena.get? key = arena.toList[key]? :=
  (Array.getElem?_toList).symm

theorem lt_size_of_get? {arena : Arena α} {key : Nat} {value : α} (h : arena.get? key = some value) :
    key < arena.size := by
  rw [get?_eq_getElem?] at h
  rw [size_eq_length]
  exact (List.getElem?_eq_some_iff.1 h).1

theorem contains_iff {arena : Arena α} {key : Nat} : arena.contains key = true ↔ key < arena.size := by
  rw [contains, decide_eq_true_iff]

/-- Stores values one after the other: for each its key, or why it has none. A value without a key does not end the
run. -/
def insertAll (kind : KeyKind) (values : List α) : StateM (Arena α) (List (Except Misuse Nat)) :=
  values.mapM fun value arena => arena.insert kind value

theorem run_insertAll_concat (kind : KeyKind) (values : List α) (value : α) (arena : Arena α) :
    (insertAll kind (values ++ [value])).run arena =
      (((insertAll kind values).run arena).1 ++ [kind.key ((insertAll kind values).run arena).2.size],
        ((insertAll kind values).run arena).2.push value) :=
  Outcome.run_mapM_append _ values [value] arena

theorem toList_insertAll (kind : KeyKind) (values : List α) (arena : Arena α) :
    ((insertAll kind values).run arena).2.toList = arena.toList ++ values := by
  induction values using List.reverseRecOn with
  | nil => exact (List.append_nil _).symm
  | append_singleton values value ih =>
    rw [run_insertAll_concat, toList_push, ih, List.append_assoc]

theorem answers_insertAll (kind : KeyKind) (values : List α) (arena : Arena α) :
    ((insertAll kind values).run arena).1 = (List.range' arena.size values.length).map kind.key := by
  induction values using List.reverseRecOn with
  | nil => rfl
  | append_singleton values value ih =>
    have hsize : ((insertAll kind values).run arena).2.size = arena.size + values.length := by
      rw [size_eq_length, toList_insertAll, List.length_append, size_eq_length]
    rw [run_insertAll_concat, ih, hsize, List.length_append, List.length_singleton, List.range'_1_concat,
      List.map_append, List.map_singleton]

theorem getElem?_answers (kind : KeyKind) (values : List α) (place : Nat) :
    ((insertAll kind values).run {}).1[place]? = values[place]?.map fun _ => kind.key place := by
  rw [answers_insertAll, List.getElem?_map]
  by_cases hlt : place < values.length
  · rw [List.getElem?_range' hlt, List.getElem?_eq_getElem hlt]
    simp [size]
  · rw [List.getElem?_eq_none (by simpa using hlt), List.getElem?_eq_none (Nat.not_lt.1 hlt)]
    rfl

/-- A key is handed out by one insert, that of the slot which it names. -/
theorem answer_eq_ok_iff {kind : KeyKind} {values : List α} {place key : Nat} :
    ((insertAll kind values).run {}).1[place]? = some (.ok key) ↔
      place = key ∧ key < values.length ∧ key ≤ kind.limit := by
  rw [getElem?_answers, Option.map_eq_some_iff]
  constructor
  · rintro ⟨value, hvalue, hkey⟩
    obtain ⟨hle, rfl⟩ := KeyKind.key_eq_ok_iff.1 hkey
    obtain ⟨hlt, -⟩ := List.getElem?_eq_some_iff.1 hvalue
    exact ⟨rfl, hlt, hle⟩
  · rintro ⟨rfl, hlt, hle⟩
    exact ⟨values[place], List.getElem?_eq_getElem hlt, KeyKind.key_eq_ok_iff.2 ⟨hle, rfl⟩⟩

/-- What is stored under a key that was handed out is the value of the only insert that has handed it out. -/
theorem exists_insert_of_get? {kind : KeyKind} {values : List α} {answers : List (Except Misuse Nat)}
    {arena : Arena α} {key : Nat} {value : α} (h : arena.size ≤ kind.limit + 1) (hget : arena.get? key = some value)
    (hrun : (insertAll kind values).run {} = (answers, arena)) :
    ∃ place : Nat, values[place]? = some value ∧
      ∀ other : Nat, answers[other]? = some (.ok key) ↔ other = place := by
  have hlt := lt_size_of_get? hget
  have hvalues : arena.toList = values := by
    have hlist := toList_insertAll kind values {}
    rw [hrun] at hlist
    exact hlist
  have hanswers : answers = ((insertAll kind values).run {}).1 := by rw [hrun]
  rw [get?_eq_getElem?, hvalues] at hget
  rw [size_eq_length, hvalues] at h hlt
  refine ⟨key, hget, fun other => ?_⟩
  rw [hanswers, answer_eq_ok_iff]
  exact and_iff_left ⟨hlt, by omega⟩

end Arena

end FunctionTrees
