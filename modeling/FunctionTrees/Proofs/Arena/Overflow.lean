import FunctionTrees.Proofs.Arena.Cursor
import Mathlib.Data.List.Zip

/-!
# Inserts beyond the last key

A value is stored before a key is made of its slot, so it is stored also where there is no key for it any more.

* `fullWalk`, `walk_full` : walks from one end until nothing is given;
* `Walked`, `walked_of_size_le`, `Stuck`, `stuck_of_lt_size` : when the keys and entries of an arena can be listed and
  walked;
* `Stores kind values answers arena` : what a run of inserts leaves, `stores_insertAll`;
* `stored_without_key` : the first insert that fails leaves a value behind.
-/

set_option autoImplicit false

namespace FunctionTrees.Arena

open Outcome

variable {α β : Type} {kind : KeyKind} {arena : Arena α}

/-! ## Full walks -/

/-- The moves that walk an arena from one end until nothing is given. -/
def fullWalk (arena : Arena α) (side : End) : List End := List.replicate (arena.size + 1) side

def inTurn (items : List β) : End → List β
  | .front => items
  | .back => items.reverse

theorem inTurn_putOn (item : β) (items : List β) (side : End) :
    inTurn (putOn item items side) side = item :: inTurn items side := by
  cases side <;> simp [inTurn, putOn]

theorem mem_inTurn {items : List β} {side : End} {item : β} : item ∈ inTurn items side ↔ item ∈ items := by
  cases side <;> simp [inTurn]

theorem walk_full (items : List β) (side : End) :
    (walk takeOff items (List.replicate (items.length + 1) side)).map Prod.fst =
      (inTurn items side).map some ++ [none] := by
  induction hlength : items.length generalizing items with
  | zero =>
    obtain rfl := List.eq_nil_of_length_eq_zero hlength
    cases side <;> rfl
  | succ count ih =>
    rcases eq_nil_or_putOn items side with rfl | ⟨item, rest, rfl⟩
    · cases hlength
    · have hrest : rest.length = count := by simpa [(putOn_perm item rest side).length_eq] using hlength
      rw [List.replicate_succ, walk, takeOff_putOn, List.map_cons, ih rest hrest, inTurn_putOn]
      rfl

theorem walkKeys_full (arena : Arena α) (side : End) :
    (walk KeyCursor.step (.ofSize arena.size) (arena.fullWalk side)).map Prod.fst =
      (inTurn (List.range arena.size) side).map some ++ [none] := by
  have hfull := walk_full (List.range arena.size) side
  rw [List.length_range, walk_range, List.map_map] at hfull
  exact hfull

theorem walkEntries_full (arena : Arena α) (side : End) :
    (walk EntryCursor.step (.ofArena arena) (arena.fullWalk side)).map Prod.fst =
      (inTurn ((List.range arena.size).zip arena.toList) side).map some ++ [none] := by
  have hfull := walk_full ((List.range arena.size).zip arena.toList) side
  have hlength : ((List.range arena.size).zip arena.toList).length = arena.size := by simp [size_eq_length]
  rw [hlength, walk_zip, List.map_map] at hfull
  exact hfull

/-- A full walk gets to the last slot. -/
theorem last_mem_walkKeys (h : kind.limit + 1 < arena.size) (side : End) :
    arena.size - 1 ∈ (walk KeyCursor.step (.ofSize arena.size) (arena.fullWalk side)).filterMap Prod.fst := by
  have hlast : arena.size - 1 ∈ inTurn (List.range arena.size) side :=
    mem_inTurn.2 (List.mem_range.2 (by omega))
  have hmem :
      some (arena.size - 1) ∈ (walk KeyCursor.step (.ofSize arena.size) (arena.fullWalk side)).map Prod.fst := by
    rw [walkKeys_full]
    exact List.mem_append_left _ (List.mem_map_of_mem hlast)
  exact List.mem_filterMap.2 (List.mem_map.1 hmem)

/-! ## Lists of keys and entries -/

theorem keys_eq_ok (h : arena.size ≤ kind.limit + 1) : arena.keys kind = .ok (List.range arena.size) := by
  unfold keys
  rw [mapM_eq_ok_iff, List.forall₂_same]
  intro key hkey
  rw [List.mem_range] at hkey
  exact KeyKind.key_eq_ok_iff.2 ⟨by omega, rfl⟩

theorem keys_eq_error (h : kind.limit + 1 < arena.size) : arena.keys kind = .error .unrepresentableKey := by
  apply mapM_eq_error
  · exact fun index _ error herror => (KeyKind.key_eq_error_iff.1 herror).2.symm
  · exact ⟨kind.limit + 1, List.mem_range.2 h, _, KeyKind.key_eq_error_iff.2 ⟨Nat.lt_succ_self _, rfl⟩⟩

theorem zipIdx_eq_map_swap (items : List α) :
    items.zipIdx = ((List.range items.length).zip items).map Prod.swap := by
  rw [List.zip_swap, List.zipIdx_eq_zip_range', List.range_eq_range']

theorem entries_eq (kind : KeyKind) (arena : Arena α) :
    arena.entries kind = ((List.range arena.size).zip arena.toList).mapM fun (index, value) =>
      (kind.key index).map fun key => (key, value) := by
  unfold entries
  rw [zipIdx_eq_map_swap, size_eq_length, List.mapM_map]
  rfl

theorem entries_eq_ok (h : arena.size ≤ kind.limit + 1) :
    arena.entries kind = .ok ((List.range arena.size).zip arena.toList) := by
  rw [entries_eq, mapM_eq_ok_iff, List.forall₂_same]
  rintro ⟨index, value⟩ hmem
  have hlt := List.mem_range.1 (List.of_mem_zip hmem).1
  exact KeyKind.map_key_eq_ok_iff.2 ⟨by omega, rfl⟩

theorem entries_eq_error (h : kind.limit + 1 < arena.size) : arena.entries kind = .error .unrepresentableKey := by
  have hlast : kind.limit + 1 < arena.toList.length := size_eq_length arena ▸ h
  have hmem : (kind.limit + 1, arena.toList[kind.limit + 1]) ∈ (List.range arena.size).zip arena.toList := by
    rw [size_eq_length]
    exact mem_zip_range.2 (List.getElem?_eq_getElem hlast)
  rw [entries_eq]
  apply mapM_eq_error
  · exact fun entry _ error herror => (KeyKind.map_key_eq_error_iff.1 herror).2.symm
  · exact ⟨_, hmem, _, KeyKind.map_key_eq_error_iff.2 ⟨Nat.lt_succ_self _, rfl⟩⟩

/-! ## What can be walked -/

/-- The keys and entries of an arena can be listed, and walked in full from either end. -/
structure Walked (kind : KeyKind) (arena : Arena α) (keys : List Nat) : Prop where
  keys_eq : arena.keys kind = .ok keys
  entries_eq : arena.entries kind = .ok (keys.zip arena.toList)
  walkKeys_eq : ∀ side, (arena.walkKeys kind (arena.fullWalk side)).map (List.map Prod.fst) =
    .ok ((inTurn keys side).map some ++ [none])
  walkEntries_eq : ∀ side, (arena.walkEntries kind (arena.fullWalk side)).map (List.map Prod.fst) =
    .ok ((inTurn (keys.zip arena.toList) side).map some ++ [none])

structure Stuck (kind : KeyKind) (arena : Arena α) : Prop where
  keys_eq : arena.keys kind = .error .unrepresentableKey
  entries_eq : arena.entries kind = .error .unrepresentableKey
  walkKeys_eq : ∀ side, arena.walkKeys kind (arena.fullWalk side) = .error .unrepresentableKey
  walkEntries_eq : ∀ side, arena.walkEntries kind (arena.fullWalk side) = .error .unrepresentableKey

theorem walked_of_size_le (h : arena.size ≤ kind.limit + 1) : Walked kind arena (List.range arena.size) := by
  refine ⟨keys_eq_ok h, entries_eq_ok h, fun side => ?_, fun side => ?_⟩
  · rw [walkKeys_eq_ok h, ← walkKeys_full]
    rfl
  · rw [walkEntries_eq_ok h, ← walkEntries_full]
    rfl

theorem stuck_of_lt_size (h : kind.limit + 1 < arena.size) : Stuck kind arena := by
  have hlast : kind.limit < arena.size - 1 := by omega
  refine ⟨keys_eq_error h, entries_eq_error h, fun side => ?_, fun side => ?_⟩
  · exact walkKeys_eq_error hlast (last_mem_walkKeys h side)
  · exact walkEntries_eq_error hlast (last_mem_walkKeys h side)

/-! ## Runs of inserts -/

def handed (answers : List (Except Misuse Nat)) : List Nat := answers.filterMap Except.toOption

theorem handed_range (kind : KeyKind) (count : Nat) :
    handed ((List.range count).map kind.key) = List.range (min count (kind.limit + 1)) := by
  unfold handed
  induction count with
  | zero => simp
  | succ count ih =>
    rw [List.range_succ, List.map_append, List.filterMap_append, ih]
    by_cases hle : count ≤ kind.limit
    · have hkey : kind.key count = .ok count := KeyKind.key_eq_ok_iff.2 ⟨hle, rfl⟩
      have hmin : min count (kind.limit + 1) = count := by omega
      have hmin' : min (count + 1) (kind.limit + 1) = count + 1 := by omega
      rw [hmin, hmin', List.range_succ, List.map_singleton, hkey]
      rfl
    · have hkey : kind.key count = .error .unrepresentableKey :=
        KeyKind.key_eq_error_iff.2 ⟨Nat.lt_of_not_le hle, rfl⟩
      have hmin : min (count + 1) (kind.limit + 1) = min count (kind.limit + 1) := by omega
      rw [hmin, List.map_singleton, hkey]
      exact List.append_nil _

/-- An insert fails once there are as many values as keys. -/
theorem error_mem_answers_iff {count : Nat} {error : Misuse} :
    .error error ∈ (List.range count).map kind.key ↔ kind.limit + 1 < count ∧ .unrepresentableKey = error := by
  simp only [List.mem_map, List.mem_range, KeyKind.key_eq_error_iff]
  constructor
  · rintro ⟨index, hlt, hlimit, rfl⟩
    exact ⟨by omega, rfl⟩
  · rintro ⟨hlt, rfl⟩
    exact ⟨kind.limit + 1, hlt, Nat.lt_succ_self _, rfl⟩

/-- What inserts have done on a new arena, those that failed included. -/
structure Stores (kind : KeyKind) (values : List α) (answers : List (Except Misuse Nat)) (arena : Arena α) :
    Prop where
  /-- The slots are offered as keys in order, ... -/
  answers_eq : answers = (List.range values.length).map kind.key
  /-- ... so keys are handed out as far as there are any. -/
  handed_eq : handed answers = List.range (min values.length (kind.limit + 1))
  /-- Every value is stored, also one that gets no key. -/
  toList_eq : arena.toList = values
  size_eq : arena.size = (handed answers).length + (answers.filterMap errorOf?).length
  /-- An insert that fails leaves its value behind in one more slot; nothing that a key can name is changed. -/
  failed : ∀ value error next, arena.insert kind value = (.error error, next) →
    next.toList = arena.toList ++ [value] ∧
      ∀ key ≤ kind.limit, next.get? key = arena.get? key ∧ next.contains key = arena.contains key
  /-- Whatever is inserted later, with success or without, a key stands for its own value. -/
  resolved : ∀ more (place : Nat) key value, answers[place]? = some (.ok key) → values[place]? = some value →
    ((insertAll kind more).run arena).2.get? key = some value ∧
      ((insertAll kind more).run arena).2.fetch key = .ok value
  contains_iff : ∀ key ≤ kind.limit, arena.contains key = true ↔ key ∈ handed answers
  /-- As long as no insert has failed, what is walked are the keys that were handed out. -/
  walked : (∀ error, .error error ∉ answers) → Walked kind arena (handed answers)
  stuck : ∀ error, .error error ∈ answers → Stuck kind arena

theorem fetch_eq_ok_iff {key : Nat} {value : α} : arena.fetch key = .ok value ↔ arena.get? key = some value := by
  unfold fetch
  cases arena.get? key <;> simp

theorem get?_insertAll {key : Nat} {value : α} (h : arena.get? key = some value) (more : List α) :
    ((insertAll kind more).run arena).2.get? key = some value := by
  rw [get?_eq_getElem?] at h ⊢
  rw [toList_insertAll, List.getElem?_append_left (List.getElem?_eq_some_iff.1 h).1, h]

theorem insert_of_error {value : α} {error : Misuse} {next : Arena α}
    (h : arena.insert kind value = (.error error, next)) : kind.limit < arena.size ∧ next = arena.push value := by
  obtain ⟨hkey, rfl⟩ := Prod.mk.inj h
  exact ⟨(KeyKind.key_eq_error_iff.1 hkey).1, rfl⟩

/-- Inserts store every value, and hand out keys as far as there are any. -/
theorem stores_insertAll (kind : KeyKind) (values : List α) :
    Stores kind values ((insertAll kind values).run {}).1 ((insertAll kind values).run {}).2 := by
  have hanswers : ((insertAll kind values).run {}).1 = (List.range values.length).map kind.key := by
    rw [answers_insertAll, List.range_eq_range']
    rfl
  have hlist : ((insertAll kind values).run {}).2.toList = values := toList_insertAll kind values {}
  have hsize : ((insertAll kind values).run {}).2.size = values.length := by rw [size_eq_length, hlist]
  have hhanded : handed ((insertAll kind values).run {}).1 = List.range (min values.length (kind.limit + 1)) := by
    rw [hanswers, handed_range]
  refine ⟨hanswers, hhanded, hlist, ?_, fun value error next h => ?_, fun more place key value hanswer hvalue => ?_,
    fun key hle => ?_, fun hok => ?_, fun error hmem => ?_⟩
  · rw [handed, length_values_add_length_errors, hanswers, List.length_map, List.length_range, hsize]
  · obtain ⟨hlimit, rfl⟩ := insert_of_error h
    refine ⟨toList_push _ value, fun key hle => ⟨?_, ?_⟩⟩
    · rw [get?_push, if_neg (by omega)]
    · unfold contains
      rw [size_push]
      exact decide_eq_decide.2 ⟨fun _ => by omega, fun _ => by omega⟩
  · obtain ⟨rfl, -, -⟩ := answer_eq_ok_iff.1 hanswer
    have hget : ((insertAll kind values).run {}).2.get? place = some value := by rw [get?_eq_getElem?, hlist, hvalue]
    exact ⟨get?_insertAll hget more, fetch_eq_ok_iff.2 (get?_insertAll hget more)⟩
  · rw [contains_iff, hhanded, List.mem_range, hsize]
    omega
  · -- where no insert has failed, there are keys for all slots
    have hle : values.length ≤ kind.limit + 1 := by
      by_contra hlt
      exact hok .unrepresentableKey (hanswers ▸ error_mem_answers_iff.2 ⟨Nat.lt_of_not_le hlt, rfl⟩)
    rw [hhanded, Nat.min_eq_left hle, ← hsize]
    exact walked_of_size_le (hsize ▸ hle)
  · rw [hanswers, error_mem_answers_iff] at hmem
    exact stuck_of_lt_size (hsize ▸ hmem.1)

/-- With as many values as there are keys of one byte, one more is refused, but not without a trace. -/
theorem stored_without_key :
    let arena : Arena Nat := ((insertAll .byte (List.range 256)).run {}).2
    let (answer, next) := arena.insert .byte 256
    answer = .error .unrepresentableKey ∧ next ≠ arena ∧ arena.size = 256 ∧ next.size = 257 ∧
      Walked .byte arena (List.range 256) ∧ Stuck .byte next := by
  intro arena
  have hsize : arena.size = 256 := by rw [size_eq_length, toList_insertAll, List.length_append, List.length_range]; rfl
  have hnext : (arena.push 256).size = 257 := by rw [size_push, hsize]
  refine ⟨KeyKind.key_eq_error_iff.2 ⟨by rw [hsize]; decide, rfl⟩, fun hsame => ?_, hsize, hnext, ?_, ?_⟩
  · have hcount : (arena.push 256).size = arena.size := congrArg size hsame
    omega
  · rw [← hsize]
    exact walked_of_size_le (by rw [hsize]; decide)
  · exact stuck_of_lt_size (hnext ▸ (by decide : KeyKind.byte.limit + 1 < 257))

end FunctionTrees.Arena
