import FunctionTrees.Arena.Printer
import FunctionTrees.Proofs.Arena

/-!
# Walks from both ends meet once

A cursor is seen as the list of what is left between its ends, and a move as taking one item off this list.

* `takeOff` : takes the item at an end off a list; `walk_map` : what is seen of a walk is a walk over what is seen;
* `givenAt_append_after` : what was given at the front, what is left and what was given at the back are the list;
* `given_append_after_perm` : each item is given or left, and no item twice;
* `Meets items moves answers` : the answers of a walk over distinct items, `meets_walk`;
* `KeyCursor.takeOff_rest`, `EntryCursor.takeOff_entries` : both cursors are seen as lists;
* `walkKeys_eq_ok`, `walkEntries_eq_ok`, `walkKeys_eq_error`, `walkEntries_eq_error` : when keys can be made of a walk;
* `walks_meet` : the walks over the keys and the entries of an arena meet once.
-/

set_option autoImplicit false

namespace FunctionTrees.Arena

open Outcome

variable {α β γ σ τ : Type}

/-! ## Walks -/

def after (step : σ → End → β × σ) (cursor : σ) (moves : List End) : σ :=
  moves.foldl (fun cursor move => (step cursor move).2) cursor

def givenAt (side : End) (moves : List End) (answers : List (Option β)) : List β :=
  (moves.zip answers).filterMap fun (move, answer) => if move = side then answer else none

section Walk

variable {step : σ → End → β × σ}

@[simp] theorem length_walk (step : σ → End → β × σ) (cursor : σ) (moves : List End) :
    (walk step cursor moves).length = moves.length := by
  induction moves generalizing cursor with
  | nil => rfl
  | cons move moves ih => simp [walk, ih]

theorem walk_take (step : σ → End → β × σ) (cursor : σ) (moves : List End) (count : Nat) :
    (walk step cursor moves).take count = walk step cursor (moves.take count) := by
  induction moves generalizing cursor count with
  | nil => simp [walk]
  | cons move moves ih => cases count <;> simp [walk, ih]

theorem walk_drop (step : σ → End → β × σ) (cursor : σ) (moves : List End) (count : Nat) :
    (walk step cursor moves).drop count = walk step (after step cursor (moves.take count)) (moves.drop count) := by
  induction moves generalizing cursor count with
  | nil => simp [walk]
  | cons move moves ih => cases count <;> simp [walk, after, ih]

/-- The cursors of a walk are those that the first moves leave. -/
theorem eq_after_of_walk {cursor found : σ} {moves : List End} {count : Nat}
    (h : (cursor :: (walk step cursor moves).map Prod.snd)[count]? = some found) :
    found = after step cursor (moves.take count) := by
  induction moves generalizing cursor count with
  | nil =>
    cases count <;> simp_all [walk, after]
  | cons move moves ih =>
    cases count with
    | zero => simpa [after] using h.symm
    | succ count => exact ih h

/-- What is seen of a walk is a walk over what is seen, if each move is. -/
theorem walk_map {step' : τ → End → γ × τ} (f : β → γ) (view : σ → τ)
    (hstep : ∀ cursor move, step' (view cursor) move = Prod.map f view (step cursor move)) (cursor : σ)
    (moves : List End) : walk step' (view cursor) moves = (walk step cursor moves).map (Prod.map f view) := by
  induction moves generalizing cursor with
  | nil => rfl
  | cons move moves ih => simp [walk, hstep, ih]

theorem after_map {step' : τ → End → γ × τ} (f : β → γ) (view : σ → τ)
    (hstep : ∀ cursor move, step' (view cursor) move = Prod.map f view (step cursor move)) (cursor : σ)
    (moves : List End) : after step' (view cursor) moves = view (after step cursor moves) := by
  induction moves generalizing cursor with
  | nil => rfl
  | cons move moves ih =>
    have hnext : (step' (view cursor) move).2 = view (step cursor move).2 := by rw [hstep]; rfl
    unfold after at ih ⊢
    rw [List.foldl_cons, List.foldl_cons, hnext, ih]

/-- What moves keep holds of the cursor that they leave. -/
theorem after_of_kept {P : σ → Prop} (hstep : ∀ cursor move, P cursor → P (step cursor move).2) {cursor : σ}
    (h : P cursor) (moves : List End) : P (after step cursor moves) := by
  induction moves generalizing cursor with
  | nil => exact h
  | cons move moves ih => exact ih (hstep cursor move h)

end Walk

/-! ## Walks over lists -/

def takeOff (items : List β) : End → Option β × List β
  | .front => (items.head?, items.tail)
  | .back => (items.getLast?, items.dropLast)

def putOn (item : β) (items : List β) : End → List β
  | .front => item :: items
  | .back => items ++ [item]

@[simp] theorem takeOff_nil (move : End) : takeOff ([] : List β) move = (none, []) := by
  cases move <;> rfl

@[simp] theorem takeOff_putOn (item : β) (items : List β) (move : End) :
    takeOff (putOn item items move) move = (some item, items) := by
  cases move <;> simp [takeOff, putOn]

/-- A list is empty, or some item has been put at its end. -/
theorem eq_nil_or_putOn (items : List β) (move : End) :
    items = [] ∨ ∃ item rest, items = putOn item rest move := by
  cases move with
  | front =>
    cases items with
    | nil => exact .inl rfl
    | cons item rest => exact .inr ⟨item, rest, rfl⟩
  | back =>
    rcases List.eq_nil_or_concat items with rfl | ⟨rest, item, rfl⟩
    · exact .inl rfl
    · exact .inr ⟨item, rest, List.concat_eq_append⟩

theorem takeOff_map (f : β → γ) (items : List β) (move : End) :
    takeOff (items.map f) move = Prod.map (Option.map f) (List.map f) (takeOff items move) := by
  cases move <;> simp [takeOff]

theorem putOn_perm (item : β) (items : List β) (move : End) : (putOn item items move).Perm (item :: items) := by
  cases move with
  | front => exact .refl _
  | back => exact List.perm_append_singleton item items

/-- What was given at the front, what is left and what was given at the back are the list. -/
theorem givenAt_append_after (items : List β) (moves : List End) :
    givenAt .front moves ((walk takeOff items moves).map Prod.fst) ++ after takeOff items moves ++
      (givenAt .back moves ((walk takeOff items moves).map Prod.fst)).reverse = items := by
  induction moves generalizing items with
  | nil => simp [givenAt, after]
  | cons move moves ih =>
    unfold givenAt after at ih ⊢
    rcases eq_nil_or_putOn items move with rfl | ⟨item, rest, rfl⟩
    · simpa [walk] using ih []
    · -- what is given now stands outside of all that is given later
      cases move with
      | front =>
        have hwhole : _ = putOn item rest .front := congrArg (item :: ·) (ih rest)
        simpa [walk] using hwhole
      | back =>
        have hwhole : _ = putOn item rest .back := congrArg (· ++ [item]) (ih rest)
        simpa [walk] using hwhole

/-- Each item is given or left, and no item twice. -/
theorem given_append_after_perm (items : List β) (moves : List End) :
    ((walk takeOff items moves).filterMap Prod.fst ++ after takeOff items moves).Perm items := by
  induction moves generalizing items with
  | nil => simp [walk, after]
  | cons move moves ih =>
    unfold after at ih ⊢
    rcases eq_nil_or_putOn items move with rfl | ⟨item, rest, rfl⟩
    · simpa [walk] using ih []
    · simpa [walk] using ((ih rest).cons item).trans (putOn_perm item rest move).symm

theorem fst_of_walk_nil {moves : List End} {result : Option β × List β} (h : result ∈ walk takeOff [] moves) :
    result.1 = none := by
  induction moves with
  | nil => cases h
  | cons move moves ih =>
    rw [walk, takeOff_nil] at h
    rcases List.mem_cons.1 h with rfl | h
    · rfl
    · exact ih h

/-! ## What is given -/

/-- The answers of a walk over items, of which no two are equal. -/
structure Meets (items : List β) (moves : List End) (answers : List (Option β)) : Prop where
  length_eq : answers.length = moves.length
  /-- The front gives the items from the first one on, in their order. -/
  front : givenAt .front moves answers <+: items
  /-- The back gives them from the last one on, in the opposite order. -/
  back : givenAt .back moves answers <+: items.reverse
  nodup : (answers.filterMap id).Nodup
  /-- When a move gives nothing, all items have been given, and no later move at either end gives anything. -/
  ended : ∀ place : Nat, answers[place]? = some none →
    ((answers.take place).filterMap id).Perm items ∧ ∀ answer ∈ answers.drop place, answer = none

theorem after_eq_nil_of_answer {items : List β} {moves : List End} {place : Nat}
    (h : ((walk takeOff items moves).map Prod.fst)[place]? = some none) :
    after takeOff items (moves.take place) = [] := by
  rw [List.getElem?_map, Option.map_eq_some_iff] at h
  obtain ⟨⟨answer, left⟩, hresult, rfl⟩ := h
  -- the answer is the first one of the walk that goes on from where the earlier moves have led
  have hhead : (walk takeOff (after takeOff items (moves.take place)) (moves.drop place))[0]? = some (none, left) := by
    rw [← walk_drop, List.getElem?_drop]
    exact hresult
  cases hmoves : moves.drop place with
  | nil => simp [hmoves, walk] at hhead
  | cons move more =>
    rcases eq_nil_or_putOn (after takeOff items (moves.take place)) move with hnil | ⟨item, rest, hput⟩
    · exact hnil
    · simp [hmoves, hput, walk] at hhead

theorem meets_walk {items : List β} (h : items.Nodup) (moves : List End) :
    Meets items moves ((walk takeOff items moves).map Prod.fst) := by
  have hgiven := givenAt_append_after items moves
  refine ⟨by simp, ⟨_, (List.append_assoc _ _ _).symm.trans hgiven⟩, ?_, ?_, fun place hnone => ?_⟩
  · rw [← List.reverse_suffix, List.reverse_reverse]
    exact ⟨_, hgiven⟩
  · rw [List.filterMap_map]
    exact ((given_append_after_perm items moves).nodup_iff.2 h).of_append_left
  · have hnil := after_eq_nil_of_answer hnone
    constructor
    · have hperm := given_append_after_perm items (moves.take place)
      rw [hnil, List.append_nil, ← walk_take] at hperm
      rwa [← List.map_take, List.filterMap_map]
    · intro answer hmem
      rw [← List.map_drop, walk_drop, hnil] at hmem
      obtain ⟨result, hresult, rfl⟩ := List.mem_map.1 hmem
      exact fst_of_walk_nil hresult

/-! ## Both cursors -/

namespace KeyCursor

def rest (cursor : KeyCursor) : List Nat := List.range' cursor.front cursor.left

@[simp] theorem length_rest (cursor : KeyCursor) : cursor.rest.length = cursor.left := List.length_range'

theorem rest_ofSize (size : Nat) : (ofSize size).rest = List.range size := List.range_eq_range'.symm

theorem takeOff_rest (cursor : KeyCursor) (move : End) :
    takeOff cursor.rest move = Prod.map id rest (cursor.step move) := by
  obtain ⟨front, back⟩ := cursor
  by_cases hlt : front < back
  · -- `count` keys are left behind the one that is given
    obtain ⟨count, rfl⟩ : ∃ count, back = front + (count + 1) := ⟨back - front - 1, by omega⟩
    cases move with
    | front =>
      have hleft : front + (count + 1) - (front + 1) = count := by omega
      simp [rest, left, step, takeOff, List.range'_succ, hleft]
    | back => simp [rest, left, step, takeOff, List.range'_1_concat]
  · have hleft : back - front = 0 := by omega
    cases move <;> simp [rest, left, step, takeOff, hlt, hleft]

/-- The ends never pass each other. -/
theorem front_le_back_step (cursor : KeyCursor) (move : End) (h : cursor.front ≤ cursor.back) :
    (cursor.step move).2.front ≤ (cursor.step move).2.back := by
  by_cases hlt : cursor.front < cursor.back
  · cases move with
    | front =>
      simp only [step, hlt, if_true]
      omega
    | back =>
      simp only [step, hlt, if_true]
      omega
  · cases move <;> simpa [step, hlt] using h

end KeyCursor

namespace EntryCursor

def entries (cursor : EntryCursor α) : List (Nat × α) := (List.range' cursor.next cursor.left).zip cursor.rest

@[simp] theorem length_entries (cursor : EntryCursor α) : cursor.entries.length = cursor.left := by
  simp [entries, left]

theorem entries_ofArena (arena : Arena α) : (ofArena arena).entries = (List.range arena.size).zip arena.toList := by
  rw [List.range_eq_range', size_eq_length]
  rfl

theorem takeOff_entries (cursor : EntryCursor α) (move : End) :
    takeOff cursor.entries move = Prod.map id entries (cursor.step move) := by
  obtain ⟨next, items⟩ := cursor
  cases move with
  | front =>
    cases items with
    | nil => rfl
    | cons value items => simp [entries, left, step, takeOff, List.range'_succ]
  | back =>
    rcases List.eq_nil_or_concat items with rfl | ⟨items, value, rfl⟩
    · rfl
    · simp [entries, left, step, takeOff, List.range'_1_concat, List.zip_append]

end EntryCursor

theorem walk_range (size : Nat) (moves : List End) :
    walk takeOff (List.range size) moves =
      (walk KeyCursor.step (.ofSize size) moves).map (Prod.map id KeyCursor.rest) := by
  rw [← KeyCursor.rest_ofSize]
  exact walk_map id KeyCursor.rest KeyCursor.takeOff_rest _ moves

theorem walk_zip (arena : Arena α) (moves : List End) :
    walk takeOff ((List.range arena.size).zip arena.toList) moves =
      (walk EntryCursor.step (.ofArena arena) moves).map (Prod.map id EntryCursor.entries) := by
  rw [← EntryCursor.entries_ofArena]
  exact walk_map id EntryCursor.entries EntryCursor.takeOff_entries _ moves

/-- The entries of an arena are walked along with its keys. -/
theorem walk_entries_keys (arena : Arena α) (moves : List End) :
    ((walk EntryCursor.step (.ofArena arena) moves).map fun (entry, cursor) => (entry.map Prod.fst, cursor.left)) =
      (walk KeyCursor.step (.ofSize arena.size) moves).map fun (key, cursor) => (key, cursor.left) := by
  have hkeys : ((List.range arena.size).zip arena.toList).map Prod.fst = List.range arena.size := by
    rw [List.map_fst_zip (by simp [size_eq_length])]
  have hsame := walk_map (Option.map Prod.fst) (List.map Prod.fst) (takeOff_map Prod.fst)
    ((List.range arena.size).zip arena.toList) moves
  rw [hkeys, walk_range, walk_zip] at hsame
  simpa [Function.comp_def, Prod.map] using (congrArg (List.map (Prod.map id List.length)) hsame).symm

/-! ## Keys for a walk -/

section Check

variable {ε : Type} {check : β → Except ε β} {gave : List (Option β × σ)}

theorem mapM_eq_ok_of_check (h : ∀ item ∈ gave.filterMap Prod.fst, check item = .ok item) :
    (gave.mapM fun (answer, cursor) => do return (← answer.mapM check, cursor)) = .ok gave := by
  rw [mapM_eq_ok_iff, List.forall₂_same]
  rintro ⟨answer, cursor⟩ hmem
  cases answer with
  | none => rfl
  | some item =>
    have hitem := h item (List.mem_filterMap.2 ⟨_, hmem, rfl⟩)
    simp [hitem, Option.mapM_some]

theorem mapM_eq_error_of_check {fault : ε} (hfault : ∀ item error, check item = .error error → error = fault)
    (h : ∃ item ∈ gave.filterMap Prod.fst, check item = .error fault) :
    (gave.mapM fun (answer, cursor) => do return (← answer.mapM check, cursor)) = .error fault := by
  obtain ⟨item, hitem, hcheck⟩ := h
  obtain ⟨⟨answer, cursor⟩, hmem, rfl⟩ := List.mem_filterMap.1 hitem
  apply mapM_eq_error
  · rintro ⟨answer, cursor⟩ - error herror
    cases answer with
    | none => cases herror
    | some item =>
      cases hitem : check item with
      | ok value => simp [hitem, Option.mapM_some] at herror
      | error found =>
        have hsame : found = error := by simpa [hitem, Option.mapM_some] using herror
        exact hsame ▸ hfault item found hitem
  · exact ⟨_, hmem, fault, by simp [hcheck, Option.mapM_some]⟩

end Check

theorem mem_zip_range {items : List α} {key : Nat} {value : α} :
    (key, value) ∈ (List.range items.length).zip items ↔ items[key]? = some value := by
  rw [List.mem_iff_getElem?]
  constructor
  · rintro ⟨place, hplace⟩
    obtain ⟨hkey, hvalue⟩ := List.getElem?_zip_eq_some.1 hplace
    obtain ⟨hlt, rfl⟩ := List.getElem?_eq_some_iff.1 hkey
    rwa [List.getElem_range]
  · intro hvalue
    obtain ⟨hlt, -⟩ := List.getElem?_eq_some_iff.1 hvalue
    exact ⟨key, List.getElem?_zip_eq_some.2 ⟨List.getElem?_range hlt, hvalue⟩⟩

theorem map_given_entries (arena : Arena α) (moves : List End) :
    ((walk EntryCursor.step (.ofArena arena) moves).filterMap Prod.fst).map Prod.fst =
      (walk KeyCursor.step (.ofSize arena.size) moves).filterMap Prod.fst := by
  have hsame := congrArg (List.filterMap Prod.fst) (walk_entries_keys arena moves)
  rw [List.filterMap_map, List.filterMap_map] at hsame
  rw [List.map_filterMap]
  exact hsame

section Keys

variable {kind : KeyKind} {arena : Arena α} {moves : List End}

theorem lt_size_of_given {key : Nat}
    (h : key ∈ (walk KeyCursor.step (.ofSize arena.size) moves).filterMap Prod.fst) : key < arena.size := by
  have hgiven : key ∈ (walk takeOff (List.range arena.size) moves).filterMap Prod.fst := by
    rw [walk_range, List.filterMap_map]
    exact h
  exact List.mem_range.1 ((given_append_after_perm _ moves).subset (List.mem_append_left _ hgiven))

theorem get?_of_given {key : Nat} {value : α}
    (h : (key, value) ∈ (walk EntryCursor.step (.ofArena arena) moves).filterMap Prod.fst) :
    arena.get? key = some value := by
  have hgiven : (key, value) ∈ (walk takeOff ((List.range arena.size).zip arena.toList) moves).filterMap Prod.fst := by
    rw [walk_zip, List.filterMap_map]
    exact h
  have hmem := (given_append_after_perm _ moves).subset (List.mem_append_left _ hgiven)
  rw [size_eq_length] at hmem
  rw [get?_eq_getElem?]
  exact mem_zip_range.1 hmem

theorem walkKeys_eq_ok (h : arena.size ≤ kind.limit + 1) :
    arena.walkKeys kind moves = .ok (walk KeyCursor.step (.ofSize arena.size) moves) := by
  apply mapM_eq_ok_of_check
  intro key hkey
  have hlt := lt_size_of_given hkey
  exact KeyKind.key_eq_ok_iff.2 ⟨by omega, rfl⟩

theorem walkEntries_eq_ok (h : arena.size ≤ kind.limit + 1) :
    arena.walkEntries kind moves = .ok (walk EntryCursor.step (.ofArena arena) moves) := by
  apply mapM_eq_ok_of_check
  rintro ⟨key, value⟩ hentry
  have hlt := lt_size_of_get? (get?_of_given hentry)
  exact KeyKind.map_key_eq_ok_iff.2 ⟨by omega, rfl⟩

/-- No keys can be made of a walk that gets to a slot beyond the last key. -/
theorem walkKeys_eq_error {key : Nat} (hlimit : kind.limit < key)
    (h : key ∈ (walk KeyCursor.step (.ofSize arena.size) moves).filterMap Prod.fst) :
    arena.walkKeys kind moves = .error .unrepresentableKey := by
  apply mapM_eq_error_of_check
  · exact fun index error herror => (KeyKind.key_eq_error_iff.1 herror).2.symm
  · exact ⟨key, h, KeyKind.key_eq_error_iff.2 ⟨hlimit, rfl⟩⟩

theorem walkEntries_eq_error {key : Nat} (hlimit : kind.limit < key)
    (h : key ∈ (walk KeyCursor.step (.ofSize arena.size) moves).filterMap Prod.fst) :
    arena.walkEntries kind moves = .error .unrepresentableKey := by
  rw [← map_given_entries] at h
  obtain ⟨⟨key, value⟩, hentry, rfl⟩ := List.mem_map.1 h
  apply mapM_eq_error_of_check
  · exact fun entry error herror => (KeyKind.map_key_eq_error_iff.1 herror).2.symm
  · exact ⟨(key, value), hentry, KeyKind.map_key_eq_error_iff.2 ⟨hlimit, rfl⟩⟩

end Keys

/-! ## The walks of an arena -/

/-- The walks over the keys and the entries of an arena, from both ends. -/
structure WalksMeet (kind : KeyKind) (arena : Arena α) (moves : List End) (keys : List (Option Nat × KeyCursor))
    (entries : List (Option (Nat × α) × EntryCursor α)) : Prop where
  meets : Meets (List.range arena.size) moves (keys.map Prod.fst)
  /-- Before the first move and after each, the ends have not passed each other, and as many keys are left as have not
  been given yet. -/
  left_eq : ∀ (count : Nat) cursor, (KeyCursor.ofSize arena.size :: keys.map Prod.snd)[count]? = some cursor →
    cursor.front ≤ cursor.back ∧ cursor.left + ((keys.take count).filterMap Prod.fst).length = arena.size
  /-- The entries are given along with the keys, and as many are left. -/
  entries_eq : (entries.map fun (entry, cursor) => (entry.map Prod.fst, cursor.left)) =
    keys.map fun (key, cursor) => (key, cursor.left)
  /-- With its key stands the value that is stored under it, that of the only insert that has handed out the key. -/
  stored : ∀ key value, some (key, value) ∈ entries.map Prod.fst → arena.get? key = some value ∧
    ∀ values answers, (insertAll kind values).run {} = (answers, arena) →
      ∃ place : Nat, values[place]? = some value ∧ ∀ other : Nat, answers[other]? = some (.ok key) ↔ other = place

theorem left_of_walk {arena : Arena α} {moves : List End} {count : Nat} {cursor : KeyCursor}
    (h : (KeyCursor.ofSize arena.size :: (walk KeyCursor.step (.ofSize arena.size) moves).map Prod.snd)[count]? =
      some cursor) :
    cursor.front ≤ cursor.back ∧
      cursor.left + (((walk KeyCursor.step (.ofSize arena.size) moves).take count).filterMap Prod.fst).length =
        arena.size := by
  obtain rfl := eq_after_of_walk h
  constructor
  · exact after_of_kept KeyCursor.front_le_back_step (Nat.zero_le _) _
  · have hperm := given_append_after_perm (List.range arena.size) (moves.take count)
    rw [walk_range, List.filterMap_map, ← KeyCursor.rest_ofSize,
      after_map id KeyCursor.rest KeyCursor.takeOff_rest, ← walk_take] at hperm
    have hlength := hperm.length_eq
    rw [List.length_append, KeyCursor.length_rest, KeyCursor.length_rest, Nat.add_comm] at hlength
    exact hlength

/-- Whatever the moves, both walks over an arena meet once. -/
theorem walks_meet (kind : KeyKind) (arena : Arena α) (h : arena.size ≤ kind.limit + 1) (moves : List End) :
    ∃ keys entries, arena.walkKeys kind moves = .ok keys ∧ arena.walkEntries kind moves = .ok entries ∧
      WalksMeet kind arena moves keys entries := by
  refine ⟨_, _, walkKeys_eq_ok h, walkEntries_eq_ok h, ?_, fun _ _ => left_of_walk, walk_entries_keys arena moves,
    fun key value hmem => ?_⟩
  · have hmeets : Meets (List.range arena.size) moves _ := meets_walk List.nodup_range moves
    rw [walk_range, List.map_map] at hmeets
    exact hmeets
  · obtain ⟨⟨entry, cursor⟩, hresult, rfl⟩ := List.mem_map.1 hmem
    have hget := get?_of_given (List.mem_filterMap.2 ⟨_, hresult, rfl⟩)
    exact ⟨hget, fun _ _ => exists_insert_of_get? h hget⟩

/-- Three values, walked until both ends have met and on. -/
theorem walks_meet_three :
    let arena : Arena String := ((insertAll .byte ["self", "x", "y"]).run {}).2
    let moves := [End.back, .front, .back, .front, .back]
    arena.size ≤ KeyKind.byte.limit + 1 ∧ ∃ keys entries, arena.walkKeys .byte moves = .ok keys ∧
      arena.walkEntries .byte moves = .ok entries ∧ keys.map Prod.fst = [some 2, some 0, some 1, none, none] ∧
        WalksMeet .byte arena moves keys entries := by
  intro arena moves
  have hsize : arena.size ≤ KeyKind.byte.limit + 1 := by decide
  obtain ⟨keys, entries, hkeys, hentries, hmeet⟩ := walks_meet .byte arena hsize moves
  have hwalk := Except.ok.inj ((walkKeys_eq_ok hsize).symm.trans hkeys)
  exact ⟨hsize, keys, entries, hkeys, hentries, by rw [← hwalk]; decide, hmeet⟩

end FunctionTrees.Arena
