import FunctionTrees.Arena

/-!
# Arenas in key order

`KeyCursor` walks the keys of an arena with two counters that move towards each other; `EntryCursor` walks its entries
by counting along the values that are left. Both can be moved at either `End`, and both stop for good once nothing is
left between their ends. `Arena.describe` lists the entries on one line, `Arena.describeLines` gives each a line of its own.
-/

set_option autoImplicit false

namespace FunctionTrees.Arena

/-- The end at which a cursor is moved. -/
inductive End where
  | front
  | back
deriving DecidableEq

/-! ## Keys -/

/-- The keys from `front` up to, but not including, `back`. -/
structure KeyCursor where
  front : Nat
  back : Nat
deriving DecidableEq

namespace KeyCursor

/-- All keys of an arena with `size` slots. -/
def ofSize (size : Nat) : KeyCursor := ⟨0, size⟩

/-- How many keys are left. -/
def left (cursor : KeyCursor) : Nat := cursor.back - cursor.front

def step (cursor : KeyCursor) : End → Option Nat × KeyCursor
  | .front =>
    if cursor.front < cursor.back then (some cursor.front, { cursor with front := cursor.front + 1 })
    else (none, cursor)
  | .back =>
    if cursor.front < cursor.back then (some (cursor.back - 1), { cursor with back := cursor.back - 1 })
    else (none, cursor)

end KeyCursor

/-! ## Entries -/

/-- The values that are left, the first of them being the one of slot `next`. -/
structure EntryCursor (α : Type) where
  next : Nat
  rest : List α
deriving DecidableEq

namespace EntryCursor

variable {α : Type}

/-- All entries of an arena. -/
def ofArena (arena : Arena α) : EntryCursor α := ⟨0, arena.toList⟩

/-- How many entries are left. -/
def left (cursor : EntryCursor α) : Nat := cursor.rest.length

def step (cursor : EntryCursor α) : End → Option (Nat × α) × EntryCursor α
  | .front =>
    match cursor.rest with
    | [] => (none, cursor)
    | value :: rest => (some (cursor.next, value), ⟨cursor.next + 1, rest⟩)
  | .back =>
    match cursor.rest.getLast? with
    | none => (none, cursor)
    | some value =>
      let rest := cursor.rest.dropLast
      (some (cursor.next + rest.length, value), ⟨cursor.next, rest⟩)

end EntryCursor

/-! ## Walks -/

/-- Moves a cursor once for each end, and lists what every move gave together with the cursor it left. -/
def walk {σ β : Type} (step : σ → End → β × σ) : σ → List End → List (β × σ)
  | _, [] => []
  | cursor, move :: moves =>
    let result := step cursor move
    result :: walk step result.2 moves

/-- The keys that a walk over all keys gives, each with the cursor it leaves. -/
def walkKeys {α : Type} (kind : KeyKind) (arena : Arena α) (moves : List End) :
    Except Misuse (List (Option Nat × KeyCursor)) :=
  (walk KeyCursor.step (KeyCursor.ofSize arena.size) moves).mapM fun (index, cursor) => do
    return (← index.mapM kind.key, cursor)

/-- The entries that a walk over all entries gives, each with the cursor it leaves. -/
def walkEntries {α : Type} (kind : KeyKind) (arena : Arena α) (moves : List End) :
    Except Misuse (List (Option (Nat × α) × EntryCursor α)) :=
  (walk EntryCursor.step (EntryCursor.ofArena arena) moves).mapM fun (entry, cursor) => do
    return (← entry.mapM fun (index, value) => (kind.key index).map fun key => (key, value), cursor)

/-- The keys in order, as far as the kind of key can hold them. -/
def keys {α : Type} (kind : KeyKind) (arena : Arena α) : Except Misuse (List Nat) :=
  (List.range arena.size).mapM kind.key

/-- The entries in key order, as far as the kind of key can hold their keys. -/
def entries {α : Type} (kind : KeyKind) (arena : Arena α) : Except Misuse (List (Nat × α)) :=
  arena.toList.zipIdx.mapM fun (value, index) => (kind.key index).map fun key => (key, value)

/-! ## Text -/

/-- The entries between braces on one line. -/
def describe {α : Type} (kind : KeyKind) (text : α → String) (arena : Arena α) : Except Misuse String := do
  let entries ← arena.entries kind
  let items := entries.map fun (key, value) => kind.describe key ++ ": " ++ text value
  return "ArenaMap \x7b" ++ ", ".intercalate items ++ "\x7d"

/-- The entries between braces, each on a line of its own; braces alone where there is none. -/
def describeLines {α : Type} (kind : KeyKind) (text : α → String) (arena : Arena α) : Except Misuse String := do
  let entries ← arena.entries kind
  if entries.isEmpty then return "ArenaMap \x7b\x7d"
  let lines := entries.map fun (key, value) => "    " ++ kind.describe key ++ ": " ++ text value ++ ",\n"
  return "ArenaMap \x7b\n" ++ "".intercalate lines ++ "\x7d"

end FunctionTrees.Arena
