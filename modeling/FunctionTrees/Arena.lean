/-!
# Arenas

An `Arena` only ever grows at its end, so the number of a slot can serve as a key for as long as the arena lives.
Keys are stored in a `KeyKind`, which has a largest number: `Arena.insert` stores a value and then makes its key,
and making the key can fail where storing has not. `Arena.push` is the growth alone.

A key or a handle means something only to the container that handed it out. `Misuse` names the three ways in which
one can be used that the containers of this library refuse, `Misuse.message` words them.
-/

set_option autoImplicit false

namespace FunctionTrees

/-! ## Misuse of keys and handles -/

/-- A use of a key or a handle that no container stands behind. -/
inductive Misuse where
  /-- The arena has no slot for the key. -/
  | unknownKey
  /-- The pool of `size` strings has none under the handle `index`. -/
  | unknownHandle (size index : Nat)
  /-- The number is too large for the keys of the arena. -/
  | unrepresentableKey
deriving DecidableEq

/-- What is reported when a program breaks off over a misuse. -/
def Misuse.message : Misuse → String
  | .unknownKey => "tried to access invalid key on `ArenaMap`"
  | .unknownHandle size index => s!"index out of bounds: the len is {size} but the index is {index}"
  | .unrepresentableKey => "index is not representable with key type: TryFromIntError(PosOverflow)"

/-! ## Key storage -/

/-- A kind of key: the name it is shown under and the largest slot number that it can hold. -/
structure KeyKind where
  name : String
  limit : Nat
deriving DecidableEq

namespace KeyKind

/-- Keys of one byte. -/
def byte : KeyKind := ⟨"Byte", UInt8.size - 1⟩

/-- Keys of two bytes. -/
def short : KeyKind := ⟨"Short", UInt16.size - 1⟩

/-- Keys of four bytes. -/
def dense : KeyKind := ⟨"Dense", UInt32.size - 1⟩

/-- Keys of eight bytes. -/
def wide : KeyKind := ⟨"Wide", UInt64.size - 1⟩

/-- The key for slot `index`, unless the number is too large for this kind. -/
def key (kind : KeyKind) (index : Nat) : Except Misuse Nat :=
  if index ≤ kind.limit then .ok index else .error .unrepresentableKey

/-- How a key is shown. -/
def describe (kind : KeyKind) (key : Nat) : String := s!"{kind.name}({key})"

end KeyKind

/-! ## Arenas -/

/-- Values in the order in which they were stored. -/
structure Arena (α : Type) where
  slots : Array α := #[]
deriving DecidableEq

namespace Arena

variable {α : Type}

instance : Inhabited (Arena α) := ⟨{}⟩

def size (arena : Arena α) : Nat := arena.slots.size

def isEmpty (arena : Arena α) : Bool := arena.slots.isEmpty

/-- The value under `key`, if the arena has such a slot. -/
def get? (arena : Arena α) (key : Nat) : Option α := arena.slots[key]?

/-- The value under a key that the caller holds to be valid. -/
def fetch (arena : Arena α) (key : Nat) : Except Misuse α :=
  match arena.get? key with
  | some value => .ok value
  | none => .error .unknownKey

def contains (arena : Arena α) (key : Nat) : Bool := key < arena.size

/-- Stores `value` in the next slot. -/
def push (arena : Arena α) (value : α) : Arena α := ⟨arena.slots.push value⟩

/-- Stores `value`, and hands out the key of its slot if the kind of key can hold it. -/
def insert (kind : KeyKind) (arena : Arena α) (value : α) : Except Misuse Nat × Arena α :=
  (kind.key arena.size, arena.push value)

/-- The values in slot order. -/
def toList (arena : Arena α) : List α := arena.slots.toList

@[simp] theorem size_push (arena : Arena α) (value : α) : (arena.push value).size = arena.size + 1 := by
  simp [push, size]

@[simp] theorem toList_push (arena : Arena α) (value : α) :
    (arena.push value).toList = arena.toList ++ [value] := by
  simp [push, toList]

theorem get?_push (arena : Arena α) (value : α) (key : Nat) :
    (arena.push value).get? key = if key = arena.size then some value else arena.get? key :=
  Array.getElem?_push

end Arena

end FunctionTrees
