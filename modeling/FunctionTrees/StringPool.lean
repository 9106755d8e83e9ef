import FunctionTrees.Arena

/-!
# Interned strings

A `StringPool` holds each text once, in the order in which the texts came, and keeps the `Symbol` of each text: the number
of its place. That the symbols are those of the places is a field of the pool, so that two pools with the same strings are
equal. `StringPool.insert` gives an old text its old symbol and a new one the next free number, so that symbols never
change meaning.
-/

set_option autoImplicit false

namespace FunctionTrees

/-- The handle of a text in some pool. -/
structure Symbol where
  index : Nat
deriving DecidableEq, Inhabited

/-! ## Symbols of texts -/

/-- Under each text stands the symbol of its place, where it has one, and nothing else. -/
def Numbering (symbols : String → Option Symbol) (strings : List String) : Prop :=
  ∀ text symbol, symbols text = some symbol ↔ strings[symbol.index]? = some text

namespace Numbering

theorem empty : Numbering (fun _ => none) [] := by
  intro text symbol
  simp

variable {symbols : String → Option Symbol} {strings : List String} {text : String}

/-- A new text gets the number behind all others. -/
theorem concat (h : Numbering symbols strings) (hnew : symbols text = none) :
    Numbering (fun other => if other = text then some ⟨strings.length⟩ else symbols other) (strings ++ [text]) := by
  rintro other ⟨index⟩
  have hat : (strings ++ [text])[index]? = some other ↔
      strings[index]? = some other ∨ index = strings.length ∧ other = text := by
    grind
  have hold := h other ⟨index⟩
  dsimp only at hold ⊢
  rw [hat, ← hold]
  split
  next hother =>
    subst hother
    rw [hnew]
    simp [eq_comm]
  next hother => simp [hother]

end Numbering

/-! ## Pools -/

/-- Distinct texts in the order of their places, and for each text its symbol. -/
structure StringPool where
  strings : List String := []
  symbols : String → Option Symbol := fun _ => none
  numbering : Numbering symbols strings := by exact Numbering.empty

namespace StringPool

instance : Inhabited StringPool := ⟨{}⟩

/-- The strings alone make the pool. -/
theorem ext_strings {pool other : StringPool} (h : pool.strings = other.strings) : pool = other := by
  have hsymbols : pool.symbols = other.symbols := by
    funext text
    refine Option.ext fun symbol => ?_
    rw [pool.numbering, other.numbering, h]
  cases pool
  cases other
  cases h
  cases hsymbols
  rfl

instance : DecidableEq StringPool := fun pool other =>
  decidable_of_iff (pool.strings = other.strings) ⟨ext_strings, congrArg strings⟩

def size (pool : StringPool) : Nat := pool.strings.length

def isEmpty (pool : StringPool) : Bool := pool.strings.isEmpty

/-- The symbol of a text that is already held. -/
def find? (pool : StringPool) (text : String) : Option Symbol := pool.symbols text

/-- The text behind a symbol, if the pool has handed it out. -/
def get? (pool : StringPool) (symbol : Symbol) : Option String := pool.strings[symbol.index]?

/-- The text behind a symbol that the caller holds to be valid. -/
def fetch (pool : StringPool) (symbol : Symbol) : Except Misuse String :=
  match pool.get? symbol with
  | some text => .ok text
  | none => .error (.unknownHandle pool.size symbol.index)

/-- The pool with one more text, under the next free number. -/
def add (pool : StringPool) (text : String) (h : pool.find? text = none) : StringPool where
  strings := pool.strings ++ [text]
  symbols other := if other = text then some ⟨pool.size⟩ else pool.symbols other
  numbering := pool.numbering.concat h

/-- The symbol of `text`, which the pool takes in if it does not hold it yet. -/
def insert (pool : StringPool) (text : String) : Symbol × StringPool :=
  match h : pool.find? text with
  | some symbol => (symbol, pool)
  | none => (⟨pool.size⟩, pool.add text h)

/-- The pool that holds the given texts in order, repeats left out. -/
def ofList (texts : List String) : StringPool :=
  texts.foldl (fun pool text => (pool.insert text).2) {}

@[simp] theorem strings_add (pool : StringPool) (text : String) (h : pool.find? text = none) :
    (pool.add text h).strings = pool.strings ++ [text] := rfl

end StringPool

end FunctionTrees
