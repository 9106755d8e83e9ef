import FunctionTrees.Json.Bracket

/-!
# Formats of single values, lists and maps

A `Format` says how the values of a type are written in JSON and how they are read back. Here are the formats of texts,
truth values and numbers, and those that are made from other formats: lists, values that can be absent, and values that
have to pass a check.
-/

set_option autoImplicit false

namespace FunctionTrees.Json

/-! ## Values of another shape -/

namespace Reader

variable {α : Type}

/-- What kind of value comes next; all of it is read unless it has brackets. -/
def found : Reader Found := do
  match ← peek with
  | none => ended .value
  | some c =>
    if c = 'n' then do pass; word ['u', 'l', 'l']; return .null
    else if c = 't' then do pass; word ['r', 'u', 'e']; return .bool true
    else if c = 'f' then do pass; word ['a', 'l', 's', 'e']; return .bool false
    else if c = '"' then do pass; return .text (← textBody)
    else if c = '[' then return .list
    else if c = '\x7b' then return .object
    else if c = '-' ∨ isDigit c then
      match ← number with
      | .integer value => return .integer value
      | .float bits => return .float bits
    else malformed .noValue

/-- Stops over a value where `expected` is asked for. -/
def mismatch (expected : String) : Reader α := do
  unfit (.kind (← found) expected)

/-- Reads a value by its first character, which is left to the reader that `choose` gives for it. -/
def whole (expected : String) (choose : Char → Option (Reader α)) : Reader α := placed do
  match ← next with
  | none => ended .value
  | some c =>
    match choose c with
    | some reader => reader
    | none => mismatch expected

/-- A text, where `expected` is asked for. -/
def textAs (expected : String) : Reader String :=
  whole expected fun c => if c = '"' then some (do pass; textBody) else none

/-- A number that `accept` takes. -/
def numberAs (expected : String) (accept : Number → Except Misfit α) : Reader α :=
  whole expected fun c =>
    if c = '-' ∨ isDigit c then
      some do
        match accept (← number) with
        | .ok value => return value
        | .error misfit => unfit misfit
    else none

/-- The content of a case that has none. -/
def nothing : Reader Unit :=
  whole "unit" fun c => if c = 'n' then some (do pass; word ['u', 'l', 'l']) else none

end Reader

/-! ## Formats -/

/-- How the values of a type are written and read. -/
structure Format (α : Type) where
  reader : Reader α
  write : α → List Char

namespace Format

variable {α β : Type}

/-- The text of a value. -/
def encode (format : Format α) (value : α) : String := String.ofList (format.write value)

/-- The value that a text stands for. -/
def decode (format : Format α) (text : String) : Except Fault α := format.reader.ofText text

/-! ## Single values -/

def text : Format String := ⟨Reader.textAs "a string", writeText⟩

def bool : Format Bool where
  reader := Reader.whole "a boolean" fun c =>
    if c = 't' then some (do Reader.pass; Reader.word ['r', 'u', 'e']; return true)
    else if c = 'f' then some (do Reader.pass; Reader.word ['a', 'l', 's', 'e']; return false)
    else none
  write value := (if value then "true" else "false").toList

/-- The decimal digits of an integer. -/
def writeInt (value : Int) : List Char := (toString value).toList

/-- An integer from `least` to `greatest`. -/
def acceptInt (expected : String) (least greatest : Int) : Number → Except Misfit Int
  | .integer value => if least ≤ value ∧ value ≤ greatest then .ok value else .error (.range value expected)
  | .float bits => .error (.kind (.float bits) expected)

/-- Integers of a range, as values of another type. -/
def ranged (expected : String) (least greatest : Int) (ofInt : Int → α) (toInt : α → Int) : Format α where
  reader := ofInt <$> Reader.numberAs expected (acceptInt expected least greatest)
  write value := writeInt (toInt value)

/-- Numbers that serve as keys, up to 32 bits. -/
def key : Format Nat := ranged "u32" 0 (UInt32.size - 1) Int.toNat fun value => value

def word32 : Format UInt32 := ranged "u32" 0 (UInt32.size - 1) (fun value => UInt32.ofNat value.toNat) fun value => value.toNat

def word64 : Format UInt64 := ranged "u64" 0 (UInt64.size - 1) (fun value => UInt64.ofNat value.toNat) fun value => value.toNat

def int64 : Format Int64 := ranged "i64" Int64.minValue.toInt Int64.maxValue.toInt Int64.ofInt Int64.toInt

/-- Any number, as the float nearest to it. -/
def acceptFloat : Number → Except Misfit UInt64
  | .float bits => .ok bits
  | .integer value =>
    if value < 0 then .ok (Reader.signed true (Reader.sizeOf value.natAbs))
    else .ok (Reader.signed false (Reader.sizeOf value.natAbs))

/-- Floats by their bits; those that are not finite are written as null, which is not read back. -/
def float : Format UInt64 := ⟨Reader.numberAs "f64" acceptFloat, fun bits => (floatText bits).toList⟩

/-! ## Formats made from others -/

/-- A format for other values that stand for those of the first one. -/
def equiv (format : Format α) (toOld : β → α) (ofOld : α → β) : Format β where
  reader := ofOld <$> format.reader
  write value := format.write (toOld value)

/-- A format for those values that pass a check, or for what the check makes of them. -/
def checked (format : Format α) (toOld : β → α) (check : α → Except String β) : Format β where
  reader := do
    match check (← format.reader) with
    | .ok value => return value
    | .error reason => Reader.unfit (.refused reason)
  write value := format.write (toOld value)

/-- Null, or a value. -/
def optional (format : Format α) : Format (Option α) where
  reader := do
    match ← Reader.next with
    | some c =>
      if c = 'n' then do Reader.pass; Reader.word ['u', 'l', 'l']; return none
      else some <$> format.reader
    | none => some <$> format.reader
  write
    | some value => format.write value
    | none => "null".toList

/-- The written elements with commas between them. -/
def commas (elements : List (List Char)) : List Char := [','].intercalate elements

/-- A list, where `expected` is asked for. -/
def listAs (expected : String) (format : Format α) : Format (List α) where
  reader := Reader.whole expected fun c =>
    if c = '[' then some (Reader.enclosed (do Reader.pass; Reader.items format.reader) Reader.closeList) else none
  write values := '[' :: commas (values.map format.write) ++ [']']

def list (format : Format α) : Format (List α) := listAs "a sequence" format

/-! ## Maps from keys -/

/-- A key in quotes. -/
def quotedKey : Reader Nat := do
  Reader.pass
  match ← Reader.peek with
  | some c => if c = '-' ∨ Reader.isDigit c then pure () else Reader.malformedBefore .keyNotNumber
  | none => Reader.malformedBefore .keyNotNumber
  let value ← key.reader
  match ← Reader.peek with
  | some '"' => Reader.pass
  | _ => Reader.malformed .noQuote
  return value

/-- An object whose keys are numbers, entry by entry. -/
def mapOfKeys (format : Format α) : Format (List (Nat × α)) where
  reader := Reader.whole "a map" fun c =>
    if c = '\x7b' then
      some (Reader.enclosed
        (do
          Reader.pass
          let entries ← Reader.entries (fun (entries : List (Nat × α)) => do
            let index ← quotedKey
            Reader.colon
            return (index, ← format.reader) :: entries) []
          return entries.reverse)
        Reader.closeObject)
    else none
  write entries :=
    let written := entries.map fun (index, value) => '"' :: writeInt index ++ ['"', ':'] ++ format.write value
    '\x7b' :: commas written ++ ['\x7d']

end Format

end FunctionTrees.Json
