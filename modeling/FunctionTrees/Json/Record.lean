import FunctionTrees.Json.Format

/-!
# Formats of records

A `Layout` lists the fields of a record in order, each with its format and with what holds where it is left out. A record
is written as an object of all its fields. It is read from an object in any order, fields of other names being passed over,
or from a list of its fields in order.
-/

set_option autoImplicit false

namespace FunctionTrees.Json

/-! ## Layouts -/

/-- What holds where a field is left out. -/
inductive Absence (α : Type) where
  | refused
  /-- It can be left out of an object, and is then `value`. -/
  | optional (value : α)
  /-- It can be left out of an object and of the end of a list, and is then `value`. -/
  | defaulted (value : α)

/-- The fields of a record in order. Its values are tuples `ρ` that end in `()`, and `δ` are the tuples that may still lack
fields. -/
inductive Layout : Type → Type → Type 1 where
  | done : Layout Unit Unit
  | field {α ρ δ : Type} (name : String) (format : Format α) (absence : Absence α) (rest : Layout ρ δ) :
    Layout (α × ρ) (Option α × δ)

namespace Layout

variable {ρ δ : Type}

/-- How many fields there are. -/
def size : {ρ δ : Type} → Layout ρ δ → Nat
  | _, _, done => 0
  | _, _, field _ _ _ rest => rest.size + 1

/-! ## Writing -/

/-- The names of the fields with what is written for them. -/
def fields : {ρ δ : Type} → Layout ρ δ → ρ → List (String × List Char)
  | _, _, done, () => []
  | _, _, field name format _ rest, (value, values) => (name, format.write value) :: rest.fields values

/-- An entry of an object: a name, and what is written for it. -/
def entryText (entry : String × List Char) : List Char := writeText entry.1 ++ ':' :: entry.2

/-! ## Reading an object -/

/-- No field read. -/
def blank : {ρ δ : Type} → Layout ρ δ → δ
  | _, _, done => ()
  | _, _, field _ _ _ rest => (none, rest.blank)

/-- How the field of the given name is read, if there is such a field. -/
def assign? : {ρ δ : Type} → Layout ρ δ → String → δ → Option (Reader δ)
  | _, _, done, _, () => none
  | _, _, field name format _ rest, key, (value, values) =>
    if key = name then
      some (match value with
        | some _ => Reader.unfit (.repeatedField name)
        | none => do
          Reader.colon
          return (some (← format.reader), values))
    else (rest.assign? key values).map fun reader => do return (value, ← reader)

/-- Reads one entry of an object. -/
def entry (layout : Layout ρ δ) (draft : δ) : Reader δ := do
  Reader.pass
  let key ← Reader.textBody
  match layout.assign? key draft with
  | some reader => reader
  | none =>
    Reader.colon
    Reader.skipValue
    return draft

/-- The record that the fields make, or the first field that is lacking. -/
def complete : {ρ δ : Type} → Layout ρ δ → δ → Except String ρ
  | _, _, done, () => .ok ()
  | _, _, field name _ absence rest, (value, values) =>
    match value, absence with
    | some value, _ => (rest.complete values).map fun row => (value, row)
    | none, .optional value => (rest.complete values).map fun row => (value, row)
    | none, .defaulted value => (rest.complete values).map fun row => (value, row)
    | none, .refused => .error name

/-- The entries of an object. -/
def ofEntries (layout : Layout ρ δ) : Reader ρ := do
  match layout.complete (← Reader.entries layout.entry layout.blank) with
  | .ok row => return row
  | .error name => Reader.unfit (.missingField name)

/-! ## Reading a list -/

/-- The elements of a list from place `index` on, `expected` being what a list of another length is not. -/
def ofItems (expected : String) : {ρ δ : Type} → Layout ρ δ → (index : Nat) → Reader ρ
  | _, _, done, _ => return ()
  | _, _, field _ format absence rest, index => do
    if ← (if index = 0 then Reader.firstItem else Reader.nextItem) then
      let value ← format.reader
      return (value, ← rest.ofItems expected (index + 1))
    else
      match absence with
      | .defaulted value => return (value, ← rest.ofItems expected (index + 1))
      | _ => Reader.unfit (.length index expected)

end Layout

/-! ## Records -/

namespace Format

variable {α ρ δ : Type}

/-- What a list of another length than that of the fields is not. -/
def lengthText (shape : String) (size : Nat) : String :=
  s!"{shape} with {size} element" ++ if size = 1 then "" else "s"

/-- An object of the given entries. -/
def writeObject (entries : List (String × List Char)) : List Char :=
  '\x7b' :: commas (entries.map Layout.entryText) ++ ['\x7d']

/-- The format of a record: its name, its fields, and what they are in a value. -/
def record (name : String) (layout : Layout ρ δ) (toRow : α → ρ) (ofRow : ρ → α) : Format α where
  reader := ofRow <$> Reader.whole ("struct " ++ name) fun c =>
    if c = '[' then
      some (Reader.enclosed
        (do Reader.pass; layout.ofItems (lengthText ("struct " ++ name) layout.size) 0) Reader.closeList)
    else if c = '\x7b' then some (Reader.enclosed (do Reader.pass; layout.ofEntries) Reader.closeObject)
    else none
  write value := writeObject (layout.fields (toRow value))

/-- Several values in a list of their own, where `expected` is asked for. -/
def tuple (expected : String) (layout : Layout ρ δ) : Reader ρ :=
  Reader.whole expected fun c =>
    if c = '[' then
      some (Reader.enclosed (do Reader.pass; layout.ofItems (lengthText expected layout.size) 0) Reader.closeList)
    else none

end Format

/-! ## Choices -/

/-- One case of a choice. -/
inductive Case (α : Type) where
  /-- It has no content. -/
  | bare (value : α)
  | content (reader : Reader α)
  /-- Its content is a list of several values. -/
  | contents (reader : Reader α)

namespace Case

variable {α : Type}

/-- A case of which nothing but the name is there. -/
def alone : Case α → Reader α
  | bare value => return value
  | content _ => Reader.unfit (.kind .bareCase "newtype variant")
  | contents _ => Reader.unfit (.kind .bareCase "tuple variant")

/-- A case whose content comes next. -/
def withContent : Case α → Reader α
  | bare value => do Reader.nothing; return value
  | content reader => reader
  | contents reader => reader

/-- The case that the text names that comes next. -/
def named (cases : List (String × Case α)) : Reader (Case α) := Reader.placed do
  Reader.pass
  let name ← Reader.textBody
  match cases.lookup name with
  | some found => return found
  | none => Reader.unfit (.unknownCase name (cases.map Prod.fst))

/-- The case that the key of an object names. -/
def ofKey (cases : List (String × Case α)) : Reader (Case α) := do
  match ← Reader.next with
  | none => Reader.ended .object
  | some c =>
    if c = '"' then named cases
    else if c = '\x7d' then Reader.malformed .noValue
    else Reader.malformed .keyNotText

/-- A choice: the name of a case, or an object that has the name for its one key and the content for its value. -/
def reader (cases : List (String × Case α)) : Reader α := do
  match ← Reader.next with
  | none => Reader.ended .value
  | some c =>
    if c = '"' then do
      (← named cases).alone
    else if c = '\x7b' then do
      Reader.pass
      let found ← ofKey cases
      Reader.colon
      let value ← found.withContent
      match ← Reader.next with
      | none => Reader.ended .object
      | some d =>
        if d = '\x7d' then do
          Reader.pass
          return value
        else Reader.malformedBefore .noValue
    else Reader.malformed .noValue

/-- A case without content. -/
def writeBare (name : String) : List Char := writeText name

/-- A case with its written content. -/
def writeContent (name : String) (content : List Char) : List Char :=
  '\x7b' :: writeText name ++ ':' :: content ++ ['\x7d']

end Case

end FunctionTrees.Json
