import FunctionTrees.Decimal
import FunctionTrees.Text.Quoted

/-!
# What can be wrong with a JSON text

A `Fault` is the first problem that a reader meets: the text ends too early, it is not JSON, or it is JSON of another
shape than the one asked for. A fault can have a `Spot`, from which `Fault.messageIn` tells line and column.
-/

set_option autoImplicit false

namespace FunctionTrees.Json

/-! ## Causes -/

/-- A part of a text that can be cut short. -/
inductive Part where
  | list
  | object
  | text
  | value
deriving DecidableEq

def Part.message : Part → String
  | list => "EOF while parsing a list"
  | object => "EOF while parsing an object"
  | text => "EOF while parsing a string"
  | value => "EOF while parsing a value"

/-- A way of not being JSON. -/
inductive Slip where
  | noColon
  | noListEnd
  | noObjectEnd
  | noWord
  | noValue
  | noQuote
  | badEscape
  | badNumber
  | numberTooLarge
  | controlCharacter
  | keyNotText
  | keyNotNumber
  | loneSurrogate
  | halfSurrogate
  | trailingComma
  | trailingText
deriving DecidableEq

def Slip.message : Slip → String
  | noColon => "expected `:`"
  | noListEnd => "expected `,` or `]`"
  | noObjectEnd => "expected `,` or `\x7d`"
  | noWord => "expected ident"
  | noValue => "expected value"
  | noQuote => "expected `\"`"
  | badEscape => "invalid escape"
  | badNumber => "invalid number"
  | numberTooLarge => "number out of range"
  | controlCharacter => "control character (\\u0000-\\u001F) found while parsing a string"
  | keyNotText => "key must be a string"
  | keyNotNumber => "invalid value: expected key to be a number in quotes"
  | loneSurrogate => "lone leading surrogate in hex escape"
  | halfSurrogate => "unexpected end of hex escape"
  | trailingComma => "trailing comma"
  | trailingText => "trailing characters"

/-- What a reader found in place of what it was asked for. -/
inductive Found where
  | null
  | bool (value : Bool)
  | integer (value : Int)
  | float (bits : UInt64)
  | text (value : String)
  | list
  | object
  /-- The name of a case without the content that the case has. -/
  | bareCase
deriving DecidableEq

/-- Floats are positional from `0.00001` up to, but not including, `10 ^ 16`; exponents bear their sign, and a tie goes to
the even digit. -/
def floatStyle : Decimal.Style := ⟨-5, 15, "+", .even⟩

/-- The text of a float; those that are not finite have none of their own. -/
def floatText (bits : UInt64) : String := (floatStyle.text? bits).getD "null"

def Found.message : Found → String
  | null => "null"
  | bool value => s!"boolean `{value}`"
  | integer value => s!"integer `{value}`"
  | float bits => "floating point `" ++ floatText bits ++ "`"
  | text value => "string " ++ Text.quote value
  | list => "sequence"
  | object => "map"
  | bareCase => "unit variant"

/-- A way of being JSON of another shape than the one asked for. -/
inductive Misfit where
  | kind (found : Found) (expected : String)
  | range (value : Int) (expected : String)
  | length (count : Nat) (expected : String)
  | unknownCase (name : String) (names : List String)
  | repeatedField (name : String)
  | missingField (name : String)
  /-- The value has the right shape and is refused for another reason. -/
  | refused (reason : String)
deriving DecidableEq

/-- Names to choose from. -/
def oneOf (names : List String) : String :=
  let quoted := names.map fun name => "`" ++ name ++ "`"
  match quoted with
  | [] => "there are no variants"
  | [name] => "expected " ++ name
  | [first, second] => "expected " ++ first ++ " or " ++ second
  | _ => "expected one of " ++ ", ".intercalate quoted

def Misfit.message : Misfit → String
  | kind found expected => "invalid type: " ++ found.message ++ ", expected " ++ expected
  | range value expected => "invalid value: " ++ (Found.integer value).message ++ ", expected " ++ expected
  | length count expected => s!"invalid length {count}, expected " ++ expected
  | unknownCase name names => "unknown variant `" ++ name ++ "`, " ++ oneOf names
  | repeatedField name => "duplicate field `" ++ name ++ "`"
  | missingField name => "missing field `" ++ name ++ "`"
  | refused reason => reason

/-- Why a text was not read. -/
inductive Cause where
  | ended (part : Part)
  | malformed (slip : Slip)
  | unfit (misfit : Misfit)
deriving DecidableEq

def Cause.message : Cause → String
  | ended part => part.message
  | malformed slip => slip.message
  | unfit misfit => misfit.message

/-! ## Places -/

/-- A place in a text: `ahead` bytes on from where `rest` is left to read, and never beyond the end. -/
structure Spot where
  rest : List Char
  ahead : Nat
deriving DecidableEq

/-- How many bytes a text takes. -/
def byteCount (chars : List Char) : Nat := chars.foldl (fun count c => count + c.utf8Size) 0

/-- The line of a place, counted from 1, and how many bytes of that line are before it. -/
def Spot.lineAndColumn (spot : Spot) (source : String) : Nat × Nat :=
  let bytes := source.toUTF8.data.toList
  let before := bytes.take (bytes.length - byteCount spot.rest + spot.ahead)
  let current := before.reverse.takeWhile (· ≠ 10)
  (before.count 10 + 1, current.length)

/-- The first problem in a text, and its place if it has one. -/
structure Fault where
  cause : Cause
  spot : Option Spot
deriving DecidableEq

namespace Fault

def message (fault : Fault) : String := fault.cause.message

/-- The message with the place in `source`, if the fault has one. -/
def messageIn (fault : Fault) (source : String) : String :=
  match fault.spot with
  | some spot =>
    let (line, column) := spot.lineAndColumn source
    fault.message ++ s!" at line {line} column {column}"
  | none => fault.message

end Fault

end FunctionTrees.Json
