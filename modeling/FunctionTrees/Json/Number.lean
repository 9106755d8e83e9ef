import FunctionTrees.Decimal
import FunctionTrees.Json.Reader

/-!
# Numbers in JSON

A number is an integer while it has neither fraction nor exponent and fits 64 bits, and a float otherwise; so is the
negative zero. The size of a float is worked out in float arithmetic: the first digits that fit 64 bits make a whole
number, which is then multiplied or divided by a power of ten (`scale`).
-/

set_option autoImplicit false

namespace FunctionTrees.Json

/-! ## Values -/

/-- A number as it was written. -/
inductive Number where
  | integer (value : Int)
  | float (bits : UInt64)
deriving DecidableEq

/-- The float nearest to a power of ten. -/
def tenTo (power : Nat) : UInt64 := Decimal.nearest (Nat.pow 10 power) 1

/-- A float over a power of ten, `10 ^ 308` being the largest that is divided by at once. -/
def dividedBy (size : UInt64) (power : Nat) : UInt64 :=
  if power ≤ 308 then Decimal.quotient size (tenTo power)
  else if size = 0 then size
  else dividedBy (Decimal.quotient size (tenTo 308)) (power - 308)
termination_by power

/-- `size * 10 ^ power`, unless it is too large for a float. -/
def scale (size : UInt64) (power : Int) : Option UInt64 :=
  if power < 0 then some (dividedBy size (-power).toNat)
  else if power ≤ 308 then
    let scaled := Decimal.product size (tenTo power.toNat)
    if scaled = Decimal.infinity then none else some scaled
  else if size = 0 then some size
  else none

/-- Appends decimal digits to a number for as long as it fits 64 bits; also, how many were appended. -/
def appendDigits (value : Nat) : List Nat → Nat × Nat
  | [] => (value, 0)
  | digit :: digits =>
    if value * 10 + digit < UInt64.size then
      let (result, count) := appendDigits (value * 10 + digit) digits
      (result, count + 1)
    else (value, 0)

/-- The largest exponent that is told apart from larger ones. -/
def exponentLimit : Nat := UInt32.size / 2 - 1

/-- How many digits it takes to pass the exponent limit, if they do. -/
def digitsPastLimit (value : Nat) : List Nat → Option Nat
  | [] => none
  | digit :: digits =>
    if exponentLimit < value * 10 + digit then some 1
    else (digitsPastLimit (value * 10 + digit) digits).map (· + 1)

/-! ## Parts -/

namespace Reader

def isDigit (c : Char) : Bool := '0' ≤ c ∧ c ≤ '9'

def digitValue (c : Char) : Nat := c.toNat - '0'.toNat

/-- All digits that come next. -/
def digits : Reader (List Nat) where
  run chars := .done ((chars.takeWhile isDigit).map digitValue) (chars.dropWhile isDigit)
  shrinks _ := List.Sublist.length_le (List.dropWhile_sublist _)

/-- Passes over the next character if it is one of those given, and tells which. -/
def pass? (choices : List Char) : Reader (Option Char) := do
  match ← peek with
  | some c => if c ∈ choices then do pass; return some c else return none
  | none => return none

/-- The digits before the point: a single zero, or any digits that do not begin with one. -/
def wholeDigits : Reader (List Nat) := do
  match ← peek with
  | none => ended .value
  | some c =>
    if c = '0' then do
      pass
      match ← peek with
      | some d => if isDigit d then malformed .badNumber else return [0]
      | none => return [0]
    else if isDigit c then digits
    else malformed .badNumber

/-- The digits after the point, if there is a point. -/
def fractionDigits : Reader (Option (List Nat)) := do
  match ← pass? ['.'] with
  | none => return none
  | some _ =>
    match ← digits with
    | [] =>
      match ← peek with
      | some _ => malformed .badNumber
      | none => ended .value
    | found => return some found

/-- The digits of an exponent; if `bounded`, they must not pass the limit. -/
def exponentDigits (bounded : Bool) : Reader Nat where
  run chars :=
    let found := (chars.takeWhile isDigit).map digitValue
    match digitsPastLimit 0 found with
    | some count =>
      if bounded then .stop ⟨.malformed .numberTooLarge, some ⟨chars.drop count, 0⟩⟩ (chars.drop count)
      else .done exponentLimit (chars.dropWhile isDigit)
    | none => .done (found.foldl (fun value digit => value * 10 + digit) 0) (chars.dropWhile isDigit)
  shrinks chars := by
    have h : (chars.dropWhile isDigit).length ≤ chars.length := List.Sublist.length_le (List.dropWhile_sublist _)
    dsimp only
    split
    · split
      · simp [Outcome.rest]
      · exact h
    · exact h

/-- The exponent, if there is one. One that is too large for any float is refused, unless the number is `zero`. -/
def exponent (zero : Bool) : Reader (Option Int) := do
  match ← pass? ['e', 'E'] with
  | none => return none
  | some _ =>
    let sign ← pass? ['+', '-']
    match ← peek with
    | none => ended .value
    | some c =>
      if isDigit c then
        if sign = some '-' then return some (-(← exponentDigits false : Nat))
        else return some (← exponentDigits (!zero) : Nat)
      else malformed .badNumber

/-! ## Numbers -/

/-- The float with the given sign and size. -/
def signed (negative : Bool) (size : UInt64) : UInt64 := if negative then size + UInt64.ofNat (Nat.pow 2 63) else size

/-- The size of a whole number. -/
def sizeOf (value : Nat) : UInt64 := Decimal.nearest value 1

/-- A number after its sign. -/
def unsignedNumber (negative : Bool) : Reader Number := do
  let whole ← wholeDigits
  let (wholeValue, wholeCount) := appendDigits 0 whole
  let fraction ← fractionDigits
  let (value, fractionCount) := appendDigits wholeValue (fraction.getD [])
  let exponent ← exponent (value = 0)
  if fraction.isNone ∧ exponent.isNone ∧ wholeCount = whole.length then
    if ¬ negative then return .integer value
    else if value = 0 ∨ UInt64.size / 2 < value then return .float (signed true (sizeOf value))
    else return .integer (-value)
  else
    let power : Int := exponent.getD 0 + ((whole.length - wholeCount : Nat) : Int) - (fractionCount : Int)
    match scale (sizeOf value) power with
    | some size => return .float (signed negative size)
    | none => malformedBefore .numberTooLarge

/-- A number, of which a sign or a digit comes next. -/
def number : Reader Number := do
  match ← pass? ['-'] with
  | some _ => unsignedNumber true
  | none => unsignedNumber false

/-! ## Passing over numbers -/

/-- Passes over the digits that come next, of which there must be one. -/
def skipDigits : Reader Unit := do
  match ← digits with
  | [] => malformed .badNumber
  | _ => return ()

/-- Passes over the digits before the point: a single zero, or any digits that do not begin with one. -/
def skipWholeDigits : Reader Unit := do
  match ← pass? ['0'] with
  | none => skipDigits
  | some _ =>
    match ← peek with
    | some c => if isDigit c then malformed .badNumber else return ()
    | none => return ()

/-- Passes over a number of any size. -/
def skipNumber : Reader Unit := do
  let _ ← pass? ['-']
  skipWholeDigits
  if (← pass? ['.']).isSome then skipDigits
  if (← pass? ['e', 'E']).isSome then
    let _ ← pass? ['+', '-']
    skipDigits

end Reader

end FunctionTrees.Json
