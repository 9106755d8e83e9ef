/-!
# Floats and decimals

A finite float stands for a number `m * 2 ^ q`, and every number that lies nearer to it than to its neighbours is read
as that float. `shortest` picks, among the decimals with the fewest digits that are so read, the one nearest to the number
itself. All of it is exact arithmetic on natural numbers.

`nearest` gives the bits of the float nearest to a fraction. Products and quotients of floats are worked out exactly and
then rounded; none of the floats there is negative.

A `Style` says how the digits of a float are laid out: up to where they are written positionally, how an exponent is
written, which way ties go. `Style.text?` writes a finite float in a style.
-/

set_option autoImplicit false

namespace FunctionTrees.Decimal

/-! ## Floats as binary numbers -/

/-- The size of a finite float: `significand * 2 ^ exponent`. -/
structure Binary where
  significand : Nat
  exponent : Int
  /-- The next smaller float is half as far away as the next larger one. -/
  narrowBelow : Bool
deriving DecidableEq

/-- Whether the sign bit is set. -/
def isNegative (bits : UInt64) : Bool := bits.toNat / Nat.pow 2 63 = 1

/-- Whether the bits are those of a number, and not of an infinity or of no number at all. -/
def isFinite (bits : UInt64) : Bool := bits.toNat / Nat.pow 2 52 % 2048 ≠ 2047

/-- The size of the float with the given bits, which are those of a finite one. -/
def Binary.ofBits (bits : UInt64) : Binary :=
  let fraction : Nat := bits.toNat % Nat.pow 2 52
  let scale : Nat := bits.toNat / Nat.pow 2 52 % 2048
  if scale = 0 then ⟨fraction, -1074, false⟩
  else ⟨fraction + Nat.pow 2 52, (scale : Int) - 1075, fraction = 0 ∧ 1 < scale⟩

/-! ## The shortest decimal -/

/-- The number `digits * 10 ^ exponent`. -/
structure Scientific where
  digits : Nat
  exponent : Int
deriving DecidableEq

/-- Which of two equally near neighbours is taken. -/
inductive Tie where
  | even
  | up
deriving DecidableEq

/-- Whether a tie above `lower` goes to its upper neighbour. -/
def Tie.goesUp (tie : Tie) (lower : Nat) : Bool :=
  match tie with
  | .even => lower % 2 = 1
  | .up => true

/-- The power of ten at or below a positive number. -/
def Binary.magnitude (number : Binary) : Int :=
  let scaled := number.significand * Nat.pow 2 number.exponent.toNat * Nat.pow 10 342 / Nat.pow 2 (-number.exponent).toNat
  ((Nat.toDigits 10 scaled).length : Int) - 343

/-- The multiple of `10 ^ power` that is read as `number` and nearest to it, if there is one. -/
def Binary.onGrid (number : Binary) (tie : Tie) (power : Int) : Option Nat :=
  let unit := Nat.pow 2 number.exponent.toNat * Nat.pow 10 (-power).toNat
  let den := Nat.pow 2 (-number.exponent).toNat * Nat.pow 10 power.toNat
  let num := number.significand * unit
  let below := if number.narrowBelow then 1 else 2
  let closed := number.significand % 2 = 0
  let lower := num / den
  let upper := lower + 1
  let lowerFits := 4 * num < 4 * lower * den + below * unit ∨ closed ∧ 4 * num = 4 * lower * den + below * unit
  let upperFits := 4 * upper * den < 4 * num + 2 * unit ∨ closed ∧ 4 * upper * den = 4 * num + 2 * unit
  if lowerFits ∧ upperFits then
    if 2 * num < (2 * lower + 1) * den then some lower
    else if (2 * lower + 1) * den < 2 * num then some upper
    else some (if tie.goesUp lower then upper else lower)
  else if lowerFits then some lower
  else if upperFits then some upper
  else none

/-- Moves the zeros at the end of the digits into the exponent, at most `fuel` of them. -/
def Scientific.trim : Nat → Scientific → Scientific
  | 0, decimal => decimal
  | fuel + 1, decimal =>
    if decimal.digits ≠ 0 ∧ decimal.digits % 10 = 0 then
      Scientific.trim fuel ⟨decimal.digits / 10, decimal.exponent + 1⟩
    else decimal

/-- The decimal of fewest digits that is read as the positive `number`, and of those the nearest; 17 digits always
suffice. -/
def shortest (tie : Tie) (number : Binary) : Scientific :=
  let magnitude := number.magnitude
  let found := (List.range 17).findSome? fun (count : Nat) =>
    let power := magnitude - (count : Int)
    (number.onGrid tie power).map fun digits => (⟨digits, power⟩ : Scientific)
  (found.getD ⟨number.significand, number.exponent⟩).trim 18

/-! ## Rounding to floats -/

/-- The bits of the infinity, which is what is too large for any other float. -/
def infinity : UInt64 := UInt64.ofNat (2047 * Nat.pow 2 52)

/-- The power of two at or below a positive fraction. -/
def floorLog (num den : Nat) : Int :=
  let power := (Nat.log2 num : Int) - Nat.log2 den
  if num * Nat.pow 2 (-power).toNat < den * Nat.pow 2 power.toNat then power - 1 else power

/-- The whole number nearest to a fraction, of two equally near ones the even one. -/
def roundToEven (num den : Nat) : Nat :=
  let lower := num / den
  let rest := num % den
  if 2 * rest < den then lower
  else if den < 2 * rest then lower + 1
  else lower + lower % 2

/-- The float nearest to a fraction, of two equally near ones the even one. -/
def nearest (num den : Nat) : UInt64 :=
  if num = 0 then 0
  else
    -- floats are multiples of `2 ^ place` here, and they have the bits one after the other
    let place := max (-1074) (floorLog num den - 52)
    let multiple := roundToEven (num * Nat.pow 2 (-place).toNat) (den * Nat.pow 2 place.toNat)
    let bits := (place + 1074).toNat * Nat.pow 2 52 + multiple
    if bits < infinity.toNat then UInt64.ofNat bits else infinity

/-- The float nearest to `num / den * 2 ^ exponent`. -/
def nearestScaled (num den : Nat) (exponent : Int) : UInt64 :=
  nearest (num * Nat.pow 2 exponent.toNat) (den * Nat.pow 2 (-exponent).toNat)

/-- The product of two finite floats. -/
def product (first second : UInt64) : UInt64 :=
  let first := Binary.ofBits first
  let second := Binary.ofBits second
  nearestScaled (first.significand * second.significand) 1 (first.exponent + second.exponent)

/-- The quotient of two finite floats, the second of which is not zero. -/
def quotient (first second : UInt64) : UInt64 :=
  let first := Binary.ofBits first
  let second := Binary.ofBits second
  nearestScaled first.significand second.significand (first.exponent - second.exponent)

/-! ## Decimals as text -/

/-- How floats are written. -/
structure Style where
  /-- The least power of ten that is written positionally. -/
  least : Int
  /-- The greatest power of ten that is written positionally. -/
  greatest : Int
  /-- What is written before an exponent that is not negative. -/
  plus : String
  tie : Tie
deriving DecidableEq

namespace Style

/-- So many zeros. -/
def zeros (count : Nat) : String := String.ofList (List.replicate count '0')

/-- The digits with a point among them or after them, or with zeros before them. -/
def positional (digits : String) (exponent : Int) : String :=
  let point := (digits.length : Int) + exponent
  if 0 ≤ exponent then digits ++ zeros exponent.toNat ++ ".0"
  else if 0 < point then
    String.ofList (digits.toList.take point.toNat) ++ "." ++ String.ofList (digits.toList.drop point.toNat)
  else "0." ++ zeros (-point).toNat ++ digits

/-- The first digit, a point and the others if there are any, and the exponent. -/
def scientific (style : Style) (digits : String) (power : Int) : String :=
  let first := String.ofList (digits.toList.take 1)
  let others := digits.toList.drop 1
  let fraction := if others.isEmpty then "" else "." ++ String.ofList others
  first ++ fraction ++ "e" ++ (if 0 ≤ power then style.plus else "") ++ toString power

/-- A number that is not negative. -/
def magnitudeText (style : Style) (number : Binary) : String :=
  if number.significand = 0 then "0.0"
  else
    let decimal := shortest style.tie number
    let digits := toString decimal.digits
    let power := (digits.length : Int) + decimal.exponent - 1
    if style.least ≤ power ∧ power ≤ style.greatest then positional digits decimal.exponent
    else style.scientific digits power

/-- The text of a finite float; there is none for the others. -/
def text? (style : Style) (bits : UInt64) : Option String :=
  if isFinite bits then
    some ((if isNegative bits then "-" else "") ++ style.magnitudeText (Binary.ofBits bits))
  else none

end Style

end FunctionTrees.Decimal
