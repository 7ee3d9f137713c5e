import Rim.Json.Basic
import Rim.Number.Binary
import Rim.Number.Parse
/-!
# Reading numbers

A number is an integer part without leading zeros, an optional fraction and an optional exponent.
Digits are gathered into a 64-bit significand; an integer digit that no longer fits raises the
power of ten instead, a decimal that no longer fits is dropped.  A number without fraction and
exponent whose digits all fit is an integer, negative zero and integers below the 64-bit range
aside; every other number is a double, made from its significand by one multiplication or division
by a power of ten.

## Main definitions

* `Json.gather`: digits gathered into a significand.
* `Json.doubleOfParts?`: the double of a significand and a power of ten.
* `Json.readNumber?`: one number at the front of a text.
-/

namespace Rim.Json

open BinaryFormat

/-- The greatest significand. -/
def significandTop : Nat := 18446744073709551615

/-- The digits at the front of a text gathered into a significand while it fits: the significand,
how many digits it took, and the rest. -/
def gather (significand taken : Nat) : List Char → Nat × Nat × List Char
  | [] => (significand, taken, [])
  | c :: rest =>
    match digitValue? c with
    | some d =>
      if 10 * significand + d ≤ significandTop then
        gather (10 * significand + d) (taken + 1) rest
      else (significand, taken, c :: rest)
    | none => (significand, taken, c :: rest)

/-- Whether a character is a decimal digit. -/
def isDigit (c : Char) : Bool := (digitValue? c).isSome

/-- The magnitude of a power of ten that a double can hold. -/
def powerOfTen (e : Nat) : Nat := (double.nearest? (Nat.pow 10 e) 1).getD 0

/-- The greatest power of ten within the range of doubles. -/
def powerTop : Nat := 308

/-- A magnitude divided by a power of ten, taken in steps of the greatest power. -/
def divideByPower : Nat → Nat → Nat → Nat
  | 0, m, _ => m
  | steps + 1, m, e =>
    if e ≤ powerTop then
      let (num, den) := double.ratio (powerOfTen e)
      (Double.scaleBy? m den num).getD 0
    else if m = 0 then 0
    else
      let (num, den) := double.ratio (powerOfTen powerTop)
      divideByPower steps ((Double.scaleBy? m den num).getD 0) (e - powerTop)

/-- The double `significand · 10 ^ exponent`, by one rounding of the significand and one of the
product or quotient; none when the product is out of range. -/
def doubleOfParts? (negative : Bool) (significand : Nat) (exponent : Int) : Option UInt64 := do
  let m ← double.nearest? significand 1
  let magnitude ←
    if exponent < 0 then some (divideByPower 4 m exponent.natAbs)
    else if exponent ≤ powerTop then
      let (num, den) := double.ratio (powerOfTen exponent.toNat)
      Double.scaleBy? m num den
    else if m = 0 then some 0
    else none
  return UInt64.ofNat (magnitude + if negative then double.signBit else 0)

/-- The integer part: the significand, how many digits did not fit, and the rest. -/
def readInteger? : List Char → Option (Nat × Nat × List Char)
  | '0' :: rest => if (rest.head?.any isDigit) then none else some (0, 0, rest)
  | cs =>
    let (significand, taken, rest) := gather 0 0 cs
    if taken = 0 then none
    else some (significand, (rest.takeWhile isDigit).length, rest.dropWhile isDigit)

/-- An optional fraction: the significand, how many of its digits fitted, whether there is a
fraction, and the rest. -/
def readFraction? (significand : Nat) : List Char → Option (Nat × Nat × Bool × List Char)
  | '.' :: cs =>
    if cs.head?.any isDigit then
      let (significand, taken, rest) := gather significand 0 cs
      some (significand, taken, true, rest.dropWhile isDigit)
    else none
  | cs => some (significand, 0, false, cs)

/-- The digits of an exponent, at least one. -/
def readPower? (sign : Int) (cs : List Char) : Option (Int × List Char) :=
  if cs.head?.any isDigit then
    let value := foldDigits 0 ((cs.takeWhile isDigit).filterMap digitValue?)
    some (sign * value, cs.dropWhile isDigit)
  else none

/-- An optional exponent, and the rest. -/
def readExponent? : List Char → Option (Option Int × List Char)
  | [] => some (none, [])
  | c :: cs =>
    if c = 'e' ∨ c = 'E' then
      match cs with
      | '+' :: rest => (readPower? 1 rest).map fun (e, rest) => (some e, rest)
      | '-' :: rest => (readPower? (-1) rest).map fun (e, rest) => (some e, rest)
      | rest => (readPower? 1 rest).map fun (e, rest) => (some e, rest)
    else some (none, c :: cs)

/-- A whole number with its sign: an integer if it has one of 64 bits, and else a double. -/
def wholeNumber? (negative : Bool) (significand : Nat) : Option Json :=
  -- The negative zero is a double, and so is what is below the 64-bit integers.
  if !negative then some (int significand)
  else if 0 < significand ∧ significand ≤ 9223372036854775808 then some (int (-significand))
  else (doubleOfParts? true significand 0).map float

/-- The number at the front of a text, after its sign. -/
def readUnsigned? (negative : Bool) (cs : List Char) : Option (Json × List Char) := do
  let (significand, dropped, cs) ← readInteger? cs
  let (significand, decimals, hasFraction, cs) ← readFraction? significand cs
  let (power, cs) ← readExponent? cs
  if dropped = 0 && !hasFraction && power.isNone then
    return (← wholeNumber? negative significand, cs)
  else
    -- Digits that did not fit move the exponent up, and those of the fraction move it down.
    let exponent := (dropped : Int) - (decimals : Int) + power.getD 0
    return (float (← doubleOfParts? negative significand exponent), cs)

/-- The number at the front of a text. -/
def readNumber? : List Char → Option (Json × List Char)
  | '-' :: cs => readUnsigned? true cs
  | cs => readUnsigned? false cs

end Rim.Json
