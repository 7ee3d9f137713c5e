/-!
# Binary interchange formats

A floating-point number is handled through its bit pattern.  A format is described by the width
of its fraction, its least scale and its top exponent field; a finite pattern stands for
`m · 2 ^ q`, and every ratio of natural numbers has a nearest pattern, ties going to the even one.

## Main definitions

* `BinaryFormat`: the description, with `half`, `single` and `double`.
* `BinaryFormat.significand`, `BinaryFormat.scale`: the value of a magnitude.
* `BinaryFormat.nearest?`: the magnitude nearest to a ratio, if it does not overflow.
* `widen`, `narrow?`: moving a pattern to and from the double format without changing its value.
-/

namespace Rim

/-- A binary interchange format: the bits of its fraction, the exponent of its least bit, and the
exponent field that marks infinities and not-a-numbers. -/
structure BinaryFormat where
  fractionBits : Nat
  leastScale : Int
  topField : Nat
  deriving DecidableEq, Repr

namespace BinaryFormat

/-- The sixteen-bit format. -/
def half : BinaryFormat := ⟨10, -24, 31⟩

/-- The thirty-two-bit format. -/
def single : BinaryFormat := ⟨23, -149, 255⟩

/-- The sixty-four-bit format. -/
def double : BinaryFormat := ⟨52, -1074, 2047⟩

variable (f : BinaryFormat)

/-- The magnitude of infinity. -/
def infinity : Nat := f.topField * Nat.pow 2 f.fractionBits

/-- The pattern of the sign bit. -/
def signBit : Nat := (f.topField + 1) * Nat.pow 2 f.fractionBits

/-- The pattern without its sign. -/
def magnitude (bits : Nat) : Nat := bits % f.signBit

/-- Whether the sign bit is set. -/
def isNegative (bits : Nat) : Bool := f.signBit ≤ bits

/-- Whether a pattern stands for a number. -/
def isFinite (bits : Nat) : Bool := f.magnitude bits < f.infinity

/-- Whether a pattern is a not-a-number. -/
def isNaN (bits : Nat) : Bool := f.infinity < f.magnitude bits

/-- The integer `m` of the value `m · 2 ^ q` of a finite magnitude. -/
def significand (magnitude : Nat) : Nat :=
  let fraction := magnitude % Nat.pow 2 f.fractionBits
  if magnitude < Nat.pow 2 f.fractionBits then fraction else Nat.pow 2 f.fractionBits + fraction

/-- The exponent `q` of the value `m · 2 ^ q` of a finite magnitude. -/
def scale (magnitude : Nat) : Int :=
  f.leastScale + ((magnitude / Nat.pow 2 f.fractionBits - 1 : Nat) : Int)

/-- The value of a finite magnitude as a ratio. -/
def ratio (magnitude : Nat) : Nat × Nat :=
  let q := f.scale magnitude
  (f.significand magnitude * Nat.pow 2 q.toNat, Nat.pow 2 (-q).toNat)

/-- A ratio rounded to the nearest integer, a half going to the even neighbour. -/
def roundDiv (num den : Nat) : Nat :=
  let low := num / den
  let twice := 2 * (num % den)
  if twice < den ∨ (twice = den ∧ low % 2 = 0) then low else low + 1

/-- The ratio `num / den` divided by `2 ^ q`. -/
def rescale (num den : Nat) (q : Int) : Nat × Nat :=
  (num * Nat.pow 2 (-q).toNat, den * Nat.pow 2 q.toNat)

/-- The exponent at which a ratio has exactly the format's precision, or the least one. -/
def fittingScale (num den : Nat) : Int :=
  let first : Int :=
    max ((num.log2 : Int) - (den.log2 : Int) - (f.fractionBits + 1 : Nat)) f.leastScale
  let (n, d) := rescale num den first
  if n / d < Nat.pow 2 (f.fractionBits + 1) then first else first + 1

/-- The magnitude nearest to `num / den`; none when it would be infinite. -/
def nearest? (num den : Nat) : Option Nat :=
  if num = 0 then some 0
  else
    let q := f.fittingScale num den
    let (n, d) := rescale num den q
    let m := roundDiv n d + (q - f.leastScale).toNat * Nat.pow 2 f.fractionBits
    if m < f.infinity then some m else none

end BinaryFormat

namespace Double

open BinaryFormat

/-- A pattern of a narrower format as a double: the same number, infinity or quiet not-a-number
with the same payload. -/
def widen (f : BinaryFormat) (bits : Nat) : UInt64 :=
  let sign := if f.isNegative bits then double.signBit else 0
  let m := f.magnitude bits
  let wide :=
    if m < f.infinity then
      let (num, den) := f.ratio m
      (double.nearest? num den).getD 0
    else if m = f.infinity then double.infinity
    else
      let payload := (m - f.infinity) * Nat.pow 2 (double.fractionBits - f.fractionBits)
      double.infinity + (payload ||| Nat.pow 2 (double.fractionBits - 1))
  UInt64.ofNat (sign + wide)

/-- The pattern of a narrower format that stands for the same finite number, if there is one. -/
def narrow? (f : BinaryFormat) (bits : UInt64) : Option Nat :=
  let m := double.magnitude bits.toNat
  let sign := if double.isNegative bits.toNat then f.signBit else 0
  if m < double.infinity then
    let (num, den) := double.ratio m
    match f.nearest? num den with
    | some n =>
      let (num', den') := f.ratio n
      if num * den' = num' * den then some (sign + n) else none
    | none => none
  else none

/-- The value of a finite magnitude times a ratio, rounded; none when it overflows. -/
def scaleBy? (magnitude num den : Nat) : Option Nat :=
  let (n, d) := double.ratio magnitude
  double.nearest? (n * num) (d * den)

end Double

end Rim
