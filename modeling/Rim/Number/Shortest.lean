import Rim.Number.Binary
/-!
# Shortest decimals

A finite double is shown by the fewest decimal digits that read back as the same double.  For each
count of digits the two neighbours of the value on that decimal grid are tried; the first grid
with a hit wins, and of two hits the nearer.  A value may lie exactly half-way between its two
hits: `2 ^ -25` is `2.98023223876953125e-8`, and sixteen digits suffice.  Which of the two is
taken then is a choice of the notation, and the notations here choose differently.

## Main definitions

* `Decimal`: digits and a power of ten.
* `Tie`: which of two equally near decimals is taken.
* `Decimal.shortest`: the shortest decimal of a magnitude.
* `Decimal.positional`, `Decimal.scientific`: the two notations.
* `Double.plainText`: the text of a double in positional notation.
* `Double.numberText`: the text of a finite double as a JSON number.
-/

namespace Rim

/-- The number `digits · 10 ^ exponent`. -/
structure Decimal where
  digits : Nat
  exponent : Int
  deriving DecidableEq, Repr

/-- Which of two equally near decimals is taken. -/
inductive Tie where
  /-- The one further from zero. -/
  | up
  /-- The one whose last digit is even. -/
  | toEven
  deriving DecidableEq, Repr

/-- Whether a value half-way between `low` and its successor goes to `low`. -/
def Tie.takesLow : Tie → Nat → Bool
  | up, _ => false
  | toEven, low => low % 2 = 0

namespace Decimal

/-- The decimal as a ratio. -/
def ratio (d : Decimal) : Nat × Nat :=
  (d.digits * Nat.pow 10 d.exponent.toNat, Nat.pow 10 (-d.exponent).toNat)

/-- The exponent `k` with `10 ^ k ≤ num / den < 10 ^ (k + 1)`, for a positive ratio. -/
def leadingPlace (num den : Nat) : Int :=
  if den ≤ num then ((Nat.toDigits 10 (num / den)).length : Int) - 1
  else
    let below := (den + num - 1) / num - 1
    0 - ((Nat.toDigits 10 below).length : Int)

/-- Whether a decimal reads back as the magnitude. -/
def readsBack (f : BinaryFormat) (magnitude : Nat) (d : Decimal) : Bool :=
  let (n, k) := d.ratio
  f.nearest? n k == some magnitude

/-- The best decimal with exponent `e` that reads back, if one does: the nearer of the two, and of
two equally near ones that of the tie rule. -/
def onGrid? (tie : Tie) (f : BinaryFormat) (magnitude : Nat) (e : Int) : Option Decimal :=
  let (num, den) := f.ratio magnitude
  let n := num * Nat.pow 10 (-e).toNat
  let d := den * Nat.pow 10 e.toNat
  let low := n / d
  let lowHit := readsBack f magnitude ⟨low, e⟩
  let highHit := readsBack f magnitude ⟨low + 1, e⟩
  let twice := 2 * (n % d)
  let lowNearer := twice < d ∨ (twice = d ∧ tie.takesLow low)
  if lowHit && (lowNearer || !highHit) then some ⟨low, e⟩
  else if highHit then some ⟨low + 1, e⟩
  else none

/-- A decimal without the zeros at the end of its digits. -/
def strip : Nat → Decimal → Decimal
  | 0, d => d
  | n + 1, d =>
    if d.digits ≠ 0 ∧ d.digits % 10 = 0 then strip n ⟨d.digits / 10, d.exponent + 1⟩ else d

/-- The first hit among the grids of ever more digits, starting at place `e`. -/
def firstHit (tie : Tie) (f : BinaryFormat) (magnitude : Nat) : Nat → Int → Decimal
  | 0, e => ⟨0, e⟩
  | n + 1, e => (onGrid? tie f magnitude e).getD (firstHit tie f magnitude n (e - 1))

/-- The shortest decimal of a finite magnitude. -/
def shortest (tie : Tie) (f : BinaryFormat) (magnitude : Nat) : Decimal :=
  if magnitude = 0 then ⟨0, 0⟩
  else
    let (num, den) := f.ratio magnitude
    strip 20 (firstHit tie f magnitude 18 (leadingPlace num den))

/-- The digits of a decimal. -/
def digitChars (d : Decimal) : List Char :=
  Nat.toDigits 10 d.digits

/-- The power of ten of the first digit. -/
def leadingExponent (d : Decimal) : Int :=
  d.exponent + (d.digitChars.length : Int) - 1

/-- Positional notation; `point` is added to a whole number. -/
def positional (point : List Char) (d : Decimal) : List Char :=
  let ds := d.digitChars
  let before := ds.length - (-d.exponent).toNat
  if 0 ≤ d.exponent then ds ++ List.replicate d.exponent.toNat '0' ++ point
  else if 0 < before then ds.take before ++ '.' :: ds.drop before
  else '0' :: '.' :: (List.replicate ((-d.exponent).toNat - ds.length) '0' ++ ds)

/-- Scientific notation: one digit before the point, and an exponent with its sign. -/
def scientific (d : Decimal) : List Char :=
  let ds := d.digitChars
  let mantissa :=
    match ds with
    | [] => []
    | [c] => [c]
    | c :: rest => c :: '.' :: rest
  let e := d.leadingExponent
  mantissa ++ 'e' :: (if e < 0 then '-' else '+') :: Nat.toDigits 10 e.natAbs

end Decimal

namespace Double

open BinaryFormat

/-- The sign of a pattern as text. -/
def signText (bits : UInt64) : List Char :=
  if double.isNegative bits.toNat then ['-'] else []

/-- The text of any double in positional notation: whole numbers have no point, infinities are
`inf`, and what is not a number is `NaN`.  Of two equally near decimals the greater magnitude is
shown. -/
def plainText (bits : UInt64) : String :=
  let m := double.magnitude bits.toNat
  if m < double.infinity then
    String.ofList (signText bits ++ (Decimal.shortest .up double m).positional [])
  else if m = double.infinity then String.ofList (signText bits ++ ['i', 'n', 'f'])
  else "NaN"

/-- The text of a finite double as a number of a JSON text: positional while the first digit stands
between the fifth decimal place and the sixteenth place before the point, scientific elsewhere.
Of two equally near decimals the one with an even last digit is written. -/
def numberText (bits : UInt64) : String :=
  let d := Decimal.shortest .toEven double (double.magnitude bits.toNat)
  let e := d.leadingExponent
  String.ofList (signText bits ++
    (if -5 ≤ e ∧ e ≤ 15 then d.positional ['.', '0'] else d.scientific))

end Double

end Rim
