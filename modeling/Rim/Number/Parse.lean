/-!
# Decimal integers

Reading of whole numbers written in decimal, with the reason why a text is none.

## Main definitions

* `IntegerError`: why a text is not a number of a range.
* `natural?`: an unsigned number up to a bound.
* `signed?`: a number with an optional sign within bounds.
-/

namespace Rim

/-- Why a text is not a decimal integer of the wanted range. -/
inductive IntegerError
  | empty
  | invalidDigit
  | tooLarge
  | tooSmall
  deriving DecidableEq, Repr

/-- The text of the reason. -/
def IntegerError.message : IntegerError → String
  | .empty => "cannot parse integer from empty string"
  | .invalidDigit => "invalid digit found in string"
  | .tooLarge => "number too large to fit in target type"
  | .tooSmall => "number too small to fit in target type"

/-- The value of a decimal digit. -/
def digitValue? (c : Char) : Option Nat :=
  if '0' ≤ c ∧ c ≤ '9' then some (c.toNat - 48) else none

/-- The number a list of digits spells after what has been read. -/
def foldDigits (value : Nat) (digits : List Nat) : Nat :=
  digits.foldl (fun n d => 10 * n + d) value

/-- The digits read one by one: the first character that is no digit, or the first digit with
which the number leaves the range, is the reason for a refusal. -/
def readDigits (range : Nat → Bool) (overflow : IntegerError) :
    Nat → List Char → Except IntegerError Nat
  | n, [] => .ok n
  | n, c :: rest =>
    match digitValue? c with
    | none => .error .invalidDigit
    | some d =>
      if range (10 * n + d) then readDigits range overflow (10 * n + d) rest
      else .error overflow

/-- An unsigned number of at most `top`. -/
def natural? (top : Nat) (text : String) : Except IntegerError Nat :=
  match text.toList with
  | [] => .error .empty
  | cs => readDigits (fun n => n ≤ top) .tooLarge 0 cs

/-- A number between `-(top + 1)` and `top`, with an optional sign. -/
def signed? (top : Nat) (text : String) : Except IntegerError Int :=
  match text.toList with
  | [] => .error .empty
  | ['+'] | ['-'] => .error .invalidDigit
  | '-' :: cs => (readDigits (fun n => n ≤ top + 1) .tooSmall 0 cs).map fun n => -(n : Int)
  | '+' :: cs => (readDigits (fun n => n ≤ top) .tooLarge 0 cs).map fun n => (n : Int)
  | cs => (readDigits (fun n => n ≤ top) .tooLarge 0 cs).map fun n => (n : Int)

end Rim
