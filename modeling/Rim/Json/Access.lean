import Rim.Json.Basic
/-!
# Looking into JSON values

A value is looked at as what it is expected to be; a value of another sort has no such view.

## Main definitions

* `Json.text?`, `Json.truth?`, `Json.whole?`, `Json.items?`: the views by sort.
* `Json.natural?`, `Json.uint64?`, `Json.int64?`: whole numbers within a range.
* `Json.listOf?`: lists of things of one sort.
* `Json.present?`: a member that is there and not null.
-/

namespace Rim.Json

/-- The text a value is. -/
def text? : Json → Option String
  | string s => some s
  | _ => none

/-- The truth value a value is. -/
def truth? : Json → Option Bool
  | bool b => some b
  | _ => none

/-- The whole number a value is. -/
def whole? : Json → Option Int
  | int v => some v
  | _ => none

/-- The items of a list. -/
def items? : Json → Option (List Json)
  | array items => some items
  | _ => none

/-- The natural number a value is. -/
def natural? (v : Json) : Option Nat := do
  let n ← v.whole?
  if 0 ≤ n then some n.toNat else none

/-- The unsigned 64-bit number a value is. -/
def uint64? (v : Json) : Option UInt64 := do
  let n ← v.natural?
  if n < 18446744073709551616 then some (UInt64.ofNat n) else none

/-- The signed 64-bit number a value is. -/
def int64? (v : Json) : Option Int64 := do
  let n ← v.whole?
  if Int64.minValue.toInt ≤ n ∧ n ≤ Int64.maxValue.toInt then some (Int64.ofInt n) else none

/-- The list of things a value is. -/
def listOf? {α : Type} (one : Json → Option α) (v : Json) : Option (List α) := do
  (← v.items?).mapM one

/-- A member of an object that is not null. -/
def present? (name : String) (v : Json) : Option Json :=
  match v.member? name with
  | some null => none
  | member => member

end Rim.Json
