import Rim.Cbor.Basic
import Rim.Number.Shortest
import Rim.Text.Hex
import Rim.Text.Quoted
/-!
# Repeated keys

Two keys of a map are the same when they are simple and agree: integers by value, floats by their
bits, text, bytes, truth values, and null.  Arrays, maps and tagged items never count as repeated.

## Main definitions

* `Cbor.Label`: what a simple key is compared and shown by.
* `Cbor.label?`: the label of a key.
* `Cbor.firstRepeat?`: the first repeated key of an item as written.
-/

namespace Rim.Cbor

/-- What a simple key is compared and shown by. -/
inductive Label where
  | int (value : Int)
  | text (value : String)
  | bytes (value : List UInt8)
  | bool (value : Bool)
  | float (bits : UInt64)
  | null
  deriving DecidableEq, Repr

/-- How a label is shown. -/
def Label.message : Label → String
  | int v => toString v
  | text v => Text.quote v
  | bytes v => "h'" ++ Hex.encode v ++ "'"
  | bool true => "true"
  | bool false => "false"
  | float bits => Double.plainText bits
  | null => "null"

/-- The label of a simple key; an array, a map or a tagged item has none. -/
def label? : Cbor → Option Label
  | .null => some .null
  | .bool v => some (.bool v)
  | .int v => some (.int v)
  | .float bits => some (.float bits)
  | .bytes v => some (.bytes v)
  | .text v => some (.text v)
  | .array _ | .map _ | .tag _ _ => none

mutual

/-- The first repeated key of an item, in the order the keys are read: a key counts as repeated
before the repeats within its own value. -/
def firstRepeat? : Cbor → Option Label
  | array items => firstRepeatItems? items
  | map entries => firstRepeatEntries? [] entries
  | tag _ content => content.firstRepeat?
  | _ => none

/-- The first repeated key among items. -/
def firstRepeatItems? : List Cbor → Option Label
  | [] => none
  | item :: rest => item.firstRepeat? <|> firstRepeatItems? rest

/-- The first repeated key among the entries of one map, after the labels already seen. -/
def firstRepeatEntries? (seen : List Label) : List (Cbor × Cbor) → Option Label
  | [] => none
  | (key, value) :: rest =>
    match key.label? with
    | some l =>
      if l ∈ seen then some l
      else value.firstRepeat? <|> firstRepeatEntries? (l :: seen) rest
    | none => value.firstRepeat? <|> firstRepeatEntries? seen rest

end

end Rim.Cbor
