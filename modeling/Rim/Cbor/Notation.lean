import Rim.Cbor.Order
import Rim.Cbor.Reader
import Rim.Cbor.Writer
import Rim.Json.Access
import Rim.Text.Hex
/-!
# A notation for items

Items are noted as JSON values: null and truth values as such, and anything else as an object whose
one member names the sort of the item.  Whole numbers are noted in decimal and floats by the digits
of their bits, so that nothing is lost.

## Main definitions

* `Cbor.toNote`, `Cbor.ofNote?`: the notation of an item, and the item of a notation.
-/

namespace Rim.Cbor

mutual

/-- The notation of an item. -/
def toNote : Cbor → Json
  | null => .null
  | bool b => .bool b
  | int v => .object [("i", .string (toString v))]
  | float bits => .object [("f", .string (Hex.encode (bigEndian 8 bits.toNat)))]
  | bytes b => .object [("b", .string (Hex.encode b))]
  | text s => .object [("t", .string s)]
  | array items => .object [("a", .array (itemNotes items))]
  | map entries => .object [("m", .array (entryNotes entries))]
  | tag n v => .object [("tag", .int n.toNat), ("v", toNote v)]

/-- The notations of items. -/
def itemNotes : List Cbor → List Json
  | [] => []
  | item :: rest => toNote item :: itemNotes rest

/-- The notations of entries, each a pair. -/
def entryNotes : List (Cbor × Cbor) → List Json
  | [] => []
  | (k, v) :: rest => .array [toNote k, toNote v] :: entryNotes rest

end

/-- The float whose bits are spelled by sixteen digits. -/
def floatOfDigits? (digits : String) : Option Cbor := do
  let b ← Hex.decode? digits
  if b.length = 8 then some (float (UInt64.ofNat (beValue b))) else none

/-- The item of a sort that is noted as a text. -/
def ofTextNote? (sort content : String) : Option Cbor :=
  if sort = "i" then content.toInt?.map int
  else if sort = "f" then floatOfDigits? content
  else if sort = "b" then (Hex.decode? content).map bytes
  else if sort = "t" then some (text content)
  else none

mutual

/-- The item of a notation. -/
def ofNote? : Json → Option Cbor
  | .null => some null
  | .bool b => some (bool b)
  | .object [(sort, .string content)] => ofTextNote? sort content
  | .object [(sort, .array content)] =>
    if sort = "a" then (ofItemNotes? content).map array
    else if sort = "m" then (ofEntryNotes? content).map mapOf
    else none
  | .object [(first, v), (second, w)] =>
    if first = "tag" ∧ second = "v" then do return tag (← v.uint64?) (← ofNote? w)
    else if first = "v" ∧ second = "tag" then do return tag (← w.uint64?) (← ofNote? v)
    else none
  | _ => none

/-- The items of notations. -/
def ofItemNotes? : List Json → Option (List Cbor)
  | [] => some []
  | item :: rest => do return (← ofNote? item) :: (← ofItemNotes? rest)

/-- The entries of notations, each a pair. -/
def ofEntryNotes? : List Json → Option (List (Cbor × Cbor))
  | [] => some []
  | .array [k, v] :: rest => do return (← ofNote? k, ← ofNote? v) :: (← ofEntryNotes? rest)
  | _ => none

end

end Rim.Cbor
