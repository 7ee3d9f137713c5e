/-!
# CBOR data items

A data item as a tree.  The same type serves an item as it is written, whose maps list their
entries in the order read, and the ordered tree a reader hands on, whose maps list each key once
in canonical order.

## Main definitions

* `Cbor`: data items.
* `Cbor.majorType`: the major type an item is written under.
* `Cbor.sortName`: the word messages use for an item.
* `Cbor.depth`: the nesting depth of an item.
-/

namespace Rim

/-- A data item.  A float is the bit pattern of a double, whatever width it was written in. -/
inductive Cbor where
  | null
  | bool (value : Bool)
  | int (value : Int)
  | float (bits : UInt64)
  | bytes (value : List UInt8)
  | text (value : String)
  | array (items : List Cbor)
  | map (entries : List (Cbor × Cbor))
  | tag (number : UInt64) (content : Cbor)

namespace Cbor

instance : Inhabited Cbor := ⟨null⟩

/-- The major type an item is written under. -/
def majorType : Cbor → Nat
  | int v => if 0 ≤ v then 0 else 1
  | bytes _ => 2
  | text _ => 3
  | array _ => 4
  | map _ => 5
  | tag _ _ => 6
  | null | bool _ | float _ => 7

/-- The word messages use for an item. -/
def sortName : Cbor → String
  | null => "null"
  | bool _ => "bool"
  | int _ => "integer"
  | float _ => "float"
  | bytes _ => "byte string"
  | text _ => "text string"
  | array _ => "array"
  | map _ => "map"
  | tag _ _ => "tagged value"

mutual

/-- The nesting depth of an item; an item without content has depth zero. -/
def depth : Cbor → Nat
  | array items => depthItems items + 1
  | map entries => depthEntries entries + 1
  | tag _ content => content.depth + 1
  | _ => 0

/-- The greatest depth among items. -/
def depthItems : List Cbor → Nat
  | [] => 0
  | item :: rest => max item.depth (depthItems rest)

/-- The greatest depth among the keys and values of entries. -/
def depthEntries : List (Cbor × Cbor) → Nat
  | [] => 0
  | (key, value) :: rest => max (max key.depth value.depth) (depthEntries rest)

end

end Cbor

end Rim
