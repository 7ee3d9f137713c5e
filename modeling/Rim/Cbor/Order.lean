import Rim.Cbor.Writer
/-!
# The canonical order of items

Keys of a map are ordered by major type; integers of one sign by magnitude; strings and
containers by length, strings of one length by their bytes; and everything else by its written
form.  An ordered tree lists the entries of each map in this order, one per key.

## Main definitions

* `Cbor.compare`: the order.
* `Cbor.insertEntry`: adding an entry to an ordered list; an equal key takes the new value.
* `Cbor.ordered`: the ordered tree of an item as written.
-/

namespace Rim.Cbor

/-- Lexical order of byte strings. -/
def compareBytes : List UInt8 → List UInt8 → Ordering
  | [], [] => .eq
  | [], _ :: _ => .lt
  | _ :: _, [] => .gt
  | a :: as, b :: bs => (Ord.compare a.toNat b.toNat).then (compareBytes as bs)

/-- The canonical order. -/
def compare (a b : Cbor) : Ordering :=
  (Ord.compare a.majorType b.majorType).then <|
    match a, b with
    | int x, int y => Ord.compare x.natAbs y.natAbs
    | bytes x, bytes y => (Ord.compare x.length y.length).then (compareBytes x y)
    | text x, text y =>
      (Ord.compare (Utf8.encode x).length (Utf8.encode y).length).then
        (compareBytes (Utf8.encode x) (Utf8.encode y))
    | array x, array y =>
      (Ord.compare x.length y.length).then (compareBytes a.encode b.encode)
    | map x, map y => (Ord.compare x.length y.length).then (compareBytes a.encode b.encode)
    | _, _ => compareBytes a.encode b.encode

/-- An entry added to an ordered list of entries. -/
def insertEntry (key value : Cbor) : List (Cbor × Cbor) → List (Cbor × Cbor)
  | [] => [(key, value)]
  | (k, v) :: rest =>
    match compare key k with
    | .lt => (key, value) :: (k, v) :: rest
    | .eq => (k, value) :: rest
    | .gt => (k, v) :: insertEntry key value rest

/-- The entries of a list added one after the other, so that a later equal key wins. -/
def insertEntries (entries into : List (Cbor × Cbor)) : List (Cbor × Cbor) :=
  entries.foldl (fun acc e => insertEntry e.1 e.2 acc) into

/-- The map of some entries, ordered. -/
def mapOf (entries : List (Cbor × Cbor)) : Cbor :=
  map (insertEntries entries [])

mutual

/-- The ordered tree of an item as written. -/
def ordered : Cbor → Cbor
  | array items => array (orderedItems items)
  | map entries => mapOf (orderedEntries entries)
  | tag number content => tag number content.ordered
  | item => item

/-- The ordered trees of items. -/
def orderedItems : List Cbor → List Cbor
  | [] => []
  | item :: rest => item.ordered :: orderedItems rest

/-- The ordered trees of keys and values. -/
def orderedEntries : List (Cbor × Cbor) → List (Cbor × Cbor)
  | [] => []
  | (key, value) :: rest => (key.ordered, value.ordered) :: orderedEntries rest

end

end Rim.Cbor
