import Rim.Cbor.Basic
import Rim.Number.Binary
import Rim.Text.Utf8
/-!
# Writing data items

Items are written in their shortest form: minimal heads, definite lengths, and floats in the
narrowest of the three widths that keeps the value.  Integers beyond the 64-bit arguments have no
written form.

## Main definitions

* `Cbor.head`: an initial byte with its argument.
* `Cbor.encode`: the bytes of an item.
* `Cbor.isWritable`: whether all integers of an item fit their heads.
-/

namespace Rim.Cbor

/-- The last `count` bytes of a number, most significant first. -/
def bigEndian (count n : Nat) : List UInt8 :=
  match count with
  | 0 => []
  | k + 1 => UInt8.ofNat (n / Nat.pow 256 k) :: bigEndian k n

theorem length_bigEndian (count n : Nat) : (bigEndian count n).length = count := by
  induction count with
  | zero => rfl
  | succ k ih => simp [bigEndian, ih]

/-- The initial byte of a major type with its argument, in the shortest form. -/
def head (major n : Nat) : List UInt8 :=
  if n < 24 then [UInt8.ofNat (32 * major + n)]
  else if n < 256 then UInt8.ofNat (32 * major + 24) :: bigEndian 1 n
  else if n < 65536 then UInt8.ofNat (32 * major + 25) :: bigEndian 2 n
  else if n < 4294967296 then UInt8.ofNat (32 * major + 26) :: bigEndian 4 n
  else UInt8.ofNat (32 * major + 27) :: bigEndian 8 n

/-- The bytes of a float: every not-a-number as the one quiet pattern, and else the narrowest
width that keeps the value. -/
def encodeFloat (bits : UInt64) : List UInt8 :=
  if BinaryFormat.double.isNaN bits.toNat then 0xf9 :: bigEndian 2 0x7e00
  else if !BinaryFormat.double.isFinite bits.toNat then
    0xf9 :: bigEndian 2
      (BinaryFormat.half.infinity +
        (if BinaryFormat.double.isNegative bits.toNat then BinaryFormat.half.signBit else 0))
  else
    match Double.narrow? .half bits, Double.narrow? .single bits with
    | some n, _ => 0xf9 :: bigEndian 2 n
    | none, some n => 0xfa :: bigEndian 4 n
    | none, none => 0xfb :: bigEndian 8 bits.toNat

mutual

/-- The bytes of an item. -/
def encode : Cbor → List UInt8
  | null => [0xf6]
  | bool false => [0xf4]
  | bool true => [0xf5]
  -- Below zero the head holds how far a number is below minus one.
  | int v => if 0 ≤ v then head 0 v.toNat else head 1 (-1 - v).toNat
  | float bits => encodeFloat bits
  | bytes v => head 2 v.length ++ v
  | text v => head 3 (Utf8.encode v).length ++ Utf8.encode v
  | array items => head 4 items.length ++ encodeItems items
  | map entries => head 5 entries.length ++ encodeEntries entries
  | tag number content => head 6 number.toNat ++ content.encode

/-- The bytes of items, one after the other. -/
def encodeItems : List Cbor → List UInt8
  | [] => []
  | item :: rest => item.encode ++ encodeItems rest

/-- The bytes of entries, each key before its value. -/
def encodeEntries : List (Cbor × Cbor) → List UInt8
  | [] => []
  | (key, value) :: rest => key.encode ++ (value.encode ++ encodeEntries rest)

end

mutual

/-- Whether all integers of an item fit their heads. -/
def isWritable : Cbor → Bool
  | int v => -18446744073709551616 ≤ v && v < 18446744073709551616
  | array items => areWritable items
  | map entries => entriesWritable entries
  | tag _ content => content.isWritable
  | _ => true

/-- Whether all integers of all items fit their heads. -/
def areWritable : List Cbor → Bool
  | [] => true
  | item :: rest => item.isWritable && areWritable rest

/-- Whether all integers of all keys and values fit their heads. -/
def entriesWritable : List (Cbor × Cbor) → Bool
  | [] => true
  | (key, value) :: rest => key.isWritable && value.isWritable && entriesWritable rest

end

end Rim.Cbor
