import Rim.Cbor.Basic
import Rim.Number.Binary
import Rim.Text.Utf8
/-!
# Reading data items

One item is read from the front of a byte string.  Heads need not be minimal, strings and
containers may have an indefinite length, and containers and tags nest up to a budget.  The tree
lists the entries of maps as they were written.

## Main definitions

* `Cbor.Argument`: what follows the major type in a head.
* `Cbor.readItem?`: one item with the bytes after it.
* `Cbor.parse?`: the item a whole byte string is.
-/

namespace Rim.Cbor

/-- A reader of one thing at the front of a byte string. -/
abbrev Reader (α : Type) := List UInt8 → Option (α × List UInt8)

/-! ## Bytes and numbers

Strings of bytes may be long, so a run of bytes is gathered in reverse and turned once. -/

/-- The number some bytes spell, most significant first. -/
def beValue (input : List UInt8) : Nat :=
  input.foldl (fun n b => 256 * n + b.toNat) 0

/-- The first `count` bytes, in reverse before `taken`. -/
def takeOnto : Nat → List UInt8 → Reader (List UInt8)
  | 0, taken, input => some (taken.reverse, input)
  | _ + 1, _, [] => none
  | count + 1, taken, b :: input => takeOnto count (b :: taken) input

/-- Exactly `count` bytes. -/
def take? (count : Nat) : Reader (List UInt8) :=
  takeOnto count []

theorem takeOnto_append (front taken rest : List UInt8) :
    takeOnto front.length taken (front ++ rest) = some (taken.reverse ++ front, rest) := by
  induction front generalizing taken with
  | nil => simp [takeOnto]
  | cons b front ih => simp [takeOnto, ih]

@[simp] theorem take?_append (front rest : List UInt8) :
    take? front.length (front ++ rest) = some (front, rest) :=
  takeOnto_append front [] rest

/-- A number of `count` bytes. -/
def readNumber? (count : Nat) : Reader Nat := fun input => do
  let (digits, rest) ← take? count input
  return (beValue digits, rest)

/-! ## Heads and strings

The low five bits of an initial byte hold the argument, or say how many bytes after it do, or that
the length is open and a break will end the content.  A chunk of an open string has a definite
length itself and the major type of the whole. -/

/-- What follows the major type in a head. -/
inductive Argument where
  | value (n : Nat)
  | indefinite
  deriving DecidableEq, Repr

/-- The argument announced by the low five bits of an initial byte. -/
def readArgument? (info : Nat) : Reader Argument := fun input =>
  if info < 24 then some (.value info, input)
  else if info = 31 then some (.indefinite, input)
  else if info ≤ 27 then do
    let (n, rest) ← readNumber? (Nat.pow 2 (info - 24)) input
    return (.value n, rest)
  -- The codes from 28 to 30 are reserved.
  else none

/-- The chunks of an indefinite string of a major type up to its break, joined; those already read
stand in reverse. -/
def readChunks? (major : Nat) : Nat → List (List UInt8) → Reader (List UInt8)
  | 0, _, _ => none
  | _ + 1, _, [] => none
  | fuel + 1, chunks, b :: input =>
    if b = 0xff then some (chunks.reverse.flatten, input)
    else if b.toNat / 32 = major then do
      match ← readArgument? (b.toNat % 32) input with
      | (.value n, rest) =>
        let (chunk, rest) ← take? n rest
        readChunks? major fuel (chunk :: chunks) rest
      | (.indefinite, _) => none
    else none

/-- The bytes of a string whose head has been read. -/
def readString? (major : Nat) : Argument → Reader (List UInt8)
  | .value n, input => take? n input
  | .indefinite, input => readChunks? major (input.length + 1) [] input

/-! ## Containers

The parts of a container are read by the reader of items, which comes later and is an argument here.
Every part takes a byte at least, so an open container has no more parts than bytes. -/

/-- As many things as announced, in reverse before `taken`. -/
def readMany? {α : Type} (one : Reader α) : Nat → List α → Reader (List α)
  | 0, taken, input => some (taken.reverse, input)
  | count + 1, taken, input =>
    match one input with
    | some (x, rest) => readMany? one count (x :: taken) rest
    | none => none

/-- Things up to the break, in reverse before `taken`. -/
def readUntilBreak? {α : Type} (one : Reader α) : Nat → List α → Reader (List α)
  | 0, _, _ => none
  | fuel + 1, taken, input =>
    if input.head? = some 0xff then some (taken.reverse, input.tail)
    else
      match one input with
      | some (x, rest) => readUntilBreak? one fuel (x :: taken) rest
      | none => none

/-- The content of a container whose head has been read. -/
def readAll? {α : Type} (one : Reader α) : Argument → Reader (List α)
  | .value n, input => readMany? one n [] input
  | .indefinite, input => readUntilBreak? one (input.length + 1) [] input

/-- A key followed by its value. -/
def readPair? (item : Reader Cbor) : Reader (Cbor × Cbor) := fun input => do
  let (key, rest) ← item input
  let (value, rest) ← item rest
  return ((key, value), rest)

/-! ## Items

An item nests in at most as many others as the budget says, and its reader recurs on the budget: it
is spent where the nesting grows and nowhere else. -/

/-- A float of a format, announced by its own initial byte. -/
def readFloat? (f : BinaryFormat) (count : Nat) : Reader Cbor := fun input => do
  let (bits, rest) ← readNumber? count input
  return (float (Double.widen f bits), rest)

/-- A simple value or a float, by the low five bits of its initial byte. -/
def readSimple? (info : Nat) : Reader Cbor := fun input =>
  match info with
  | 20 => some (bool false, input)
  | 21 => some (bool true, input)
  -- The undefined value is read as null.
  | 22 | 23 => some (null, input)
  | 25 => readFloat? .half 2 input
  | 26 => readFloat? .single 4 input
  | 27 => do
    let (bits, rest) ← readNumber? 8 input
    return (float (UInt64.ofNat bits), rest)
  | _ => none

/-- An item without content, by its major type. -/
def readPlain? (major info : Nat) : Reader Cbor := fun input =>
  match major with
  | 0 => do
    match ← readArgument? info input with
    | (.value n, rest) => return (int n, rest)
    | (.indefinite, _) => none
  | 1 => do
    match ← readArgument? info input with
    | (.value n, rest) => return (int (-1 - n), rest)
    | (.indefinite, _) => none
  | 2 => do
    let (argument, rest) ← readArgument? info input
    let (content, rest) ← readString? 2 argument rest
    return (.bytes content, rest)
  | 3 => do
    let (argument, rest) ← readArgument? info input
    let (content, rest) ← readString? 3 argument rest
    let text ← Utf8.decode? content
    return (.text text, rest)
  | 7 => readSimple? info input
  | _ => none

/-- An item with content, whose parts are read by `item`. -/
def readNested? (item : Reader Cbor) (major info : Nat) : Reader Cbor := fun input => do
  let (argument, rest) ← readArgument? info input
  match major with
  | 4 => do
    let (items, rest) ← readAll? item argument rest
    return (array items, rest)
  | 5 => do
    let (entries, rest) ← readAll? (readPair? item) argument rest
    return (map entries, rest)
  | 6 =>
    match argument with
    | .value n => do
      let (content, rest) ← item rest
      return (tag (UInt64.ofNat n) content, rest)
    | .indefinite => none
  | _ => none

/-- One item whose containers and tags nest at most `budget` deep. -/
def readItem? : Nat → Reader Cbor
  | _, [] => none
  | budget, b :: input =>
    let major := b.toNat / 32
    let info := b.toNat % 32
    if major = 4 ∨ major = 5 ∨ major = 6 then
      match budget with
      -- No level is left for a container or a tag.
      | 0 => none
      | n + 1 => readNested? (readItem? n) major info input
    else readPlain? major info input

/-- How deep containers and tags may nest. -/
def nestingBudget : Nat := 127

/-- The item a whole byte string is, as written. -/
def parse? (input : List UInt8) : Option Cbor :=
  match readItem? nestingBudget input with
  | some (item, []) => some item
  | _ => none

end Rim.Cbor
