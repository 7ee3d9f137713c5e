import Rim.Choice.Basic
import Rim.Cbor.Reader
import Rim.Number.Parse
/-!
# Integer identifiers

A signed 64-bit integer.  Its canonical bytes are the eight of its two's complement, most
significant first; its text form is decimal, and a bare number is read as well.

## Main definitions

* `TaggedInt`: integer identifiers.
* `TaggedInt.payload`: their variant.
-/

namespace Rim

/-- An integer identifier. -/
structure TaggedInt where
  value : Int64
  deriving DecidableEq, Repr, Inhabited

namespace TaggedInt

/-- The greatest value. -/
def top : Nat := 9223372036854775807

/-- An integer within the range. -/
def ofInt? (v : Int) : Option TaggedInt :=
  if -(top : Int) - 1 ≤ v ∧ v ≤ top then some ⟨Int64.ofInt v⟩ else none

/-- The decimal text form. -/
def toText (i : TaggedInt) : String := toString i.value.toInt

/-- The eight bytes of the two's complement. -/
def toBytes (i : TaggedInt) : List UInt8 := Cbor.bigEndian 8 i.value.toUInt64.toNat

/-- A refusal with its reason. -/
def invalid {α : Type} (reason : String) : Except VariantError α :=
  .error (.invalid "int" reason)

/-- The identifier a decimal text spells. -/
def ofText (text : String) : Except VariantError TaggedInt :=
  match signed? top text with
  | .ok v => .ok ⟨Int64.ofInt v⟩
  | .error cause => invalid s!"{Text.quote text}: {cause.message}"

/-- The identifier of an integer or of eight bytes. -/
def ofCbor : Cbor → Except VariantError TaggedInt
  | .int v =>
    match ofInt? v with
    | some i => .ok i
    | none => invalid s!"{v} out of range"
  | .bytes b =>
    if b.length = 8 then .ok ⟨(UInt64.ofNat (Cbor.beValue b)).toInt64⟩
    else invalid s!"expected 8 bytes, got {b.length}"
  | _ => .error (.wrongInput "int" "integer")

/-- The identifier of a decimal text or a bare number. -/
def ofJson : Json → Except VariantError TaggedInt
  | .string text => ofText text
  | .int v =>
    match ofInt? v with
    | some i => .ok i
    | none => invalid s!"{v} is not a 64-bit integer"
  | .float bits => invalid s!"{Double.numberText bits} is not a 64-bit integer"
  | _ => .error (.wrongInput "int" "decimal string")

/-- The variant of integer identifiers. -/
def payload : PayloadType TaggedInt where
  typeName := "int"
  tag := 551
  sentinel := ⟨0⟩
  display := toText
  bytes := toBytes
  check _ := .ok ()
  toCbor i := .ok (.int i.value.toInt)
  toJson i := .ok (.string i.toText)
  ofText := ofText
  ofCbor := ofCbor
  ofJson := ofJson

end TaggedInt

end Rim
