import Rim.Payload.Shape
/-!
# Opaque identifiers and keys

Payloads that are byte strings of a prescribed length.

## Main definitions

* `Ueid`: universal entity identifiers, of 7 to 33 bytes.
* `TaggedBytes`: opaque identifiers, not empty.
* `ImplId`: implementation identifiers, of 32 bytes.
* `CoseKey`: serialized keys, not empty.
* `ComidTag`: encoded module identifiers, not empty.
-/

namespace Rim

/-- A universal entity identifier. -/
structure Ueid where
  bytes : List UInt8
  deriving DecidableEq, Repr, Inhabited

/-- An opaque identifier. -/
structure TaggedBytes where
  bytes : List UInt8
  deriving DecidableEq, Repr, Inhabited

/-- An implementation identifier. -/
structure ImplId where
  bytes : List UInt8
  deriving DecidableEq, Repr, Inhabited

/-- A serialized key, never parsed. -/
structure CoseKey where
  bytes : List UInt8
  deriving DecidableEq, Repr, Inhabited

/-- A module identifier carried in its encoded binary form. -/
structure ComidTag where
  bytes : List UInt8
  deriving DecidableEq, Repr, Inhabited

/-- The variant of universal entity identifiers. -/
def Ueid.payload : PayloadType Ueid :=
  .byteString "ueid" 550 Ueid.bytes Ueid.mk fun b =>
    if 7 ≤ b.length ∧ b.length ≤ 33 then none
    else some s!"length must be between 7 and 33 bytes, got {b.length}"

/-- The variant of opaque identifiers. -/
def TaggedBytes.payload : PayloadType TaggedBytes :=
  .byteString "bytes" 560 TaggedBytes.bytes TaggedBytes.mk fun b =>
    if b.length = 0 then some "empty bytes" else none

/-- The variant of implementation identifiers. -/
def ImplId.payload : PayloadType ImplId :=
  .byteString "psa.impl-id" 600 ImplId.bytes ImplId.mk fun b =>
    if b.length = 32 then none else some s!"expected 32 bytes, got {b.length}"

/-- The variant of serialized keys. -/
def CoseKey.payload : PayloadType CoseKey :=
  .byteString "cose-key" 558 CoseKey.bytes CoseKey.mk fun b =>
    if b.length = 0 then some "empty COSE key" else none

/-- The variant of encoded module identifiers. -/
def ComidTag.payload : PayloadType ComidTag :=
  .byteString "comid" 506 ComidTag.bytes ComidTag.mk fun b =>
    if b.isEmpty then some "empty tag" else none

end Rim
