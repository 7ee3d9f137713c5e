import Rim.Payload.Shape
/-!
# Variants registered from outside

Variants that no family lists hold a text.  One kind takes its name, tag and least length when it
is registered; the other is the serial number of a vendor.

## Main definitions

* `customPayload`: a text of a least length under a chosen name and tag.
* `serialPayload`: serial numbers.
-/

namespace Rim

/-- A text of at least `least` bytes under a chosen name and tag. -/
def customPayload (typeName : String) (tag : UInt64) (least : Nat) : PayloadType String :=
  let reason? (t : String) : Option String :=
    let got := (Utf8.encode t).length
    if got < least then some s!"needs {least} bytes, got {got}" else none
  { PayloadType.text typeName tag id id reason? with origin := .described least }

/-- A vendor's serial numbers, not empty. -/
def serialPayload : PayloadType String :=
  let reason? (t : String) : Option String := if t.isEmpty then some "empty serial" else none
  { PayloadType.text "acme.serial" 90001 id id reason? with origin := .vendor }

/-- A builder of values under a chosen name and tag, whose sentinel reports a name and tag of its
own. -/
def customBuilder {T : Type} [TypeChoice T] (name : String) (tag : UInt64) (least : Nat)
    (reported : String × UInt64) : PayloadSource → Except VariantError T
  | .empty =>
    let p := customPayload reported.1 reported.2 least
    .ok (TypeChoice.ofVariant (p.variant p.sentinel))
  | input =>
    let p := customPayload name tag least
    (p.ofInput input).map fun t => TypeChoice.ofVariant (p.variant t)

end Rim
