import Rim.Document.Equality
import Rim.Validity.Basic
/-!
# Valid module identifiers

The checks of every record of a module identifier.  A record's own checks come first, then those of
what it holds, and the constraint of its hook comes last.

## Main definitions

* `Slot.validity`: the constraint of a hook as the last step of a validation.
* `Mval.isVacant`: whether measured values carry no data.
* The instances of `Validate` for the records of a module identifier.
-/

namespace Rim

/-- The constraint of a slot's hook run against the body it is attached to. -/
def Slot.validity {B : Type} (s : Slot B) (body : B) : Validity :=
  Validate.ofExtension (Slot.validate s body)

instance : Validate EntityIdentity where
  validate i := do
    Validate.ensure (!i.name.isEmpty) .emptyName
    match i.regId with
    | some uri =>
      Validate.underField "regid" (Validate.ensure (Uri.isAbsolute uri) (.relativeUri uri))
    | none => .ok ()

instance : Validate Entity where
  validate e := do
    Validate.validate e.identity
    Validate.nonEmpty "roles" e.roles
    Slot.validity e.hook e.toEntityBody

instance : Validate TagIdentity where
  validate t := Validate.field "id" t.tagId

/-- A relation must be a listed one. -/
def TagRel.validity : TagRel → Validity
  | .other code => .error (.invalid (.unknownRelation code))
  | _ => .ok ()

instance : Validate LinkedTag where
  validate t := do
    Validate.field "target" t.target
    Validate.underField "rel" t.rel.validity

/-- Whether a class says nothing. -/
def EnvClass.isEmpty (c : EnvClass) : Bool :=
  c.classId.isNone && c.vendor.isNone && c.model.isNone && c.layer.isNone && c.index.isNone

instance : Validate EnvClass where
  validate c := do
    Validate.ensure (!c.isEmpty) .emptyClass
    Validate.fieldIfAny "class-id" c.classId

/-- Whether an environment says nothing. -/
def Environment.isEmpty (e : Environment) : Bool :=
  e.envClass.isNone && e.instanceId.isNone && e.group.isNone

instance : Validate Environment where
  validate e := do
    Validate.ensure (!e.isEmpty) .emptyEnvironment
    Validate.fieldIfAny "class" e.envClass
    Validate.fieldIfAny "instance" e.instanceId
    Validate.fieldIfAny "group" e.group

instance : Validate FlagsMap where
  validate m := Slot.validity m.hook m.toFlagsBody

/-- Whether measured values carry no data, neither of their own nor of their hook. -/
def Mval.isVacant (v : Mval) : Bool :=
  v.digests.isEmpty && !v.flags.any FlagsMap.holdsFlag && v.rawValue.isNone &&
    v.serialNumber.isNone && v.ueid.isNone && v.uuid.isNone && v.name.isNone &&
    !Slot.holdsValues v.hook

instance : Validate Mval where
  validate v := do
    Validate.ensure (!v.isVacant) .unsetValues
    Validate.items "digests" "digest" v.digests
    Validate.fieldIfAny "flags" v.flags
    Validate.fieldIfAny "ueid" v.ueid
    Validate.fieldIfAny "uuid" v.uuid
    Slot.validity v.hook v.toMvalBody

instance : Validate Measurement where
  validate m := do
    Validate.fieldIfAny "key" m.key
    Validate.field "value" m.value
    Validate.items "authorized-by" "key" m.authorizedBy

instance : Validate ValueTriple where
  validate t := do
    Validate.field "environment" t.environment
    Validate.nonEmpty "measurements" t.measurements
    Validate.items "measurements" "measurement" t.measurements

instance : Validate KeyTriple where
  validate t := do
    Validate.field "environment" t.environment
    Validate.nonEmpty "verification keys" t.verificationKeys
    Validate.items "verification-keys" "key" t.verificationKeys

instance : Validate Triples where
  validate t := do
    Validate.ensure (!t.isEmpty || Slot.holdsValues t.hook) .emptyTriples
    Validate.items "reference-values" "triple" t.referenceValues
    Validate.items "endorsed-values" "triple" t.endorsedValues
    Validate.items "dev-identity-keys" "triple" t.devIdentityKeys
    Validate.items "attester-verification-keys" "triple" t.attesterVerificationKeys
    Slot.validity t.hook t.toTriplesBody

instance : Validate Comid where
  validate d := do
    Validate.field "tag-identity" d.tagIdentity
    Validate.items "entities" "entity" d.entities
    Validate.items "linked-tags" "linked tag" d.linkedTags
    Validate.field "triples" d.triples
    Slot.validity d.hook d.toComidBody

end Rim
