import Rim.Record.Datum
/-!
# Equality of documents

Two slots are equal when both are empty, or when both hold a hook of the same type and these write
the same fields in the text form.  Documents are equal when their own fields and their slots are.

## Main definitions

* `Hook.fieldValues`: what a hook writes in the text form.
* `Slot.holdsValues`: whether a slot's hook writes anything.
* `Slot.agrees`: equality of slots.
-/

namespace Rim

variable {B V : Type} [HookValue V]

/-- The object of the fields a hook writes in the text form; none without the capability. -/
def Hook.fieldValues (h : Hook B V) : Coded (Option Json) :=
  match h.fields with
  | none => .ok none
  | some cells =>
    (writeAll "extension" [] (cells.filterMap (Cell.put? .json))).map fun written =>
      some (Format.ofEntries .json .map written)

namespace Slot

/-- Whether the slot's hook writes at least one field, or fails to write its fields. -/
def holdsValues (s : Slot B V) : Bool :=
  match s with
  | none => false
  | some h =>
    match Hook.fieldValues h with
    | .ok (some (.object members)) => !members.isEmpty
    | .ok _ => false
    | .error _ => true

/-- Equality of the fields two hooks write; fields that cannot be written equal none. -/
def agreeValues : Coded (Option Json) → Coded (Option Json) → Bool
  | .ok none, .ok none => true
  | .ok (some a), .ok (some b) => a.agrees b
  | _, _ => false

/-- Equality of slots. -/
def agrees (a b : Slot B V) : Bool :=
  match a, b with
  | none, none => true
  | some g, some h =>
    g.typeName == h.typeName && agreeValues (Hook.fieldValues g) (Hook.fieldValues h)
  | _, _ => false

end Slot

/-! ## Records

A record with a slot equals another if their bodies are equal, field by field, and their slots. -/

instance : BEq (EntityOf V) where
  beq a b := a.toEntityBody == b.toEntityBody && Slot.agrees a.hook b.hook

instance : BEq (FlagsMap V) where
  beq a b := a.toFlagsBody == b.toFlagsBody && Slot.agrees a.hook b.hook

instance : BEq (MvalBody V) where
  beq a b := a.digests == b.digests && (a.flags == b.flags && (a.rawValue == b.rawValue &&
    (a.serialNumber == b.serialNumber && (a.ueid == b.ueid && (a.uuid == b.uuid &&
      a.name == b.name)))))

instance : BEq (Mval V) where
  beq a b := a.toMvalBody == b.toMvalBody && Slot.agrees a.hook b.hook

instance : BEq (Measurement V) where
  beq a b := a.key == b.key && (a.value == b.value && a.authorizedBy == b.authorizedBy)

instance : BEq (ValueTriple V) where
  beq a b := a.environment == b.environment && a.measurements == b.measurements

instance : BEq (TriplesBody V) where
  beq a b := a.referenceValues == b.referenceValues && (a.endorsedValues == b.endorsedValues &&
    (a.devIdentityKeys == b.devIdentityKeys &&
      a.attesterVerificationKeys == b.attesterVerificationKeys))

instance : BEq (Triples V) where
  beq a b := a.toTriplesBody == b.toTriplesBody && Slot.agrees a.hook b.hook

instance : BEq (ComidBody V) where
  beq a b := a.language == b.language && (a.tagIdentity == b.tagIdentity &&
    (a.entities == b.entities && (a.linkedTags == b.linkedTags && a.triples == b.triples)))

instance : BEq (Comid V) where
  beq a b := a.toComidBody == b.toComidBody && Slot.agrees a.hook b.hook

instance : BEq (CorimEntity V) where
  beq a b := a.toCorimEntityBody == b.toCorimEntityBody && Slot.agrees a.hook b.hook

instance : BEq (CorimBody V) where
  beq a b := a.id == b.id && (a.tags == b.tags && (a.profile == b.profile &&
    a.entities == b.entities))

instance : BEq (Corim V) where
  beq a b := a.toCorimBody == b.toCorimBody && Slot.agrees a.hook b.hook

end Rim
