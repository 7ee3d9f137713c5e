import Rim.Document.Flags
/-!
# Module identifiers

A concise module identifier states reference values, endorsed values and keys for the environments
of one module.

## Main definitions

* `Environment`: what a triple is about.
* `Measurement`, `Mval`: measured values under a key.
* `ValueTriple`, `KeyTriple`, `Triples`: statements about environments.
* `Comid`: module identifiers.
-/

namespace Rim

/-! ## Tags -/

/-- The identifier and the version of a tag. -/
structure TagIdentity where
  tagId : TagId := default
  tagVersion : Option UInt64 := none
  deriving DecidableEq, Repr, Inhabited

/-- Another tag, and how this one relates to it. -/
structure LinkedTag where
  target : TagId := default
  rel : TagRel := default
  deriving DecidableEq, Repr, Inhabited

/-! ## Environments and measurements

A part that may carry a hook has a body, which is what the hook constrains, and the hook beside it.
-/

/-- A class of environments. -/
structure EnvClass where
  classId : Option ClassId := none
  vendor : Option String := none
  model : Option String := none
  layer : Option UInt64 := none
  index : Option UInt64 := none
  deriving BEq, Inhabited

/-- What a triple is about: a class of devices, one instance, or a group. -/
structure Environment where
  envClass : Option EnvClass := none
  instanceId : Option InstanceId := none
  group : Option GroupId := none
  deriving BEq, Inhabited

/-- Measured values, their hook aside. -/
structure MvalBody (V : Type := Datum) where
  digests : List Digest := []
  flags : Option (FlagsMap V) := none
  rawValue : Option (List UInt8) := none
  serialNumber : Option String := none
  ueid : Option Ueid := none
  uuid : Option Uuid := none
  name : Option String := none
  deriving Inhabited

/-- The measured values of one measurement. -/
structure Mval (V : Type := Datum) extends MvalBody V where
  hook : Slot (MvalBody V) V := none

instance {V : Type} : Inhabited (Mval V) := ⟨{}⟩

/-- Measured values under an optional key, with the keys authorized to vouch for them. -/
structure Measurement (V : Type := Datum) where
  key : Option Mkey := none
  value : Mval V := {}
  authorizedBy : List CryptoKey := []
  deriving Inhabited

/-! ## Triples -/

/-- Reference or endorsed values for one environment. -/
structure ValueTriple (V : Type := Datum) where
  environment : Environment := {}
  measurements : List (Measurement V) := []
  deriving Inhabited

/-- Keys one environment identifies itself or signs evidence with. -/
structure KeyTriple where
  environment : Environment := {}
  verificationKeys : List CryptoKey := []
  deriving BEq, Inhabited

/-- Statements about environments, their hook aside. -/
structure TriplesBody (V : Type := Datum) where
  referenceValues : List (ValueTriple V) := []
  endorsedValues : List (ValueTriple V) := []
  devIdentityKeys : List KeyTriple := []
  attesterVerificationKeys : List KeyTriple := []
  deriving Inhabited

/-- Statements about environments. -/
structure Triples (V : Type := Datum) extends TriplesBody V where
  hook : Slot (TriplesBody V) V := none

instance {V : Type} : Inhabited (Triples V) := ⟨{}⟩

/-- Where measured values are. -/
inductive ValueSide where
  | reference
  | endorsed
  deriving DecidableEq, Repr

/-- The name of a side. -/
def ValueSide.name : ValueSide → String
  | reference => "reference"
  | endorsed => "endorsed"

/-! ## Module identifiers -/

/-- A module identifier, its hook aside. -/
structure ComidBody (V : Type := Datum) where
  language : Option String := none
  tagIdentity : TagIdentity := {}
  entities : List (EntityOf V) := []
  linkedTags : List LinkedTag := []
  triples : Triples V := {}
  deriving Inhabited

/-- A module identifier. -/
structure Comid (V : Type := Datum) extends ComidBody V where
  hook : Slot (ComidBody V) V := none

instance {V : Type} : Inhabited (Comid V) := ⟨{}⟩

/-- Whether there is no statement of any sort. -/
def TriplesBody.isEmpty {V : Type} (t : TriplesBody V) : Bool :=
  t.referenceValues.isEmpty && t.endorsedValues.isEmpty && t.devIdentityKeys.isEmpty &&
    t.attesterVerificationKeys.isEmpty

end Rim
