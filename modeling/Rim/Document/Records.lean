import Rim.Record.Comid
import Rim.Record.Corim
import Rim.Validity.Corim
/-!
# The record types of documents

Every record type as an index, with what all of them have: a schema, a codec, validation and
equality.

## Main definitions

* `RecordType`, `RecordType.Value`: the record types.
* `RecordType.schema`, `RecordType.codec`: their fields, and how they travel.
-/

namespace Rim

/-- The record types. -/
inductive RecordType where
  | comid
  | tagIdentity
  | comidEntity
  | linkedTag
  | triples
  | valueTriple
  | keyTriple
  | environment
  | envClass
  | measurement
  | mval
  | flags
  | corim
  | corimEntity
  | identity
  deriving DecidableEq, Repr

namespace RecordType

/-- The record types by name. -/
def names : List (String × RecordType) :=
  [("comid", comid), ("tag-identity", tagIdentity), ("comid-entity", comidEntity),
    ("linked-tag", linkedTag), ("triples", triples), ("value-triple", valueTriple),
    ("key-triple", keyTriple), ("environment", environment), ("class", envClass),
    ("measurement", measurement), ("mval", mval), ("flags", flags), ("corim", corim),
    ("corim-entity", corimEntity), ("identity", identity)]

/-- The records of a type. -/
abbrev Value : RecordType → Type
  | comid => Comid
  | tagIdentity => TagIdentity
  | comidEntity => Entity
  | linkedTag => LinkedTag
  | triples => Triples
  | valueTriple => ValueTriple
  | keyTriple => KeyTriple
  | environment => Environment
  | envClass => EnvClass
  | measurement => Measurement
  | mval => Mval
  | flags => FlagsMap
  | corim => Corim
  | corimEntity => CorimEntity
  | identity => EntityIdentity

/-- The shape of the records of a type. -/
def shape : (t : RecordType) → RecordShape t.Value
  | comid => comidShape
  | tagIdentity => tagIdentityShape
  | comidEntity => entityShape
  | linkedTag => linkedTagShape
  | triples => triplesShape
  | valueTriple => valueTripleShape
  | keyTriple => keyTripleShape
  | environment => environmentShape
  | envClass => envClassShape
  | measurement => measurementShape
  | mval => mvalShape
  | flags => flagsShape
  | corim => corimShape
  | corimEntity => corimEntityShape
  | identity => identityShape

/-- The schema of a type. -/
def schema (t : RecordType) : Schema FieldSpec := t.shape.schema

/-- How the records of a type travel; fresh ones have the hooks of their position attached. -/
def codec : (t : RecordType) → FieldCodec t.Value
  | comid => comidShape.extended default
  | tagIdentity => tagIdentityShape.codec default
  | comidEntity => .entity
  | linkedTag => linkedTagShape.codec default
  | triples => triplesShape.extended default
  | valueTriple => valueTripleShape.holding default
  | keyTriple => keyTripleShape.codec default
  | environment => environmentShape.codec default
  | envClass => envClassShape.codec default
  | measurement => measurementShape.holding default
  | mval => mvalShape.extended default
  | flags => flagsShape.extended default
  | corim => corimShape.extended default
  | corimEntity => corimEntityShape.extended default
  | identity => identityShape.codec default

instance (t : RecordType) : Validate t.Value :=
  match t with
  | comid => inferInstanceAs (Validate Comid)
  | tagIdentity => inferInstanceAs (Validate TagIdentity)
  | comidEntity => inferInstanceAs (Validate Entity)
  | linkedTag => inferInstanceAs (Validate LinkedTag)
  | triples => inferInstanceAs (Validate Triples)
  | valueTriple => inferInstanceAs (Validate ValueTriple)
  | keyTriple => inferInstanceAs (Validate KeyTriple)
  | environment => inferInstanceAs (Validate Environment)
  | envClass => inferInstanceAs (Validate EnvClass)
  | measurement => inferInstanceAs (Validate Measurement)
  | mval => inferInstanceAs (Validate Mval)
  | flags => inferInstanceAs (Validate FlagsMap)
  | corim => inferInstanceAs (Validate Corim)
  | corimEntity => inferInstanceAs (Validate CorimEntity)
  | identity => inferInstanceAs (Validate EntityIdentity)

instance (t : RecordType) : BEq t.Value :=
  match t with
  | comid => inferInstanceAs (BEq Comid)
  | tagIdentity => inferInstanceAs (BEq TagIdentity)
  | comidEntity => inferInstanceAs (BEq Entity)
  | linkedTag => inferInstanceAs (BEq LinkedTag)
  | triples => inferInstanceAs (BEq Triples)
  | valueTriple => inferInstanceAs (BEq ValueTriple)
  | keyTriple => inferInstanceAs (BEq KeyTriple)
  | environment => inferInstanceAs (BEq Environment)
  | envClass => inferInstanceAs (BEq EnvClass)
  | measurement => inferInstanceAs (BEq Measurement)
  | mval => inferInstanceAs (BEq Mval)
  | flags => inferInstanceAs (BEq FlagsMap)
  | corim => inferInstanceAs (BEq Corim)
  | corimEntity => inferInstanceAs (BEq CorimEntity)
  | identity => inferInstanceAs (BEq EntityIdentity)

/-- Whether a record equals what its written form is read as, or why it does not travel. -/
def survives (t : RecordType) (f : Format) (cx : Context) (r : t.Value) : Coded Bool := do
  let written ← t.codec.encode f r
  return (← t.codec.decode f cx written) == r

end RecordType

end Rim
