import Rim.Record.Datum
/-!
# Module identifiers on the wire

The fields of every record of a module identifier, in the order they are written and read.  Triples
are arrays in the binary form and all other records are maps.  What stands among the endorsed values
takes its hooks from points of its own.

## Main definitions

* `flagsShape`, `mvalShape`, `measurementShape`: measured values.
* `envClassShape`, `environmentShape`: what triples are about.
* `valueTripleShape`, `keyTripleShape`, `triplesShape`: triples.
* `tagIdentityShape`, `linkedTagShape`, `comidShape`: the rest of a module identifier.
-/

namespace Rim

/-- The identifier and the version of a tag. -/
def tagIdentityShape : RecordShape TagIdentity :=
  .flat "tag-identity" .map [
    .required (.required "id" 0) .tagId (·.tagId) fun a r => { r with tagId := a },
    .optional (.optional "version" 1) .uint64 (·.tagVersion) fun a r => { r with tagVersion := a }]

/-- Another tag and the relation to it. -/
def linkedTagShape : RecordShape LinkedTag :=
  .flat "linked-tag" .map [
    .required (.required "target" 0) .tagId (·.target) fun a r => { r with target := a },
    .required (.required "rel" 1) (.code TagRel) (·.rel) fun a r => { r with rel := a }]

/-- A class of environments. -/
def envClassShape : RecordShape EnvClass :=
  .flat "class" .map [
    .optional (.optional "id" 0) (.choice .classId) (·.classId) fun a r => { r with classId := a },
    .optional (.optional "vendor" 1) .string (·.vendor) fun a r => { r with vendor := a },
    .optional (.optional "model" 2) .string (·.model) fun a r => { r with model := a },
    .optional (.optional "layer" 3) .uint64 (·.layer) fun a r => { r with layer := a },
    .optional (.optional "index" 4) .uint64 (·.index) fun a r => { r with index := a }]

/-- An environment. -/
def environmentShape : RecordShape Environment :=
  .flat "environment" .map [
    .optional (.optional "class" 0) (envClassShape.codec default) (·.envClass)
      fun a r => { r with envClass := a },
    .optional (.optional "instance" 1) (.choice .instanceId) (·.instanceId)
      fun a r => { r with instanceId := a },
    .optional (.optional "group" 2) (.choice .groupId) (·.group) fun a r => { r with group := a }]

/-- The names of the built-in flags, by number. -/
def flagNames : Vector String 10 :=
  #v["is-configured", "is-secure", "is-recovery", "is-debug", "is-replay-protected",
    "is-integrity-protected", "is-runtime-meas", "is-immutable", "is-tcb",
    "is-confidentiality-protected"]

/-- The field of a built-in flag, whose key is the number of the flag. -/
def flagMember (i : Fin 10) : Member FlagsMap :=
  .optional (.optional (flagNames.get i) (UInt64.ofNat i)) .bool (·.flag i)
    fun a m => { m with toFlagsBody := m.withFlag i a }

/-- Flags of measured values. -/
def flagsShape : RecordShape FlagsMap :=
  .flat "flags" .map ((List.finRange 10).map flagMember)

/-- Measured values. -/
def mvalShape : RecordShape Mval :=
  .flat "measurement-values" .map [
    .defaulted (.optional "digests" 2) (.list .digest) [] (·.digests)
      fun a r => { r with digests := a },
    .optional (.optional "flags" 3) (flagsShape.extended default) (·.flags)
      fun a r => { r with flags := a },
    .optional (.optional "raw-value" 4) .bytes (·.rawValue) fun a r => { r with rawValue := a },
    .optional (.optional "serial-number" 8) .string (·.serialNumber)
      fun a r => { r with serialNumber := a },
    .optional (.optional "ueid" 9) .ueid (·.ueid) fun a r => { r with ueid := a },
    .optional (.optional "uuid" 10) .uuid (·.uuid) fun a r => { r with uuid := a },
    .optional (.optional "name" 11) .string (·.name) fun a r => { r with name := a }]

/-- Measured values under a key. -/
def measurementShape : RecordShape Measurement :=
  .flat "measurement" .map [
    .optional (.optional "key" 0) (.choice .mkey) (·.key) fun a r => { r with key := a },
    .required (.required "value" 1) (mvalShape.extended default) (·.value)
      fun a r => { r with value := a },
    .defaulted (.optional "authorized-by" 2) (.list (.choice .cryptoKey)) [] (·.authorizedBy)
      fun a r => { r with authorizedBy := a }]

/-- Reference or endorsed values for an environment. -/
def valueTripleShape : RecordShape ValueTriple :=
  .flat "value-triple" .array [
    .required (.required "environment" 0) (environmentShape.codec default) (·.environment)
      fun a r => { r with environment := a },
    .required (.required "measurements" 1) (.list (measurementShape.holding default))
      (·.measurements) fun a r => { r with measurements := a }]

/-- Keys of an environment. -/
def keyTripleShape : RecordShape KeyTriple :=
  .flat "key-triple" .array [
    .required (.required "environment" 0) (environmentShape.codec default) (·.environment)
      fun a r => { r with environment := a },
    .required (.required "verification-keys" 1) (.list (.choice .cryptoKey)) (·.verificationKeys)
      fun a r => { r with verificationKeys := a }]

/-- All triples; what stands among the endorsed values has hook points of its own. -/
def triplesShape : RecordShape Triples :=
  .flat "triples" .map [
    .defaulted (.optional "reference-values" 0) (.list (valueTripleShape.holding default)) []
      (·.referenceValues) fun a r => { r with referenceValues := a },
    .defaulted (.optional "endorsed-values" 1)
      (.under StandIn.endorsed (.list (valueTripleShape.holding default))) []
      (·.endorsedValues) fun a r => { r with endorsedValues := a },
    .defaulted (.optional "dev-identity-keys" 2) (.list (keyTripleShape.codec default)) []
      (·.devIdentityKeys) fun a r => { r with devIdentityKeys := a },
    .defaulted (.optional "attester-verification-keys" 3) (.list (keyTripleShape.codec default)) []
      (·.attesterVerificationKeys) fun a r => { r with attesterVerificationKeys := a }]

/-- A module identifier. -/
def comidShape : RecordShape Comid :=
  .flat "comid" .map [
    .optional (.optional "lang" 0) .string (·.language) fun a r => { r with language := a },
    .required (.required "tag-identity" 1) (tagIdentityShape.codec default) (·.tagIdentity)
      fun a r => { r with tagIdentity := a },
    .defaulted (.optional "entities" 2) (.list .entity) [] (·.entities)
      fun a r => { r with entities := a },
    .defaulted (.optional "linked-tags" 3) (.list (linkedTagShape.codec default)) [] (·.linkedTags)
      fun a r => { r with linkedTags := a },
    .required (.required "triples" 4) (triplesShape.extended default) (·.triples)
      fun a r => { r with triples := a }]

end Rim
