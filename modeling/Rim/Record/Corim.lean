import Rim.Record.Datum
/-!
# Manifests on the wire

The fields of a manifest and of its entities, in the order they are written and read.

## Main definitions

* `corimEntityShape`, `corimShape`: the entities of a manifest, and manifests.
* `Corim.declaredProfile`: the profile of a manifest, read without decoding the rest.
-/

namespace Rim

/-- An entity of a manifest; its identity is embedded before its roles. -/
def corimEntityShape : RecordShape CorimEntity where
  schema := .mk "corim-entity" .map [.required "roles" 2] [identityShape.schema]
  members :=
    identityShape.members.map
      (·.embedded (fun e : CorimEntity => e.identity) fun a e => { e with identity := a }) ++
    [.required (.required "roles" 2) (.list (.code CorimRole)) (fun e => e.roles)
      fun a e => { e with roles := a }]

/-- The field that names the profile of a manifest. -/
def Corim.profileField : FieldSpec := .optional "profile" 3

/-- A manifest. -/
def corimShape : RecordShape Corim :=
  .flat "unsigned-corim" .map [
    .required (.required "corim-id" 0) .tagId (·.id) fun a r => { r with id := a },
    .required (.required "tags" 1) (.list (.choice .conciseTag)) (·.tags)
      fun a r => { r with tags := a },
    .optional Corim.profileField (.choice .profileId) (·.profile)
      fun a r => { r with profile := a },
    .defaulted (.optional "entities" 5) (.list (corimEntityShape.extended default)) [] (·.entities)
      fun a r => { r with entities := a }]

/-- The profile of a manifest that is not decoded yet. -/
def Corim.declaredProfile (f : Format) (cx : Context) (v : Raw f) : Coded (Option ProfileId) :=
  (FieldCodec.choice .profileId).peek f cx Corim.profileField v

end Rim
