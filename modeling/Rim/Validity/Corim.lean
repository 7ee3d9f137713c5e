import Rim.Validity.Comid
/-!
# Valid manifests

The checks of a manifest and of its entities, in the same order as those of a module identifier: own
checks, then those of what a record holds, then the constraint of its hook.

## Main definitions

* The instances of `Validate` for `CorimEntity` and `Corim`.
-/

namespace Rim

instance : Validate CorimEntity where
  validate e := do
    Validate.validate e.identity
    Validate.nonEmpty "roles" e.roles
    Slot.validity e.hook e.toCorimEntityBody

instance : Validate Corim where
  validate d := do
    Validate.field "corim-id" d.id
    Validate.nonEmpty "tags" d.tags
    Validate.items "tags" "tag" d.tags
    Validate.fieldIfAny "profile" d.profile
    Validate.items "entities" "entity" d.entities
    Slot.validity d.hook d.toCorimBody

end Rim
