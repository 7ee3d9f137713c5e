import Rim.Choice.Family
import Rim.Code
import Rim.Hook.Basic
import Rim.TagId
/-!
# Entities, and the values of hook fields

An entity is an organisation with its roles.  The fields that hooks add hold values of a fixed set
of kinds; an entity is one of them, and may carry a hook of its own.

## Main definitions

* `EntityIdentity`, `EntityOf`, `Entity`: entities and what all kinds of entities share.
* `Datum`: the values of hook fields.
* `Hook`, `Slot`: hooks whose fields hold such values, and the place of a hook.
-/

namespace Rim

/-- The name and the registration URI of an entity. -/
structure EntityIdentity where
  name : String := ""
  regId : Option String := none
  deriving DecidableEq, Repr, Inhabited

/-- An entity of a module identifier, its hook aside. -/
structure EntityBody where
  identity : EntityIdentity := {}
  roles : List Role := []
  deriving DecidableEq, Repr, Inhabited

/-- An entity of a module identifier. -/
structure EntityOf (V : Type) extends EntityBody where
  hook : Option (HookOf EntityBody V) := none

/-- A value of a hook field. -/
inductive Datum where
  | bool (value : Bool)
  | int (value : Int)
  | string (value : String)
  | bytes (value : List UInt8)
  | uuid (value : Uuid)
  | tagId (value : TagId)
  | ueid (value : Ueid)
  | digest (value : Digest)
  | classId (value : ClassId)
  | entity (value : EntityOf Datum)
  | list (items : List Datum)

/-- A hook for bodies of a type. -/
abbrev Hook (B : Type) (V : Type := Datum) := HookOf B V

/-- The place of a hook; once a hook is attached it stays. -/
abbrev Slot (B : Type) (V : Type := Datum) := Option (Hook B V)

/-- An organisation responsible for a module identifier. -/
abbrev Entity := EntityOf Datum

instance : Inhabited Entity := ⟨{}⟩

end Rim
