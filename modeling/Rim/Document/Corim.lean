import Rim.Hook.Datum
/-!
# Manifests

An unsigned concise reference integrity manifest carries tags, above all module identifiers, with
an identifier of its own, the entities behind it, and the profile it follows.

## Main definitions

* `CorimEntity`: the entities of a manifest.
* `Corim`: manifests.
-/

namespace Rim

/-- An entity of a manifest, its hook aside. -/
structure CorimEntityBody where
  identity : EntityIdentity := {}
  roles : List CorimRole := []
  deriving DecidableEq, Repr, Inhabited

/-- An entity of a manifest. -/
structure CorimEntity (V : Type := Datum) extends CorimEntityBody where
  hook : Slot CorimEntityBody V := none

instance {V : Type} : Inhabited (CorimEntity V) := ⟨{}⟩

/-- A manifest, its hook aside. -/
structure CorimBody (V : Type := Datum) where
  id : TagId := default
  tags : List ConciseTag := []
  profile : Option ProfileId := none
  entities : List (CorimEntity V) := []
  deriving Inhabited

/-- An unsigned manifest. -/
structure Corim (V : Type := Datum) extends CorimBody V where
  hook : Slot (CorimBody V) V := none

instance {V : Type} : Inhabited (Corim V) := ⟨{}⟩

end Rim
