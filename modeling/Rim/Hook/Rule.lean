import Rim.Document.Flags
import Rim.Hook.Bundle
/-!
# Hooks described by data

A rule refuses whatever it is attached to, with a message of its own, unless one of its two
excuses holds: a field of its hook has a value, or the entity carries a certain content.

## Main definitions

* `HookRule`: rules, and `HookRule.constraint` for the entities of a kind.
* `EntityKind.probe`: the content that excuses an entity.
* `Hook.described`: a hook with a rule, fields and flags.
-/

namespace Rim

/-- A rule: its message, and what excuses an entity from it. -/
structure HookRule where
  message : String
  unlessField : Option String := none
  unlessEntity : Bool := false
  deriving DecidableEq, Repr

/-- The content that excuses an entity of a kind from a rule. -/
def EntityKind.probe : (k : EntityKind) → k.Body → HookView → Bool
  | .comid, d, _ => d.language.isSome
  | .comidEntity, e, _ => e.identity.regId.isSome
  | .triples, t, _ => !t.referenceValues.isEmpty
  | .mval, v, _ => v.name.isSome
  | .flags, m, h => m.holdsFlag || h.holdsFlag
  | .corim, d, _ => d.profile.isSome
  | .corimEntity, e, _ => e.identity.regId.isSome
  | .other _, _, _ => true

/-- The constraint a rule puts on entities of a kind. -/
def HookRule.constraint (r : HookRule) (k : EntityKind) (body : k.Body) (h : HookView) :
    Except Objection Unit :=
  if r.unlessField.any (h.fieldsSet.contains ·) || r.unlessEntity && k.probe body h then .ok ()
  else .error ⟨r.message⟩

/-- A hook with a rule, fields and flags, each a capability it may lack. -/
def Hook.described (k : EntityKind) (rule : Option HookRule) (fields : Option (Schema FieldShape))
    (flags : Option (List OwnedFlag)) : Hook k.Body where
  typeName := "described"
  constraint := rule.map fun r => r.constraint k
  fields := fields.map fun s => s.allFields.map Cell.blank
  flags := flags.map fun owned => { owned }

end Rim
