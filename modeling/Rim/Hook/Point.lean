import Rim.Error
/-!
# Extension points

An extension point names one place for a hook.  The points of both kinds of documents are fixed;
measured values and their flags have one point under reference values and another under endorsed
values.

## Main definitions

* `Point`: the name of a place for a hook.
* `HookRefusal`: why a hook is not registered or attached.
* `StandIn`: the point that stands in for another in a part of a document.
* `StandIn.endorsed`: the stand-ins in force under endorsed values.
-/

namespace Rim

/-- The name of a place for a hook. -/
structure Point where
  name : String
  deriving DecidableEq, Repr, Inhabited

namespace Point

/-- The module identifier itself. -/
def comid : Point := ⟨"comid"⟩

/-- Each entity of a module identifier. -/
def comidEntity : Point := ⟨"comid.entity"⟩

/-- The triples of a module identifier. -/
def comidTriples : Point := ⟨"comid.triples"⟩

/-- Measured values among reference values. -/
def referenceValue : Point := ⟨"comid.reference-value"⟩

/-- Flags among reference values. -/
def referenceValueFlags : Point := ⟨"comid.reference-value.flags"⟩

/-- Measured values among endorsed values. -/
def endorsedValue : Point := ⟨"comid.endorsed-value"⟩

/-- Flags among endorsed values. -/
def endorsedValueFlags : Point := ⟨"comid.endorsed-value.flags"⟩

/-- The manifest itself. -/
def corim : Point := ⟨"corim"⟩

/-- Each entity of a manifest. -/
def corimEntity : Point := ⟨"corim.entity"⟩

/-- The points within a module identifier. -/
def ofComid : List Point :=
  [comid, comidEntity, comidTriples, referenceValue, referenceValueFlags, endorsedValue,
    endorsedValueFlags]

/-- The points within a manifest. -/
def ofCorim : List Point := [corim, corimEntity]

end Point

/-- Why a hook is not registered or attached. -/
inductive HookRefusal where
  | slotTaken (point : Point)
  | pointTaken (point : Point)
  | wrongKind (point : Point)
  | unadmitted (point : Point)
  deriving DecidableEq, Repr

/-- The message of a refusal. -/
def HookRefusal.message : HookRefusal → String
  | slotTaken p => s!"extension point '{p.name}' already has a hook attached"
  | pointTaken p => s!"extension point '{p.name}' already registered"
  | wrongKind p => s!"hook registered at '{p.name}' does not fit this entity"
  | unadmitted p => s!"extension point '{p.name}' is not declared by this entity"

/-- The point that stands in for another in a part of a document. -/
structure StandIn where
  source : Point
  target : Point
  deriving DecidableEq, Repr

/-- Measured values and their flags take the endorsed-value points under endorsed values. -/
def StandIn.endorsed : List StandIn :=
  [⟨.referenceValue, .endorsedValue⟩, ⟨.referenceValueFlags, .endorsedValueFlags⟩]

end Rim
