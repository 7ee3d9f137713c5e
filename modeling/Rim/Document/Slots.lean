import Rim.Document.Equality
import Rim.Document.Flags
/-!
# The slots of a document

Every place of a document that may carry a hook has a path.  The slots of a document are listed in
the order of the document, and a hook's field is changed at the path of its slot.

## Main definitions

* `SlotPath`: where a slot is, and `SlotPath.toText` for the text of a path.
* `Slotted`: documents with slots; `Slotted.mapSlots` goes through them.
* `Slotted.hooks`: the attached hooks with their paths.
* `Slotted.putField`: a field of a hook changed.
-/

namespace Rim

/-! ## Places of hooks

A place is told by a path from the root.  A path counts the items of lists from zero. -/

/-- Where a slot of a document is.  Measured values are found by their triple and their place in
it. -/
inductive SlotPath where
  | comid
  | corim
  | entity (index : Nat)
  | triples
  | values (side : ValueSide) (triple measurement : Nat)
  | flags (side : ValueSide) (triple measurement : Nat)
  deriving DecidableEq, Repr

/-- The text of a path. -/
def SlotPath.toText : SlotPath → String
  | comid => "comid"
  | corim => "corim"
  | entity i => s!"entity {i}"
  | triples => "triples"
  | values side i j => s!"{side.name} {i} {j}"
  | flags side i j => s!"{side.name} {i} {j} flags"

/-- A hook whatever it is attached to, without its constraint. -/
def Hook.forget {B : Type} (h : Hook B) : Hook Unit := { h with constraint := none }

/-- What is done with the slot at a path, whatever carries it. -/
abbrev SlotStep := SlotPath → {B : Type} → Slot B → Slot B

/-- A hook that is attached at a path. -/
structure PlacedHook where
  path : SlotPath
  hook : Hook Unit

namespace PlacedHook

/-- The hook of a slot, if it has one. -/
def ofSlot {B : Type} (path : SlotPath) (s : Slot B) : List PlacedHook :=
  match s with
  | some h => [⟨path, Hook.forget h⟩]
  | none => []

/-- Whether the hook writes any field. -/
def holdsValues (p : PlacedHook) : Bool := Slot.holdsValues (some p.hook)

end PlacedHook

/-! ## Documents with hooks -/

/-- Documents with slots. -/
class Slotted (D : Type) where
  /-- The attached hooks in the order of the document. -/
  hooks : D → List PlacedHook
  /-- The document with something done to each slot. -/
  mapSlots : SlotStep → D → D

namespace ValueTriple

/-- The hooks among the measured values of a triple. -/
def hooks (side : ValueSide) (triple : Nat) (t : ValueTriple) : List PlacedHook :=
  (t.measurements.mapIdx fun j m =>
    PlacedHook.ofSlot (.values side triple j) m.value.hook ++
      PlacedHook.ofSlot (.flags side triple j) (m.value.flags.bind (·.hook))).flatten

/-- The triple with something done to the slots of its measured values. -/
def mapSlots (step : SlotStep) (side : ValueSide) (triple : Nat) (t : ValueTriple) : ValueTriple :=
  { t with
    measurements := t.measurements.mapIdx fun j m =>
      { m with
        value := { m.value with
          flags := m.value.flags.map fun flags =>
            { flags with hook := step (.flags side triple j) flags.hook }
          hook := step (.values side triple j) m.value.hook } } }

end ValueTriple

namespace Triples

/-- The hooks of triples and of the measured values in them. -/
def hooks (t : Triples) : List PlacedHook :=
  PlacedHook.ofSlot .triples t.hook ++
    (t.referenceValues.mapIdx (ValueTriple.hooks .reference)).flatten ++
    (t.endorsedValues.mapIdx (ValueTriple.hooks .endorsed)).flatten

/-- Triples with something done to their slots. -/
def mapSlots (step : SlotStep) (t : Triples) : Triples :=
  { t with
    referenceValues := t.referenceValues.mapIdx (ValueTriple.mapSlots step .reference)
    endorsedValues := t.endorsedValues.mapIdx (ValueTriple.mapSlots step .endorsed)
    hook := step .triples t.hook }

end Triples

instance : Slotted Comid where
  hooks d :=
    PlacedHook.ofSlot .comid d.hook ++
      (d.entities.mapIdx fun i e => PlacedHook.ofSlot (.entity i) e.hook).flatten ++
      d.triples.hooks
  mapSlots step d :=
    { d with
      entities := d.entities.mapIdx fun i e => { e with hook := step (.entity i) e.hook }
      triples := d.triples.mapSlots step
      hook := step .comid d.hook }

instance : Slotted Corim where
  hooks d :=
    PlacedHook.ofSlot .corim d.hook ++
      (d.entities.mapIdx fun i e => PlacedHook.ofSlot (.entity i) e.hook).flatten
  mapSlots step d :=
    { d with
      entities := d.entities.mapIdx fun i e => { e with hook := step (.entity i) e.hook }
      hook := step .corim d.hook }

namespace Slotted

variable {D : Type} [Slotted D]

/-- The hook at a path given as text. -/
def placedAt? (d : D) (path : String) : Option PlacedHook :=
  (hooks d).find? (·.path.toText == path)

/-- The document with a field of the hook at a path set or unset. -/
def putField (d : D) (path : SlotPath) (name : String) (value : Option Datum) : D :=
  mapSlots (fun p _ s =>
    if p = path then s.map fun h => { h with fields := h.fields.map (Cell.put name value) }
    else s) d

end Slotted

end Rim
