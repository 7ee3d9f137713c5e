import Rim.Document.Flags
import Rim.Document.Comid
import Rim.Document.Corim
/-!
# Building and changing documents

Documents are built by adding to them, and changed at the measured values of one place.

## Main definitions

* `Mval.putFlag`: a flag of measured values set or unset.
* `Triples.modifyValue`: the measured values at a place replaced.
* `Comid.addEntity` and its like: one more item in a list of a document.
-/

namespace Rim

/-- Measured values with a flag set or unset, in a fresh map if they have none. -/
def Mval.putFlag (v : Mval) (flag : Int64) (value : Option Bool) : Mval :=
  { v with flags := some ((v.flags.getD {}).put flag value) }

/-- Measured values with their serial number set or unset. -/
def Mval.putSerialNumber (v : Mval) (value : Option String) : Mval :=
  { v with serialNumber := value }

/-- A list with one item replaced, if there is such an item and a replacement for it. -/
def modifyItem? {α : Type} (index : Nat) (change : α → Option α) (items : List α) :
    Option (List α) := do
  let item ← items[index]?
  let item ← change item
  return items.set index item

/-- The triple with one of its measured values replaced, if it has that many. -/
def ValueTriple.modifyValue (t : ValueTriple) (measurement : Nat) (change : Mval → Mval) :
    Option ValueTriple :=
  (modifyItem? measurement (fun m => some { m with value := change m.value }) t.measurements).map
    fun ms => { t with measurements := ms }

namespace Triples

/-- Triples with one more for reference values. -/
def addReferenceValue (t : Triples) (v : ValueTriple) : Triples :=
  { t with referenceValues := t.referenceValues ++ [v] }

/-- Triples with one more for endorsed values. -/
def addEndorsedValue (t : Triples) (v : ValueTriple) : Triples :=
  { t with endorsedValues := t.endorsedValues ++ [v] }

/-- Triples with one more for identity keys. -/
def addDevIdentityKey (t : Triples) (k : KeyTriple) : Triples :=
  { t with devIdentityKeys := t.devIdentityKeys ++ [k] }

/-- Triples with one more for the keys that sign evidence. -/
def addAttesterVerificationKey (t : Triples) (k : KeyTriple) : Triples :=
  { t with attesterVerificationKeys := t.attesterVerificationKeys ++ [k] }

/-- Triples without any statement, their hook kept. -/
def clear (t : Triples) : Triples := { hook := t.hook }

/-- Triples with the measured values at a place replaced, if there are such. -/
def modifyValue (t : Triples) (side : ValueSide) (triple measurement : Nat)
    (change : Mval → Mval) : Option Triples :=
  let modify := modifyItem? triple fun v : ValueTriple => v.modifyValue measurement change
  match side with
  | .reference => (modify t.referenceValues).map fun values => { t with referenceValues := values }
  | .endorsed => (modify t.endorsedValues).map fun values => { t with endorsedValues := values }

end Triples

namespace Comid

/-- The module identifier of a tag, without content. -/
def new (tagIdentity : TagIdentity) : Comid := { tagIdentity }

/-- A module identifier with another identifier of its tag. -/
def putTagId (d : Comid) (id : TagId) : Comid :=
  { d with tagIdentity := { d.tagIdentity with tagId := id } }

/-- A module identifier with the version of its tag set or unset. -/
def putTagVersion (d : Comid) (version : Option UInt64) : Comid :=
  { d with tagIdentity := { d.tagIdentity with tagVersion := version } }

/-- A module identifier with its triples changed. -/
def mapTriples (d : Comid) (change : Triples → Triples) : Comid :=
  { d with triples := change d.triples }

/-- A module identifier with one more entity. -/
def addEntity (d : Comid) (e : Entity) : Comid := { d with entities := d.entities ++ [e] }

/-- A module identifier with one more link. -/
def addLinkedTag (d : Comid) (t : LinkedTag) : Comid := { d with linkedTags := d.linkedTags ++ [t] }

end Comid

namespace Corim

/-- The manifest of an identifier, without content. -/
def new (id : TagId) : Corim := { id }

/-- A manifest with one more tag. -/
def addTag (d : Corim) (t : ConciseTag) : Corim := { d with tags := d.tags ++ [t] }

/-- A manifest with one more entity. -/
def addEntity (d : Corim) (e : CorimEntity) : Corim := { d with entities := d.entities ++ [e] }

end Corim

end Rim
