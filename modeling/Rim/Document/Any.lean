import Rim.Document.Slots
import Rim.Session
/-!
# Documents of either kind

A session builds and reads documents of both kinds.  What can be done with every document can be
done with one whose kind is known only as a value.

## Main definitions

* `AnyDocument`: a module identifier or a manifest.
* `Session.buildAny`, `Session.decodeAny`: documents of a given kind.
-/

namespace Rim

/-- A document of either kind. -/
inductive AnyDocument where
  | comid (d : Comid)
  | corim (d : Corim)

namespace AnyDocument

/-- The raw value of a document, valid or not. -/
def encode (f : Format) : AnyDocument → Coded (Raw f)
  | comid d => Document.encode f d
  | corim d => Document.encode f d

/-- Whether a document is valid. -/
def validity : AnyDocument → Validity
  | comid d => Validate.validate d
  | corim d => Validate.validate d

/-- The hooks of a document. -/
def hooks : AnyDocument → List PlacedHook
  | comid d => Slotted.hooks d
  | corim d => Slotted.hooks d

/-- The hook at a path given as text. -/
def placedAt? : AnyDocument → String → Option PlacedHook
  | comid d, path => Slotted.placedAt? d path
  | corim d, path => Slotted.placedAt? d path

/-- A document with a field of the hook at a path set or unset. -/
def putField (path : SlotPath) (name : String) (value : Option Datum) : AnyDocument → AnyDocument
  | comid d => comid (Slotted.putField d path name value)
  | corim d => corim (Slotted.putField d path name value)

/-- A document with a bundle of hooks attached, up to the first refusal. -/
def attach (hooks : HookSource) : AnyDocument → Attached AnyDocument
  | comid d => (Comid.attach hooks d).map comid
  | corim d => (Corim.attach hooks d).map corim

/-- Whether two documents are equal; none if they are of different kinds. -/
def equal? : AnyDocument → AnyDocument → Option Bool
  | comid d, comid e => some (d == e)
  | corim d, corim e => some (d == e)
  | _, _ => none

end AnyDocument

namespace Session

/-- The bytes of a valid document. -/
def encodeAny (s : Session) (f : Format) : AnyDocument → Except Error (List UInt8)
  | .comid d => s.encode f d
  | .corim d => s.encode f d

/-- A fresh document of a kind with the hooks of a profile. -/
def buildAny (s : Session) (profile : Option ProfileId) : DocumentKind → Except Error AnyDocument
  | .comid => (s.build profile).map .comid
  | .corim => (s.build profile).map .corim

/-- The document of a kind that some bytes hold.  A manifest names its profile itself. -/
def decodeAny (s : Session) (f : Format) (profile : Option ProfileId) (bytes : List UInt8) :
    DocumentKind → Except Error AnyDocument
  | .comid => (s.decodeComid f profile bytes).map .comid
  | .corim => (s.decodeCorim f bytes).map .corim

end Session

end Rim
