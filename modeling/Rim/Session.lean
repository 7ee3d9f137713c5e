import Rim.Record.Comid
import Rim.Record.Corim
import Rim.Document.Edit
import Rim.Profile.Index
import Rim.Validity.Corim
/-!
# Sessions

A session owns the catalogs of type choices, the profiles and the configuration.  What is
registered with it first is then in force for every document it writes and reads.

## Main definitions

* `Error`: everything a session fails with.
* `Document`: what a session needs to know of a kind of documents.
* `Session.encode`, `Session.decodeComid`, `Session.decodeCorim`: writing and reading documents.
* `Session.addComid`, `Session.comids`: the module identifiers within a manifest.
-/

namespace Rim

/-! ## Errors -/

/-- Everything a session fails with. -/
inductive Error where
  | record (cause : RecordError)
  | validate (cause : ValidityError)
  | choice (cause : VariantError)
  | profile (cause : ProfileError)
  | attach (cause : HookRefusal)
  | config (cause : ConfigError)

namespace Error

/-- The message of an error. -/
def message : Error → String
  | record cause => cause.message
  | validate cause => cause.message
  | choice cause => cause.message
  | profile cause => cause.message
  | attach cause => cause.message
  | config cause => cause.message

/-- The kind of an error. -/
def kind : Error → ErrorKind
  | record cause => cause.kind
  | validate cause => cause.kind
  | choice cause => cause.kind
  | profile cause => cause.kind
  | attach _ => .registryConflict
  | config _ => .config

/-- A result whose error is one of a session. -/
def lift {ε α : Type} (wrap : ε → Error) : Except ε α → Except Error α
  | .ok a => .ok a
  | .error e => .error (wrap e)

end Error

/-! ## Documents -/

/-- Kinds of documents that a session writes and reads. -/
class Document (R : Type) extends Buildable R, Validate R, BEq R where
  shape : RecordShape R

instance : Document Comid where
  shape := comidShape

instance : Document Corim where
  shape := corimShape

/-- The raw value of a document, valid or not. -/
def Document.encode {R : Type} [Document R] (f : Format) (d : R) : Coded (Raw f) :=
  (Document.shape : RecordShape R).encodeExtended f d

/-! ## Sessions

Writing checks validity first.  Reading does not: what was read may be repaired before use. -/

/-- The catalogs, the profiles and the configuration that documents are written and read
under. -/
structure Session where
  config : Config := {}
  catalogs : Catalogs := .standard
  profiles : ProfileIndex := {}

namespace Session

/-- A session with every family's own variants. -/
def new (config : Config) : Session := { config }

/-- A session configured by a text. -/
def ofToml (text : String) : Except ConfigError Session := (Config.ofToml text).map new

/-- What decoding under a profile consults. -/
def context (s : Session) (profile : Option ProfileId) : Context :=
  .ofBundle s.catalogs ((s.profiles.named? profile).map (·.bundle))

/-- A bundle of hooks registered as a profile. -/
def addProfile (s : Session) (id : ProfileId) (bundle : Bundle) :
    Except ProfileError Session :=
  (s.profiles.add id bundle).map fun r => { s with profiles := r }

/-- The session without a profile, and whether there was one. -/
def removeProfile (s : Session) (id : ProfileId) : Session × Bool :=
  let (r, removed) := s.profiles.remove id
  ({ s with profiles := r }, removed)

/-- The bytes of a document, valid or not. -/
def write {R : Type} [Document R] (s : Session) (f : Format) (d : R) : Coded (List UInt8) := do
  let v ← Document.encode f d
  Coded.ofWire (f.toDocument s.config v)

/-- The bytes of a valid document. -/
def encode {R : Type} [Document R] (s : Session) (f : Format) (d : R) :
    Except Error (List UInt8) := do
  Error.lift .validate (Validate.validate d)
  Error.lift .record (s.write f d)

/-- The raw value of some bytes. -/
def parse (s : Session) (f : Format) (bytes : List UInt8) : Except Error (Raw f) :=
  Error.lift .record (Coded.ofWire (f.ofDocument s.config bytes))

/-- A fresh document with the hooks of a profile. -/
def build {R : Type} [Document R] (s : Session) (profile : Option ProfileId) : Except Error R :=
  Error.lift .attach (s.profiles.build profile)

/-- The module identifier some bytes hold, with the hooks of a profile.  The document is built
before the bytes are looked at. -/
def decodeComid (s : Session) (f : Format) (profile : Option ProfileId) (bytes : List UInt8) :
    Except Error Comid := do
  let root : Comid ← s.build profile
  let v ← s.parse f bytes
  Error.lift .record (comidShape.decodeAttached f (s.context profile) root v)

/-- The manifest some bytes hold, with the hooks of the profile it declares.  The profile decides
which hooks there are, so it is read before the rest. -/
def decodeCorim (s : Session) (f : Format) (bytes : List UInt8) : Except Error Corim := do
  let v ← s.parse f bytes
  let profile ← Error.lift .record (Corim.declaredProfile f (s.context none) v)
  let root : Corim ← s.build profile
  Error.lift .record (corimShape.decodeAttached f (s.context profile) root v)

/-- A manifest with the binary form of a valid module identifier appended to its tags. -/
def addComid (s : Session) (m : Corim) (d : Comid) : Except Error Corim := do
  let bytes ← s.encode .cbor d
  return m.addTag (.comid ⟨bytes⟩)

/-- The encoded module identifiers among the tags of a manifest. -/
def comidTags (m : Corim) : List ComidTag :=
  m.tags.filterMap fun
    | .comid tag => some tag
    | .registered _ => none

/-- The module identifiers a manifest holds, with the hooks of its profile. -/
def comids (s : Session) (m : Corim) : Except Error (List Comid) :=
  (comidTags m).mapM fun tag => s.decodeComid .cbor m.profile tag.bytes

end Session

end Rim
