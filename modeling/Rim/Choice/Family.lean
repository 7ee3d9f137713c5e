import Rim.Choice.Catalog
import Rim.Payload.Bytes
import Rim.Payload.Digest
import Rim.Payload.Integer
import Rim.Payload.Oid
import Rim.Payload.Pem
import Rim.Payload.Registered
import Rim.Payload.Uri
import Rim.Payload.Uuid
/-!
# The families of type choices

Each family lists its own variants and has one more place for a variant registered from outside.

## Main definitions

* `ClassId`: what identifies a class of environments.
* `InstanceId`: what identifies one environment.
* `GroupId`: what identifies a group of environments.
* `Mkey`: what tells measurements of one environment apart.
* `CryptoKey`: a verification key, a certificate or a reference to one.
* `ConciseTag`: one tag of a manifest.
* `ProfileId`: what names the profile of a document.
-/

namespace Rim

/-! ## The families

Each lists its own variants and admits registered ones beside them. -/

/-- What identifies a class of environments. -/
inductive ClassId where
  | oid (value : Oid)
  | uuid (value : Uuid)
  | implId (value : ImplId)
  | int (value : TaggedInt)
  | registered (value : Variant)
  deriving BEq

/-- What identifies one environment. -/
inductive InstanceId where
  | ueid (value : Ueid)
  | uuid (value : Uuid)
  | registered (value : Variant)
  deriving BEq

/-- What identifies a group of environments. -/
inductive GroupId where
  | uuid (value : Uuid)
  | bytes (value : TaggedBytes)
  | registered (value : Variant)
  deriving BEq

/-- What tells measurements of one environment apart. -/
inductive Mkey where
  | uuid (value : Uuid)
  | oid (value : Oid)
  | registered (value : Variant)
  deriving BEq

/-- A verification key, a certificate or a reference to one. -/
inductive CryptoKey where
  | pkixKey (value : PkixKey)
  | pkixCert (value : PkixCert)
  | pkixCertPath (value : PkixCertPath)
  | thumbprint (value : Thumbprint)
  | coseKey (value : CoseKey)
  | registered (value : Variant)
  deriving BEq

/-- One tag of a manifest. -/
inductive ConciseTag where
  | comid (value : ComidTag)
  | registered (value : Variant)
  deriving BEq

/-- What names the profile of a document. -/
inductive ProfileId where
  | uri (value : Uri)
  | oid (value : Oid)
  | registered (value : Variant)
  deriving BEq

/-! ## Their variants -/

instance : TypeChoice ClassId where
  family := "class id"
  variant
    | .oid v => Oid.payload.variant v
    | .uuid v => Uuid.payload.variant v
    | .implId v => ImplId.payload.variant v
    | .int v => TaggedInt.payload.variant v
    | .registered v => v
  ofVariant := .registered
  isForeign
    | .registered _ => true
    | _ => false

instance : TypeChoice InstanceId where
  family := "instance"
  variant
    | .ueid v => Ueid.payload.variant v
    | .uuid v => Uuid.payload.variant v
    | .registered v => v
  ofVariant := .registered
  isForeign
    | .registered _ => true
    | _ => false

instance : TypeChoice GroupId where
  family := "group"
  variant
    | .uuid v => Uuid.payload.variant v
    | .bytes v => TaggedBytes.payload.variant v
    | .registered v => v
  ofVariant := .registered
  isForeign
    | .registered _ => true
    | _ => false

instance : TypeChoice Mkey where
  family := "measurement key"
  variant
    | .uuid v => Uuid.payload.variant v
    | .oid v => Oid.payload.variant v
    | .registered v => v
  ofVariant := .registered
  isForeign
    | .registered _ => true
    | _ => false

instance : TypeChoice CryptoKey where
  family := "crypto key"
  variant
    | .pkixKey v => PkixKey.payload.variant v
    | .pkixCert v => PkixCert.payload.variant v
    | .pkixCertPath v => PkixCertPath.payload.variant v
    | .thumbprint v => Thumbprint.payload.variant v
    | .coseKey v => CoseKey.payload.variant v
    | .registered v => v
  ofVariant := .registered
  isForeign
    | .registered _ => true
    | _ => false

instance : TypeChoice ConciseTag where
  family := "concise tag"
  variant
    | .comid v => ComidTag.payload.variant v
    | .registered v => v
  ofVariant := .registered
  isForeign
    | .registered _ => true
    | _ => false

instance : TypeChoice ProfileId where
  family := "profile"
  variant
    | .uri v => Uri.payload.variant v
    | .oid v => Oid.payload.variant v
    | .registered v => v
  ofVariant := .registered
  isForeign
    | .registered _ => true
    | _ => false

/-! ## Profile identifiers -/

/-- The profile named by a URI, which must be absolute. -/
def ProfileId.ofUri (text : String) : Except VariantError ProfileId :=
  (Uri.payload.checked ⟨text⟩).map ProfileId.uri

/-- The profile named by a dotted object identifier. -/
def ProfileId.ofOid (text : String) : Except VariantError ProfileId :=
  (Oid.lift (Oid.ofText text)).map ProfileId.oid

/-- The text a profile is known by. -/
def ProfileId.text (id : ProfileId) : String := (TypeChoice.variant id).display

end Rim
