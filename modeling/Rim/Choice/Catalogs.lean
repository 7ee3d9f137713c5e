import Rim.Choice.Family
/-!
# The catalogs of all families

One catalog per family, each of which may be absent.  A family's catalog comes into being with
the first attempt to register one of its variants.

## Main definitions

* `Family`: a family as an index.
* `CatalogsOver`: catalogs by family, `CatalogsOver.family` and `CatalogsOver.familyOrNew` to look
  one up, `CatalogsOver.modify` to change one.
* `Catalogs`: the catalogs of all families.
* `Family.variants`: the variants a family lists itself.
* `Catalogs.standard`: the catalogs with every family's own variants.
-/

namespace Rim

/-- The families. -/
inductive Family where
  | classId
  | instanceId
  | groupId
  | mkey
  | cryptoKey
  | conciseTag
  | profileId
  deriving DecidableEq, Repr

/-- The families by name. -/
def Family.names : List (String × Family) :=
  [("class-id", classId), ("instance", instanceId), ("group", groupId), ("mkey", mkey),
    ("crypto-key", cryptoKey), ("concise-tag", conciseTag), ("profile", profileId)]

/-- The values of a family. -/
abbrev Family.Value : Family → Type
  | .classId => ClassId
  | .instanceId => InstanceId
  | .groupId => GroupId
  | .mkey => Mkey
  | .cryptoKey => CryptoKey
  | .conciseTag => ConciseTag
  | .profileId => ProfileId

instance (f : Family) : TypeChoice f.Value :=
  match f with
  | .classId => inferInstanceAs (TypeChoice ClassId)
  | .instanceId => inferInstanceAs (TypeChoice InstanceId)
  | .groupId => inferInstanceAs (TypeChoice GroupId)
  | .mkey => inferInstanceAs (TypeChoice Mkey)
  | .cryptoKey => inferInstanceAs (TypeChoice CryptoKey)
  | .conciseTag => inferInstanceAs (TypeChoice ConciseTag)
  | .profileId => inferInstanceAs (TypeChoice ProfileId)

/-! ## Catalogs by family

Which families there are is left open: an index tells them apart.  A family without a catalog
differs from one with an empty catalog: a look-up fails in the first and finds nothing in the
second. -/

section CatalogsOver

variable {ι : Type} {V : ι → Type}

/-- The catalog of each family, if it has one. -/
@[ext]
structure CatalogsOver {ι : Type} (V : ι → Type) where
  /-- The catalog of a family, if it has one. -/
  get? : (f : ι) → Option (Catalog (V f)) := fun _ => none

namespace CatalogsOver

/-- No catalogs at all. -/
def empty : CatalogsOver V := {}

/-- The catalog of a family; a family without one is refused. -/
def family [∀ f, TypeChoice (V f)] (r : CatalogsOver V) (f : ι) :
    Except VariantError (Catalog (V f)) :=
  match r.get? f with
  | some g => .ok g
  | none => .error (.absentFamily (TypeChoice.family (V f)))

/-- The catalog of a family, a new one if it has none. -/
def familyOrNew (r : CatalogsOver V) (f : ι) : Catalog (V f) :=
  (r.get? f).getD .empty

variable [DecidableEq ι]

/-- The catalogs with that of one family replaced. -/
def set (r : CatalogsOver V) (f : ι) (g : Catalog (V f)) : CatalogsOver V where
  get? f' := if h : f = f' then some (h ▸ g) else r.get? f'

@[simp] theorem get?_set_self (r : CatalogsOver V) (f : ι) (g : Catalog (V f)) :
    (r.set f g).get? f = some g := by
  simp [set]

theorem get?_set_of_ne (r : CatalogsOver V) {f f' : ι} (h : f ≠ f') (g : Catalog (V f)) :
    (r.set f g).get? f' = r.get? f' := by
  simp [set, h]

/-- The catalogs after some registration with one family, and its outcome.  The family has a
catalog from then on, also if the registration failed. -/
def modify {α : Type} (r : CatalogsOver V) (f : ι)
    (step : Catalog (V f) → Except VariantError (Catalog (V f) × α)) :
    CatalogsOver V × Except VariantError α :=
  let g := r.familyOrNew f
  match step g with
  | .ok (g', a) => (r.set f g', .ok a)
  | .error e => (r.set f g, .error e)

end CatalogsOver

end CatalogsOver

/-- The catalogs of all families. -/
abbrev Catalogs := CatalogsOver Family.Value

/-! ## The variants of the families

Registration stops at the first conflict and keeps what came before it. -/

/-- The variants a family lists itself, in the order they are registered. -/
def Family.variants : (f : Family) → List (OwnVariant f.Value)
  | .classId =>
    [.of Oid.payload ClassId.oid, .of Uuid.payload ClassId.uuid,
      .of ImplId.payload ClassId.implId, .of TaggedInt.payload ClassId.int]
  | .instanceId => [.of Ueid.payload InstanceId.ueid, .of Uuid.payload InstanceId.uuid]
  | .groupId => [.of Uuid.payload GroupId.uuid, .of TaggedBytes.payload GroupId.bytes]
  | .mkey => [.of Uuid.payload Mkey.uuid, .of Oid.payload Mkey.oid]
  | .cryptoKey =>
    [.of PkixKey.payload CryptoKey.pkixKey, .of PkixCert.payload CryptoKey.pkixCert,
      .of PkixCertPath.payload CryptoKey.pkixCertPath,
      .of Thumbprint.payload CryptoKey.thumbprint, .of CoseKey.payload CryptoKey.coseKey]
  | .conciseTag => [.of ComidTag.payload ConciseTag.comid]
  | .profileId => [.of Uri.payload ProfileId.uri, .of Oid.payload ProfileId.oid]

namespace Catalogs

/-- Variants of one family registered in turn, stopping at the first failure and keeping what came
before it. -/
def registerEach (f : Family) : List (OwnVariant f.Value) → Catalogs →
    Catalogs × Except VariantError Unit
  | [], r => (r.set f (r.familyOrNew f), .ok ())
  | v :: rest, r =>
    match r.modify f v.register with
    | (r', .ok _) => registerEach f rest r'
    | (r', .error e) => (r', .error e)

/-- The variants a family lists itself registered in turn. -/
def registerFamily (f : Family) : Catalogs → Catalogs × Except VariantError Unit :=
  registerEach f f.variants

/-- Two steps, the second only if the first succeeded. -/
def andThen (first second : Catalogs → Catalogs × Except VariantError Unit) (r : Catalogs) :
    Catalogs × Except VariantError Unit :=
  match first r with
  | (r', .ok ()) => second r'
  | failed => failed

/-- The variants of the families that module identifiers use. -/
def registerComid : Catalogs → Catalogs × Except VariantError Unit :=
  andThen (registerFamily .classId) <|
  andThen (registerFamily .instanceId) <|
  andThen (registerFamily .groupId) <|
  andThen (registerFamily .mkey) (registerFamily .cryptoKey)

/-- The variants of the families that manifests use. -/
def registerCorim : Catalogs → Catalogs × Except VariantError Unit :=
  andThen (registerFamily .conciseTag) (registerFamily .profileId)

/-- The catalogs with the variants that module identifiers use. -/
def comid : Catalogs := (registerComid .empty).1

/-- The catalogs with every family's own variants. -/
def standard : Catalogs := (andThen registerComid registerCorim .empty).1

end Catalogs

end Rim
