import Rim.Choice.Catalogs
import Rim.Proofs.Basic
/-!
# What catalogs resolve

A catalog that includes another resolves every name and every tag of it alike.  Registration only
adds, so whatever is registered with the standard catalogs, the families' own variants are still
built in the same way.

## Main definitions

* `Catalog.Includes`, `Catalogs.Includes`: one resolves all that another does.
* `Catalog.Builds`: a payload type is found under its name and under its tag.
* `PayloadType.ShownBy`: how a family holds the payloads of a type as its values.
* `PayloadType.Standard`: the payload types that the families list themselves.

## Main results

* `Catalog.includes_insert`, `Catalogs.includes_modify`: a registration keeps what was resolved
  before.
* `Catalogs.exists_entryOf_standard`: what the standard catalogs list.
-/

namespace Rim

namespace Catalog

variable {T : Type}

/-- Every name and every tag that `s` resolves is resolved alike by `r`. -/
structure Includes (r s : Catalog T) : Prop where
  name : ∀ name tag, s.tagOf? name = some tag → r.tagOf? name = some tag
  tag : ∀ tag e, s.findTag? tag = some e → r.findTag? tag = some e

theorem Includes.refl (r : Catalog T) : r.Includes r where
  name _ _ h := h
  tag _ _ h := h

theorem Includes.trans {r s t : Catalog T} (h : r.Includes s) (h' : s.Includes t) :
    r.Includes t where
  name _ _ he := h.name _ _ (h'.name _ _ he)
  tag _ _ he := h.tag _ _ (h'.tag _ _ he)

/-- An item that is not looked for does not change what is found. -/
theorem find?_insertBy {α κ : Type} [LT κ] [DecidableLT κ] (key : α → κ) (p : α → Bool)
    {a : α} (h : p a = false) (l : List α) : (insertBy key a l).find? p = l.find? p := by
  induction l with
  | nil => simp [insertBy, h]
  | cons b rest ih =>
    unfold insertBy
    split
    · rw [List.find?_cons_of_neg (by simp [h])]
    · rw [List.find?_cons, List.find?_cons, ih]

/-- A registration keeps what was resolved before. -/
theorem includes_insert [TypeChoice T] {r s : Catalog T} {e : CatalogEntry T}
    (h : r.insert e = .ok s) : s.Includes r := by
  obtain ⟨hname, htag, rfl⟩ := insert_eq_ok_iff.1 h
  constructor
  · intro name tag hfound
    have hne : (e.name == name) = false := by
      rw [beq_eq_false_iff_ne]
      rintro rfl
      rw [hasName, hfound] at hname
      exact absurd hname (by simp)
    unfold tagOf? at hfound ⊢
    rw [find?_insertBy _ (fun p : String × UInt64 => p.1 == name) hne]
    exact hfound
  · intro tag found hfound
    have hne : (e.tag == tag) = false := by
      rw [beq_eq_false_iff_ne]
      rintro rfl
      rw [hasTag, hfound] at htag
      exact absurd htag (by simp)
    exact (find?_insertBy CatalogEntry.tag (fun f : CatalogEntry T => f.tag == tag) hne
      r.byTag).trans hfound

/-- Registering another variant leaves those that are there. -/
theorem includes_registerBuilder [TypeChoice T] {r s : Catalog T} {tag : UInt64}
    {build : Builder T} {name : String} (h : r.registerBuilder tag build = .ok (s, name)) :
    s.Includes r := by
  obtain ⟨found, -, h⟩ := exists_of_bind_eq_ok h
  split at h
  · obtain ⟨s', hinsert, h⟩ := exists_of_bind_eq_ok h
    obtain ⟨rfl, -⟩ := Prod.mk.inj (Except.ok.inj h)
    exact includes_insert hinsert
  · cases h

/-- How the payloads of a type are built as values of a family. -/
def entryOf {α : Type} (p : PayloadType α) (wrap : α → T) : CatalogEntry T where
  name := p.typeName
  tag := p.tag
  build input := (p.ofInput input).map wrap

/-- A payload type is found under its name and under its tag. -/
structure Builds {α : Type} (r : Catalog T) (p : PayloadType α) (wrap : α → T) : Prop where
  name : r.tagOf? p.typeName = some p.tag
  tag : r.findTag? p.tag = some (entryOf p wrap)

section Builds

variable {α : Type} {r s : Catalog T} {p : PayloadType α} {wrap : α → T}

theorem Builds.of_includes (h : r.Includes s) (hs : s.Builds p wrap) : r.Builds p wrap where
  name := h.name _ _ hs.name
  tag := h.tag _ _ hs.tag

/-- A catalog that builds a type builds it by name. -/
theorem Builds.buildNamed [TypeChoice T] (h : r.Builds p wrap) (input : PayloadSource) :
    r.buildNamed p.typeName input = (p.ofInput input).map wrap := by
  unfold Catalog.buildNamed Catalog.buildTagged
  rw [h.name]
  dsimp only
  rw [h.tag]
  rfl

theorem Builds.buildTagged [TypeChoice T] (h : r.Builds p wrap) (input : PayloadSource) :
    r.buildTagged p.tag input = (p.ofInput input).map wrap := by
  unfold Catalog.buildTagged
  rw [h.tag]
  rfl

end Builds

end Catalog

namespace Catalogs

/-- Every family that has a catalog in `s` has one in `r`, which includes it. -/
def Includes (r s : Catalogs) : Prop :=
  ∀ f g, s.get? f = some g → ∃ g', r.get? f = some g' ∧ g'.Includes g

theorem Includes.refl (r : Catalogs) : r.Includes r :=
  fun _ g hg => ⟨g, hg, .refl g⟩

theorem Includes.trans {r s t : Catalogs} (h : r.Includes s) (h' : s.Includes t) :
    r.Includes t := by
  intro f g hg
  obtain ⟨g', hg', hinc'⟩ := h' f g hg
  obtain ⟨g'', hg'', hinc''⟩ := h f g' hg'
  exact ⟨g'', hg'', hinc''.trans hinc'⟩

/-- Catalogs that include others do so family by family. -/
theorem Includes.family {r s : Catalogs} (h : r.Includes s) {f : Family} {g : Catalog f.Value}
    (hg : s.get? f = some g) : ∃ g', r.family f = .ok g' ∧ g'.Includes g := by
  obtain ⟨g', hg', hinc⟩ := h f g hg
  refine ⟨g', ?_, hinc⟩
  unfold CatalogsOver.family
  rw [hg']

theorem includes_set {r : Catalogs} {f : Family} {g : Catalog f.Value}
    (h : g.Includes (r.familyOrNew f)) : Includes (r.set f g) r := by
  intro f' old hold
  by_cases hf : f = f'
  · subst hf
    rw [CatalogsOver.familyOrNew, hold] at h
    exact ⟨g, r.get?_set_self f g, h⟩
  · exact ⟨old, (r.get?_set_of_ne hf g).trans hold, .refl old⟩

/-- Whatever is registered with one family, and whether that succeeds or not, what was resolved
before still is.  A failed registration may leave a new catalog behind, but adds no entry. -/
theorem includes_modify {α : Type} {r s : Catalogs} {f : Family}
    {step : Catalog f.Value → Except VariantError (Catalog f.Value × α)} (h : r.Includes s)
    (hstep : ∀ g g' a, step g = .ok (g', a) → g'.Includes g) : Includes (r.modify f step).1 s := by
  apply Includes.trans _ h
  unfold CatalogsOver.modify
  dsimp only
  cases hg : step (r.familyOrNew f) with
  | ok p => exact includes_set (hstep _ p.1 p.2 hg)
  | error e => exact includes_set (.refl _)

/-- A payload type registered from outside leaves the own variants as they are. -/
theorem includes_registerForeign {α : Type} {r : Catalogs} {f : Family} (p : PayloadType α)
    (h : r.Includes .standard) :
    Includes (r.modify f fun g => g.registerForeign p).1 .standard :=
  includes_modify h fun _ _ _ hg => Catalog.includes_registerBuilder hg

/-! ## The standard catalogs

They list each family's own variants in ascending order of tags. -/

open Catalog (entryOf)

/-- The own variants of class identifiers, by name and by tag. -/
theorem get?_standard_classId :
    standard.get? .classId =
      some ⟨[entryOf Uuid.payload ClassId.uuid, entryOf Oid.payload ClassId.oid,
        entryOf TaggedInt.payload ClassId.int, entryOf ImplId.payload ClassId.implId],
        [("int", 551), ("oid", 111), ("psa.impl-id", 600), ("uuid", 37)]⟩ := rfl

/-- The own variants of instance identifiers. -/
theorem get?_standard_instanceId :
    standard.get? .instanceId =
      some ⟨[entryOf Uuid.payload InstanceId.uuid, entryOf Ueid.payload InstanceId.ueid],
        [("ueid", 550), ("uuid", 37)]⟩ := rfl

/-- The own variants of group identifiers. -/
theorem get?_standard_groupId :
    standard.get? .groupId =
      some ⟨[entryOf Uuid.payload GroupId.uuid, entryOf TaggedBytes.payload GroupId.bytes],
        [("bytes", 560), ("uuid", 37)]⟩ := rfl

/-- The own variants of the keys of measurements. -/
theorem get?_standard_mkey :
    standard.get? .mkey =
      some ⟨[entryOf Uuid.payload Mkey.uuid, entryOf Oid.payload Mkey.oid],
        [("oid", 111), ("uuid", 37)]⟩ := rfl

/-- The own variants of keys. -/
theorem get?_standard_cryptoKey :
    standard.get? .cryptoKey =
      some ⟨[entryOf PkixKey.payload CryptoKey.pkixKey, entryOf PkixCert.payload CryptoKey.pkixCert,
        entryOf PkixCertPath.payload CryptoKey.pkixCertPath,
        entryOf Thumbprint.payload CryptoKey.thumbprint,
        entryOf CoseKey.payload CryptoKey.coseKey],
        [("cose-key", 558), ("pkix-base64-cert", 555), ("pkix-base64-cert-path", 556),
          ("pkix-base64-key", 554), ("thumbprint", 557)]⟩ := rfl

/-- The own variant of tags. -/
theorem get?_standard_conciseTag :
    standard.get? .conciseTag =
      some ⟨[entryOf ComidTag.payload ConciseTag.comid], [("comid", 506)]⟩ := rfl

/-- The own variants of profile names. -/
theorem get?_standard_profileId :
    standard.get? .profileId =
      some ⟨[entryOf Uri.payload ProfileId.uri, entryOf Oid.payload ProfileId.oid],
        [("oid", 111), ("uri", 32)]⟩ := rfl

end Catalogs

/-! ## The families' own variants -/

/-- Payloads seen as values of a family show what their type says of them; above all they report
the name and the tag of the type. -/
def PayloadType.ShownBy {T α : Type} [TypeChoice T] (p : PayloadType α) (wrap : α → T) : Prop :=
  ∀ a, TypeChoice.variant (wrap a) = p.variant a

/-- The payload types that the families list as their own. -/
inductive PayloadType.Standard : {α : Type} → PayloadType α → Prop
  | oid : Standard Oid.payload
  | uuid : Standard Uuid.payload
  | implId : Standard ImplId.payload
  | int : Standard TaggedInt.payload
  | ueid : Standard Ueid.payload
  | bytes : Standard TaggedBytes.payload
  | pkixKey : Standard PkixKey.payload
  | pkixCert : Standard PkixCert.payload
  | pkixCertPath : Standard PkixCertPath.payload
  | thumbprint : Standard Thumbprint.payload
  | coseKey : Standard CoseKey.payload
  | comid : Standard ComidTag.payload
  | uri : Standard Uri.payload

/-- Whatever a standard catalog lists is of a standard payload type, and shown as the type says. -/
theorem Catalogs.exists_entryOf_standard {f : Family} {g : Catalog f.Value}
    (hg : standard.get? f = some g) {entry : CatalogEntry f.Value} (hentry : entry ∈ g.byTag) :
    ∃ (α : Type) (p : PayloadType α) (wrap : α → f.Value),
      p.Standard ∧ p.ShownBy wrap ∧ entry = Catalog.entryOf p wrap := by
  cases f with
  | classId =>
    obtain rfl := Option.some.inj (get?_standard_classId.symm.trans hg)
    simp only [List.mem_cons, List.not_mem_nil, or_false] at hentry
    rcases hentry with rfl | rfl | rfl | rfl
    · exact ⟨_, _, _, .uuid, fun _ => rfl, rfl⟩
    · exact ⟨_, _, _, .oid, fun _ => rfl, rfl⟩
    · exact ⟨_, _, _, .int, fun _ => rfl, rfl⟩
    · exact ⟨_, _, _, .implId, fun _ => rfl, rfl⟩
  | instanceId =>
    obtain rfl := Option.some.inj (get?_standard_instanceId.symm.trans hg)
    simp only [List.mem_cons, List.not_mem_nil, or_false] at hentry
    rcases hentry with rfl | rfl
    · exact ⟨_, _, _, .uuid, fun _ => rfl, rfl⟩
    · exact ⟨_, _, _, .ueid, fun _ => rfl, rfl⟩
  | groupId =>
    obtain rfl := Option.some.inj (get?_standard_groupId.symm.trans hg)
    simp only [List.mem_cons, List.not_mem_nil, or_false] at hentry
    rcases hentry with rfl | rfl
    · exact ⟨_, _, _, .uuid, fun _ => rfl, rfl⟩
    · exact ⟨_, _, _, .bytes, fun _ => rfl, rfl⟩
  | mkey =>
    obtain rfl := Option.some.inj (get?_standard_mkey.symm.trans hg)
    simp only [List.mem_cons, List.not_mem_nil, or_false] at hentry
    rcases hentry with rfl | rfl
    · exact ⟨_, _, _, .uuid, fun _ => rfl, rfl⟩
    · exact ⟨_, _, _, .oid, fun _ => rfl, rfl⟩
  | cryptoKey =>
    obtain rfl := Option.some.inj (get?_standard_cryptoKey.symm.trans hg)
    simp only [List.mem_cons, List.not_mem_nil, or_false] at hentry
    rcases hentry with rfl | rfl | rfl | rfl | rfl
    · exact ⟨_, _, _, .pkixKey, fun _ => rfl, rfl⟩
    · exact ⟨_, _, _, .pkixCert, fun _ => rfl, rfl⟩
    · exact ⟨_, _, _, .pkixCertPath, fun _ => rfl, rfl⟩
    · exact ⟨_, _, _, .thumbprint, fun _ => rfl, rfl⟩
    · exact ⟨_, _, _, .coseKey, fun _ => rfl, rfl⟩
  | conciseTag =>
    obtain rfl := Option.some.inj (get?_standard_conciseTag.symm.trans hg)
    obtain rfl := List.mem_singleton.1 hentry
    exact ⟨_, _, _, .comid, fun _ => rfl, rfl⟩
  | profileId =>
    obtain rfl := Option.some.inj (get?_standard_profileId.symm.trans hg)
    simp only [List.mem_cons, List.not_mem_nil, or_false] at hentry
    rcases hentry with rfl | rfl
    · exact ⟨_, _, _, .uri, fun _ => rfl, rfl⟩
    · exact ⟨_, _, _, .oid, fun _ => rfl, rfl⟩

end Rim
