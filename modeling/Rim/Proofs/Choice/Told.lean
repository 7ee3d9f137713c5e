import Mathlib.Data.List.Nodup
import Rim.Proofs.Choice.Exact
import Rim.Proofs.Document.Normal
import Rim.Proofs.Record.Telling
/-!
# Type choices are told by their text forms

The text form of a choice names its type beside its payload.  The own types of a family have
different names, and each of them spells its payloads so that they can be read back.  So own
variants whose text forms agree are the same.  Of variants registered from outside this is for their
types to say.

## Main definitions

* `PayloadType.Told`: the text form of its payload tells a value.
* `Family.ownTypes`: the own payload types of a family.
* `ToldVariants`: variants registered from outside that are told by their text forms.
* `TypeChoice.IsTold`: choices that are told by their text forms.

## Main results

* `PayloadType.Standard.told`: the payload types of the families.
* `Family.textTells_choice`: the choices of a family.
-/

namespace Rim

/-! ## Payloads -/

/-- The text form of its payload tells a value of a type of payloads. -/
def PayloadType.Told {α : Type} (p : PayloadType α) : Prop :=
  ∀ a b v w, p.toJson a = .ok v → p.toJson b = .ok w → Json.Agree v w → a = b

namespace PayloadType

variable {α : Type} {p : PayloadType α}

/-- Payloads are told by texts that they are read back from. -/
theorem told_of_ofText (h : ∀ a v, p.toJson a = .ok v → ∃ s, v = .string s ∧ p.ofText s = .ok a) :
    p.Told := by
  intro a b v w hv hw hagree
  obtain ⟨s, rfl, ha⟩ := h a v hv
  obtain ⟨t, rfl, hb⟩ := h b w hw
  rw [hagree.string_inj] at ha
  exact Except.ok.inj (ha.symm.trans hb)

/-- A type of texts tells its payloads. -/
theorem told_text (typeName : String) (tag : UInt64) {get : α → String} {make : String → α}
    (reason? : String → Option String) (h : ∀ a, make (get a) = a) :
    (text typeName tag get make reason?).Told :=
  told_of_ofText fun a _ hv => ⟨get a, (Except.ok.inj hv).symm, congrArg Except.ok (h a)⟩

theorem told_byteString (typeName : String) (tag : UInt64) {get : α → List UInt8}
    {make : List UInt8 → α} (reason? : List UInt8 → Option String) (h : ∀ a, make (get a) = a) :
    (byteString typeName tag get make reason?).Told := by
  refine told_of_ofText fun a v hv => ⟨Base64.encode (get a), (Except.ok.inj hv).symm, ?_⟩
  show (decodeBase64 typeName (Base64.encode (get a))).map make = _
  rw [decodeBase64_encode]
  exact congrArg Except.ok (h a)

end PayloadType

open PayloadType (told_of_ofText told_text told_byteString)

/-- An object identifier has a text form only if it passes its check. -/
theorem Oid.told_payload : Oid.payload.Told := by
  refine told_of_ofText fun oid v hv => ?_
  change Oid.lift (oid.check.map fun _ => Json.string oid.toText) = .ok v at hv
  obtain ⟨_, hcheck, rfl⟩ := exists_of_map_eq_ok (Oid.of_lift hv)
  refine ⟨oid.toText, rfl, ?_⟩
  show Oid.lift (Oid.ofText oid.toText) = _
  rw [Oid.ofText_toText hcheck]
  rfl

theorem Uuid.told_payload : Uuid.payload.Told := by
  refine told_of_ofText fun u v hv => ⟨u.toText, (Except.ok.inj hv).symm, ?_⟩
  show Uuid.lift (Uuid.parse u.toText) = _
  rw [Uuid.parse_toText]
  rfl

theorem TaggedInt.told_payload : TaggedInt.payload.Told :=
  told_of_ofText fun i _ hv => ⟨i.toText, (Except.ok.inj hv).symm, i.ofText_toText⟩

theorem Thumbprint.told_payload : Thumbprint.payload.Told := by
  refine told_of_ofText fun t v hv => ⟨t.digest.toText, (Except.ok.inj hv).symm, ?_⟩
  show (Digest.ofText t.digest.toText).map Thumbprint.mk = _
  rw [Digest.ofText_toText]
  rfl

/-- The own payload types of the families tell their payloads. -/
theorem PayloadType.Standard.told {α : Type} {p : PayloadType α} (h : p.Standard) : p.Told := by
  cases h with
  | oid => exact Oid.told_payload
  | uuid => exact Uuid.told_payload
  | int => exact TaggedInt.told_payload
  | thumbprint => exact Thumbprint.told_payload
  | implId | ueid | bytes | coseKey | comid => exact told_byteString _ _ _ fun _ => rfl
  | pkixKey | pkixCert | pkixCertPath | uri => exact told_text _ _ _ fun _ => rfl

/-! ## Own variants -/

/-- The text form of a choice names its variant beside its payload. -/
theorem FieldCodec.exists_of_encodeChoice_json {T : Type} [TypeChoice T] {x : T} {v : Json}
    (hv : encodeChoice x .json = .ok v) :
    ∃ payload, (TypeChoice.variant x).toJson = .ok payload ∧
      v = .object [("type", .string (TypeChoice.typeName x)), ("value", payload)] := by
  obtain ⟨payload, hpayload, hv⟩ := exists_of_bind_eq_ok hv
  exact ⟨payload, Coded.of_ofChoice hpayload, (Except.ok.inj hv).symm⟩

/-- An own payload type of a family, and how the family holds its payloads. -/
structure OwnType (T : Type) [TypeChoice T] where
  {Payload : Type}
  type : PayloadType Payload
  wrap : Payload → T
  standard : type.Standard
  shown : type.ShownBy wrap

namespace Family

/-- The own payload types of a family. -/
def ownTypes : (f : Family) → List (OwnType f.Value)
  | .classId => [⟨_, ClassId.oid, .oid, fun _ => rfl⟩, ⟨_, ClassId.uuid, .uuid, fun _ => rfl⟩,
      ⟨_, ClassId.implId, .implId, fun _ => rfl⟩, ⟨_, ClassId.int, .int, fun _ => rfl⟩]
  | .instanceId =>
    [⟨_, InstanceId.ueid, .ueid, fun _ => rfl⟩, ⟨_, InstanceId.uuid, .uuid, fun _ => rfl⟩]
  | .groupId => [⟨_, GroupId.uuid, .uuid, fun _ => rfl⟩, ⟨_, GroupId.bytes, .bytes, fun _ => rfl⟩]
  | .mkey => [⟨_, Mkey.uuid, .uuid, fun _ => rfl⟩, ⟨_, Mkey.oid, .oid, fun _ => rfl⟩]
  | .cryptoKey => [⟨_, CryptoKey.pkixKey, .pkixKey, fun _ => rfl⟩,
      ⟨_, CryptoKey.pkixCert, .pkixCert, fun _ => rfl⟩,
      ⟨_, CryptoKey.pkixCertPath, .pkixCertPath, fun _ => rfl⟩,
      ⟨_, CryptoKey.thumbprint, .thumbprint, fun _ => rfl⟩,
      ⟨_, CryptoKey.coseKey, .coseKey, fun _ => rfl⟩]
  | .conciseTag => [⟨_, ConciseTag.comid, .comid, fun _ => rfl⟩]
  | .profileId => [⟨_, ProfileId.uri, .uri, fun _ => rfl⟩, ⟨_, ProfileId.oid, .oid, fun _ => rfl⟩]

/-- The own types of a family have different names. -/
theorem nodup_typeNames (f : Family) : (f.ownTypes.map (·.type.typeName)).Nodup := by
  cases f <;> decide

open TypeChoice (IsOwn isForeign typeName variant)

/-- An own variant holds a payload of an own type. -/
theorem exists_ownType {f : Family} {x : f.Value} (hx : IsOwn x) :
    ∃ t ∈ f.ownTypes, ∃ a, x = t.wrap a := by
  cases f with
  | classId =>
    cases x with
    | oid a => exact ⟨_, .head _, a, rfl⟩
    | uuid a => exact ⟨_, .tail _ (.head _), a, rfl⟩
    | implId a => exact ⟨_, .tail _ (.tail _ (.head _)), a, rfl⟩
    | int a => exact ⟨_, .tail _ (.tail _ (.tail _ (.head _))), a, rfl⟩
    | registered _ => cases hx
  | instanceId =>
    cases x with
    | ueid a => exact ⟨_, .head _, a, rfl⟩
    | uuid a => exact ⟨_, .tail _ (.head _), a, rfl⟩
    | registered _ => cases hx
  | groupId =>
    cases x with
    | uuid a => exact ⟨_, .head _, a, rfl⟩
    | bytes a => exact ⟨_, .tail _ (.head _), a, rfl⟩
    | registered _ => cases hx
  | mkey =>
    cases x with
    | uuid a => exact ⟨_, .head _, a, rfl⟩
    | oid a => exact ⟨_, .tail _ (.head _), a, rfl⟩
    | registered _ => cases hx
  | cryptoKey =>
    cases x with
    | pkixKey a => exact ⟨_, .head _, a, rfl⟩
    | pkixCert a => exact ⟨_, .tail _ (.head _), a, rfl⟩
    | pkixCertPath a => exact ⟨_, .tail _ (.tail _ (.head _)), a, rfl⟩
    | thumbprint a => exact ⟨_, .tail _ (.tail _ (.tail _ (.head _))), a, rfl⟩
    | coseKey a => exact ⟨_, .tail _ (.tail _ (.tail _ (.tail _ (.head _)))), a, rfl⟩
    | registered _ => cases hx
  | conciseTag =>
    cases x with
    | comid a => exact ⟨_, .head _, a, rfl⟩
    | registered _ => cases hx
  | profileId =>
    cases x with
    | uri a => exact ⟨_, .head _, a, rfl⟩
    | oid a => exact ⟨_, .tail _ (.head _), a, rfl⟩
    | registered _ => cases hx

theorem typeName_wrap {f : Family} (t : OwnType f.Value) (a : t.Payload) :
    typeName (t.wrap a) = t.type.typeName :=
  congrArg Variant.typeName (t.shown a)

/-- Own variants of one name are told by their payloads. -/
theorem eq_of_isOwn {f : Family} {x y : f.Value} (hx : IsOwn x) (hy : IsOwn y)
    (hname : typeName x = typeName y) {v w : Json} (hv : (variant x).toJson = .ok v)
    (hw : (variant y).toJson = .ok w) (hagree : Json.Agree v w) : x = y := by
  obtain ⟨t, ht, a, rfl⟩ := exists_ownType hx
  obtain ⟨t', ht', b, rfl⟩ := exists_ownType hy
  rw [typeName_wrap, typeName_wrap] at hname
  obtain rfl := List.inj_on_of_nodup_map f.nodup_typeNames ht ht' hname
  rw [t.shown] at hv hw
  exact congrArg t.wrap (t.standard.told a b v w hv hw hagree)

end Family

/-! ## Variants from outside -/

/-- Variants registered from outside, of which any two are the same if they have one name and the
text forms of their payloads agree. -/
structure ToldVariants where
  holds : Variant → Prop
  eq_of_agree : ∀ v w, holds v → holds w → v.typeName = w.typeName →
    ∀ a b, v.toJson = .ok a → w.toJson = .ok b → Json.Agree a b → v = w

variable {outside : ToldVariants}

/-- A choice holds an own variant of its family, or one of some from outside. -/
def TypeChoice.IsAmong (holds : Variant → Prop) {T : Type} [TypeChoice T] (x : T) : Prop :=
  isForeign x = true → holds (variant x)

/-- A choice that its text form tells: an own variant, or one of some from outside whose name is
none of its family's own. -/
structure TypeChoice.IsTold (outside : ToldVariants) {T : Type} [TypeChoice T] (x : T) : Prop where
  among : IsAmong outside.holds x
  named : isForeign x = true → ∀ y : T, IsOwn y → typeName y ≠ typeName x

namespace Family

open TypeChoice (IsTold isForeign typeName variant)

/-- Variants from outside are the same choice if they are the same variant. -/
theorem eq_of_variant_eq {f : Family} {x y : f.Value} (hx : isForeign x = true)
    (hy : isForeign y = true) (h : variant x = variant y) : x = y := by
  have hof : ∀ {x : f.Value}, isForeign x = true → x = TypeChoice.ofVariant (variant x) := by
    intro x hx
    cases f <;> cases x <;> first | rfl | cases hx
  rw [hof hx, hof hy, h]

/-- The choices of a family are told by their text forms. -/
theorem textTells_choice {f : Family} {x y : f.Value} (hx : IsTold outside x)
    (hy : IsTold outside y) :
    ((FieldCodec.choice f).written x).TextTells ((FieldCodec.choice f).written y) := by
  intro v w hv hw hagree
  obtain ⟨payload, hpayload, rfl⟩ := FieldCodec.exists_of_encodeChoice_json hv
  obtain ⟨payload', hpayload', rfl⟩ := FieldCodec.exists_of_encodeChoice_json hw
  have hmembers := Json.agree_object_iff.1 hagree
  have htype : Json.Agree (.string (typeName x)) (.string (typeName y)) :=
    related_of_rel (hmembers "type") rfl rfl
  have hname : typeName x = typeName y := htype.string_inj
  have hvalue : Json.Agree payload payload' := related_of_rel (hmembers "value") rfl rfl
  suffices hsame : x = y by rw [hsame]
  cases hforeign : isForeign x with
  | false =>
    cases hforeign' : isForeign y with
    | false => exact eq_of_isOwn hforeign hforeign' hname hpayload hpayload' hvalue
    | true => exact absurd hname (hy.named hforeign' x hforeign)
  | true =>
    cases hforeign' : isForeign y with
    | false => exact absurd hname.symm (hx.named hforeign y hforeign')
    | true =>
      exact eq_of_variant_eq hforeign hforeign' (outside.eq_of_agree _ _ (hx.among hforeign)
        (hy.among hforeign') hname _ _ hpayload hpayload' hvalue)

end Family

end Rim
