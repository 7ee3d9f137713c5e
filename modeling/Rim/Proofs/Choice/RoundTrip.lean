import Rim.Proofs.Choice.Catalogs
import Rim.Proofs.Payload.Laws
import Rim.Record.Field
/-!
# Type choices are read back

A value of a family holds a payload of one of the family's own types, or a variant registered from
outside.  For the former, writing puts the name or the tag of the type before the payload, and a
catalog that resolves the family's own variants finds the same type under either.

A valid value always has a text form.  It has a binary form as well, unless it holds an object
identifier whose first two arcs do not fit one 64-bit number: the check of identifiers does not look
at that.

## Main definitions

* `Family.oid?`: the object identifier a value holds.
* `Family.HasBinaryForm`: whether the held identifier, if there is one, can be packed.
* `Holds`: a value as a payload of a type.

## Main results

* `FieldCodec.choice_decode_of_encode`: what is written of a valid own value is read back.
* `FieldCodec.choice_travels_iff`: the valid own values that travel in both formats.
-/

namespace Rim

namespace Family

/-- The object identifier a value of a family holds. -/
def oid? : (family : Family) → family.Value → Option Oid
  | .classId, .oid oid => some oid
  | .mkey, .oid oid => some oid
  | .profileId, .oid oid => some oid
  | _, _ => none

/-- A held object identifier packs its first two arcs into 64 bits. -/
def HasBinaryForm (family : Family) (x : family.Value) : Prop :=
  ∀ oid, family.oid? x = some oid → oid.firstNumber < 18446744073709551616

end Family

/-- A payload that is coded was written. -/
theorem Coded.of_ofChoice {α : Type} {x : Except VariantError α} {a : α}
    (h : Coded.ofChoice x = .ok a) : x = .ok a := by
  cases x with
  | error e => cases h
  | ok b => exact congrArg Except.ok (Except.ok.inj h)

/-! ## Values as payloads -/

/-- A value of a family is a payload of a lawful type, seen as a value by `wrap`. -/
structure Holds {T α : Type} [TypeChoice T] (p : PayloadType α) (wrap : α → T) (a : α) (x : T) :
    Prop where
  wrap_eq : wrap a = x
  variant_eq : TypeChoice.variant x = p.variant a
  lawful : p.Lawful
  named : p.typeName.isEmpty = false

namespace Holds

open FieldCodec

variable {T α : Type} [TypeChoice T] {p : PayloadType α} {wrap : α → T} {a : α} {x : T}
  {r : Catalog T}

/-- A choice is checked as its payload is. -/
theorem check_eq (h : Holds p wrap a x) : TypeChoice.check x = p.check a := by
  unfold TypeChoice.check
  rw [h.variant_eq]
  rfl

theorem map_ofInput (h : Holds p wrap a x) {input : PayloadSource}
    (hi : p.ofInput input = .ok a) : (p.ofInput input).map wrap = .ok x := by
  rw [hi]
  exact congrArg Except.ok h.wrap_eq

/-- In the text form a choice is its name beside its payload. -/
theorem encodeChoice_json (h : Holds p wrap a x) {v : Json} (hv : p.toJson a = .ok v) :
    encodeChoice x .json = .ok (.object [("type", .string p.typeName), ("value", v)]) := by
  have hvariant : (TypeChoice.variant x).toJson = .ok v := by rw [h.variant_eq]; exact hv
  have hname : TypeChoice.typeName x = p.typeName := by
    unfold TypeChoice.typeName
    rw [h.variant_eq]
    rfl
  unfold encodeChoice
  rw [hvariant, hname]
  rfl

/-- A name beside a payload is read as the type of that name. -/
theorem decodeNamed_pair (hr : r.Builds p wrap) (hn : p.typeName.isEmpty = false) (v : Json) :
    decodeNamed r (.object [("type", .string p.typeName), ("value", v)]) =
      Coded.ofChoice ((p.ofInput (.json v)).map wrap) := by
  show (if p.typeName.isEmpty then _ else Coded.ofChoice (r.buildNamed p.typeName (.json v))) = _
  rw [hn, hr.buildNamed]
  rfl

/-- The text form of a valid value exists and is read back. -/
theorem json (h : Holds p wrap a x) (hr : r.Builds p wrap) (hc : TypeChoice.check x = .ok ()) :
    ∃ v, encodeChoice x .json = .ok v ∧ decodeNamed r v = .ok x := by
  obtain ⟨v, hv, hread⟩ := h.lawful.ofInput_json (h.check_eq.symm.trans hc)
  refine ⟨_, h.encodeChoice_json hv, ?_⟩
  rw [decodeNamed_pair hr h.named, h.map_ofInput hread]
  rfl

/-- In the binary form it is its payload under its tag. -/
theorem encodeChoice_cbor (h : Holds p wrap a x) :
    encodeChoice x .cbor = (Coded.ofChoice (p.toCbor a)).map (Cbor.tag p.tag) := by
  have htag : TypeChoice.tag x = p.tag := by
    unfold TypeChoice.tag
    rw [h.variant_eq]
    rfl
  unfold encodeChoice
  rw [h.variant_eq, htag]
  show (do let payload ← Coded.ofChoice (p.toCbor a); return Cbor.tag p.tag payload) = _
  cases p.toCbor a <;> rfl

/-- A binary form that exists is read back. -/
theorem cbor (h : Holds p wrap a x) (hr : r.Builds p wrap) (hc : TypeChoice.check x = .ok ())
    {v : Cbor} (hv : encodeChoice x .cbor = .ok v) : decodeTagged r v = .ok x := by
  rw [h.encodeChoice_cbor] at hv
  obtain ⟨payload, hp, rfl⟩ := exists_of_map_eq_ok hv
  have hread := h.lawful.ofInput_cbor (h.check_eq.symm.trans hc) (Coded.of_ofChoice hp)
  show Coded.ofChoice (r.buildTagged p.tag (.cbor payload)) = _
  rw [hr.buildTagged, h.map_ofInput hread]
  rfl

end Holds

/-! ## The families' own variants

One case per variant of each family: the type it holds, the entry of the standard catalogs, and
whether its binary form can fail. -/

/-- What is needed of a value: its payload, its entry, and when its payload has a binary form. -/
def HoldsOwn (family : Family) (x : family.Value) : Prop :=
  ∃ (α : Type) (p : PayloadType α) (wrap : α → family.Value) (a : α) (g : Catalog family.Value),
    Holds p wrap a x ∧ Catalogs.standard.get? family = some g ∧ g.Builds p wrap ∧
      ((family.oid? x = none ∧ ∃ v, p.toCbor a = .ok v) ∨
        ∃ oid, family.oid? x = some oid ∧ p.check a = Oid.lift oid.check ∧
          p.toCbor a = Oid.lift (oid.toBer.map Cbor.bytes))

/-- A choice whose payload has both forms is held by its family. -/
theorem holdsOwn_of_total (family : Family) {α : Type} {p : PayloadType α}
    (wrap : α → family.Value) {a : α} {x : family.Value} {g : Catalog family.Value}
    (h : Holds p wrap a x) (hg : Catalogs.standard.get? family = some g) (hb : g.Builds p wrap)
    (ho : family.oid? x = none) (v : Cbor) (hv : p.toCbor a = .ok v) : HoldsOwn family x :=
  ⟨α, p, wrap, a, g, h, hg, hb, .inl ⟨ho, v, hv⟩⟩

theorem holdsOwn_oid (family : Family) (wrap : Oid → family.Value) {oid : Oid} {x : family.Value}
    {g : Catalog family.Value} (h : Holds Oid.payload wrap oid x)
    (hg : Catalogs.standard.get? family = some g) (hb : g.Builds Oid.payload wrap)
    (ho : family.oid? x = some oid) : HoldsOwn family x :=
  ⟨Oid, Oid.payload, wrap, oid, g, h, hg, hb, .inr ⟨oid, ho, rfl, rfl⟩⟩

theorem holds_text {T α : Type} [TypeChoice T] {typeName : String} {tag : UInt64}
    {get : α → String} {make : String → α} {reason? : String → Option String} {wrap : α → T}
    {a : α} {x : T} (hw : wrap a = x)
    (hv : TypeChoice.variant x = (PayloadType.text typeName tag get make reason?).variant a)
    (hn : typeName.isEmpty = false) (hm : ∀ a, make (get a) = a) :
    Holds (.text typeName tag get make reason?) wrap a x :=
  ⟨hw, hv, PayloadType.lawful_text _ _ _ hm, hn⟩

theorem holds_byteString {T α : Type} [TypeChoice T] {typeName : String} {tag : UInt64}
    {get : α → List UInt8} {make : List UInt8 → α} {reason? : List UInt8 → Option String}
    {wrap : α → T} {a : α} {x : T} (hw : wrap a = x)
    (hv : TypeChoice.variant x = (PayloadType.byteString typeName tag get make reason?).variant a)
    (hn : typeName.isEmpty = false) (hm : ∀ a, make (get a) = a) :
    Holds (.byteString typeName tag get make reason?) wrap a x :=
  ⟨hw, hv, PayloadType.lawful_byteString _ _ _ hm, hn⟩

/-- An own variant that is written is held by its family.  Only the identifiers may be without a
binary form. -/
theorem holdsOwn (family : Family) (x : family.Value) (h : TypeChoice.isForeign x = false) :
    HoldsOwn family x := by
  cases family with
  | classId =>
    cases x with
    | oid v =>
      exact holdsOwn_oid .classId ClassId.oid ⟨rfl, rfl, Oid.lawful_payload, rfl⟩
        Catalogs.get?_standard_classId ⟨rfl, rfl⟩ rfl
    | uuid v =>
      exact holdsOwn_of_total .classId ClassId.uuid ⟨rfl, rfl, Uuid.lawful_payload, rfl⟩
        Catalogs.get?_standard_classId ⟨rfl, rfl⟩ rfl _ rfl
    | implId v =>
      exact holdsOwn_of_total .classId ClassId.implId (holds_byteString rfl rfl rfl fun _ => rfl)
        Catalogs.get?_standard_classId ⟨rfl, rfl⟩ rfl _ rfl
    | int v =>
      exact holdsOwn_of_total .classId ClassId.int ⟨rfl, rfl, TaggedInt.lawful_payload, rfl⟩
        Catalogs.get?_standard_classId ⟨rfl, rfl⟩ rfl _ rfl
    | registered v => cases h
  | instanceId =>
    cases x with
    | ueid v =>
      exact holdsOwn_of_total .instanceId InstanceId.ueid
        (holds_byteString rfl rfl rfl fun _ => rfl)
        Catalogs.get?_standard_instanceId ⟨rfl, rfl⟩ rfl _ rfl
    | uuid v =>
      exact holdsOwn_of_total .instanceId InstanceId.uuid ⟨rfl, rfl, Uuid.lawful_payload, rfl⟩
        Catalogs.get?_standard_instanceId ⟨rfl, rfl⟩ rfl _ rfl
    | registered v => cases h
  | groupId =>
    cases x with
    | uuid v =>
      exact holdsOwn_of_total .groupId GroupId.uuid ⟨rfl, rfl, Uuid.lawful_payload, rfl⟩
        Catalogs.get?_standard_groupId ⟨rfl, rfl⟩ rfl _ rfl
    | bytes v =>
      exact holdsOwn_of_total .groupId GroupId.bytes (holds_byteString rfl rfl rfl fun _ => rfl)
        Catalogs.get?_standard_groupId ⟨rfl, rfl⟩ rfl _ rfl
    | registered v => cases h
  | mkey =>
    cases x with
    | uuid v =>
      exact holdsOwn_of_total .mkey Mkey.uuid ⟨rfl, rfl, Uuid.lawful_payload, rfl⟩
        Catalogs.get?_standard_mkey ⟨rfl, rfl⟩ rfl _ rfl
    | oid v =>
      exact holdsOwn_oid .mkey Mkey.oid ⟨rfl, rfl, Oid.lawful_payload, rfl⟩
        Catalogs.get?_standard_mkey ⟨rfl, rfl⟩ rfl
    | registered v => cases h
  | cryptoKey =>
    cases x with
    | pkixKey v =>
      exact holdsOwn_of_total .cryptoKey CryptoKey.pkixKey (holds_text rfl rfl rfl fun _ => rfl)
        Catalogs.get?_standard_cryptoKey ⟨rfl, rfl⟩ rfl _ rfl
    | pkixCert v =>
      exact holdsOwn_of_total .cryptoKey CryptoKey.pkixCert (holds_text rfl rfl rfl fun _ => rfl)
        Catalogs.get?_standard_cryptoKey ⟨rfl, rfl⟩ rfl _ rfl
    | pkixCertPath v =>
      exact holdsOwn_of_total .cryptoKey CryptoKey.pkixCertPath
        (holds_text rfl rfl rfl fun _ => rfl) Catalogs.get?_standard_cryptoKey ⟨rfl, rfl⟩ rfl _ rfl
    | thumbprint v =>
      exact holdsOwn_of_total .cryptoKey CryptoKey.thumbprint
        ⟨rfl, rfl, Thumbprint.lawful_payload, rfl⟩
        Catalogs.get?_standard_cryptoKey ⟨rfl, rfl⟩ rfl _ rfl
    | coseKey v =>
      exact holdsOwn_of_total .cryptoKey CryptoKey.coseKey
        (holds_byteString rfl rfl rfl fun _ => rfl)
        Catalogs.get?_standard_cryptoKey ⟨rfl, rfl⟩ rfl _ rfl
    | registered v => cases h
  | conciseTag =>
    cases x with
    | comid v =>
      exact holdsOwn_of_total .conciseTag ConciseTag.comid
        (holds_byteString rfl rfl rfl fun _ => rfl)
        Catalogs.get?_standard_conciseTag ⟨rfl, rfl⟩ rfl _ rfl
    | registered v => cases h
  | profileId =>
    cases x with
    | uri v =>
      exact holdsOwn_of_total .profileId ProfileId.uri (holds_text rfl rfl rfl fun _ => rfl)
        Catalogs.get?_standard_profileId ⟨rfl, rfl⟩ rfl _ rfl
    | oid v =>
      exact holdsOwn_oid .profileId ProfileId.oid ⟨rfl, rfl, Oid.lawful_payload, rfl⟩
        Catalogs.get?_standard_profileId ⟨rfl, rfl⟩ rfl
    | registered v => cases h

/-! ## Round trips

The context's catalogs may hold more than the standard ones; what matters is that these are resolved
as they were. -/

namespace FieldCodec

variable {cx : Context} {family : Family} {x : family.Value}

theorem decode_choice_eq {g : Catalog family.Value} (hg : cx.catalogs.family family = .ok g)
    (f : Format) (v : Raw f) : (choice family).decode f cx v = decodeChoice g f v := by
  show (do decodeChoice (← Coded.ofChoice (cx.catalogs.family family)) f v) = _
  rw [hg]
  rfl

/-- What is written of a valid value with one of the family's own variants is read back.  More may
be registered, but the own variants are resolved as in the standard catalogs. -/
theorem choice_decode_of_encode (hcx : cx.catalogs.Includes .standard)
    (hown : TypeChoice.isForeign x = false) (hvalid : TypeChoice.check x = .ok ()) {f : Format}
    {v : Raw f} (hv : (choice family).encode f x = .ok v) :
    (choice family).decode f cx v = .ok x := by
  obtain ⟨α, p, wrap, a, g, hx, hg, hb, -⟩ := holdsOwn family x hown
  obtain ⟨g', hg', hinc⟩ := hcx.family hg
  have hb' : g'.Builds p wrap := hb.of_includes hinc
  rw [decode_choice_eq hg']
  cases f with
  | cbor => exact hx.cbor hb' hvalid hv
  | json =>
    obtain ⟨w, hw, hread⟩ := hx.json hb' hvalid
    obtain rfl : w = v := Except.ok.inj (hw.symm.trans hv)
    exact hread

/-- Every choice that passes its check has a text form. -/
theorem exists_encode_choice_json (hown : TypeChoice.isForeign x = false)
    (hvalid : TypeChoice.check x = .ok ()) : ∃ v, (choice family).encode .json x = .ok v := by
  obtain ⟨α, p, wrap, a, g, hx, -, hb, -⟩ := holdsOwn family x hown
  obtain ⟨v, hv, -⟩ := hx.json hb hvalid
  exact ⟨v, hv⟩

/-- The binary form of a valid value exists exactly if the identifier it holds can be packed; else
the refusal says that the second arc is too large. -/
theorem encode_choice_cbor (hown : TypeChoice.isForeign x = false)
    (hvalid : TypeChoice.check x = .ok ()) :
    (family.HasBinaryForm x → ∃ v, (choice family).encode .cbor x = .ok v) ∧
      (¬ family.HasBinaryForm x → (choice family).encode .cbor x =
        .error (.choice (.invalid "oid" OidError.secondArcTooLarge.message))) := by
  obtain ⟨α, p, wrap, a, g, hx, -, -, hbinary⟩ := holdsOwn family x hown
  have henc : (choice family).encode .cbor x = (Coded.ofChoice (p.toCbor a)).map (Cbor.tag p.tag) :=
    hx.encodeChoice_cbor
  rcases hbinary with ⟨ho, v, hv⟩ | ⟨oid, ho, hcheck, hv⟩
  · refine ⟨fun _ => ⟨.tag p.tag v, by rw [henc, hv]; rfl⟩, fun hn => absurd ?_ hn⟩
    intro oid hoid
    rw [ho] at hoid
    cases hoid
  · have hc : oid.check = .ok () :=
      Oid.of_lift (hcheck.symm.trans (hx.check_eq.symm.trans hvalid))
    have hpack : family.HasBinaryForm x ↔ oid.firstNumber < 18446744073709551616 := by
      constructor
      · exact fun h => h oid ho
      · intro h oid' ho'
        obtain rfl : oid = oid' := Option.some.inj (ho.symm.trans ho')
        exact h
    rw [hpack, henc, hv, Oid.toBer_of_check hc]
    constructor
    · intro h
      rw [if_pos h]
      exact ⟨_, rfl⟩
    · intro h
      rw [if_neg h]
      rfl

/-- A valid value with one of the family's own variants travels in both formats, exactly if the
object identifier it holds can be packed.  It always travels in the text form; where it does not in
the binary form, encoding refuses it.  Of the two formats only the binary one can fail. -/
theorem choice_travels_iff (cx : Context) (hcx : cx.catalogs.Includes .standard) (family : Family)
    (x : family.Value) (hown : TypeChoice.isForeign x = false)
    (hvalid : TypeChoice.check x = .ok ()) :
    ((∀ f, ∃ v, (choice family).encode f x = .ok v ∧ (choice family).decode f cx v = .ok x) ↔
        family.HasBinaryForm x) ∧
      (∃ v, (choice family).encode .json x = .ok v ∧
        (choice family).decode .json cx v = .ok x) ∧
      (¬ family.HasBinaryForm x → (choice family).encode .cbor x =
        .error (.choice (.invalid "oid" OidError.secondArcTooLarge.message))) := by
  obtain ⟨hfits, hrefused⟩ := encode_choice_cbor hown hvalid
  have hjson : ∃ v, (choice family).encode .json x = .ok v ∧
      (choice family).decode .json cx v = .ok x := by
    obtain ⟨v, hv⟩ := exists_encode_choice_json hown hvalid
    exact ⟨v, hv, choice_decode_of_encode hcx hown hvalid hv⟩
  refine ⟨⟨?_, ?_⟩, hjson, hrefused⟩
  · intro htravels
    obtain ⟨v, hv, -⟩ := htravels .cbor
    apply Classical.byContradiction
    intro hwide
    rw [hrefused hwide] at hv
    cases hv
  · intro hpack f
    cases f with
    | json => exact hjson
    | cbor =>
      obtain ⟨v, hv⟩ := hfits hpack
      exact ⟨v, hv, choice_decode_of_encode hcx hown hvalid hv⟩

theorem choice_travels_iff_classId :
    TypeChoice.isForeign (ClassId.oid ⟨[2, 999, 3]⟩) = false ∧
      TypeChoice.check (ClassId.oid ⟨[2, 999, 3]⟩) = .ok () ∧
      ∀ f, ∃ v, (choice .classId).encode f (ClassId.oid ⟨[2, 999, 3]⟩) = .ok v ∧
        (choice .classId).decode f ⟨.standard, none⟩ v = .ok (ClassId.oid ⟨[2, 999, 3]⟩) := by
  refine ⟨rfl, rfl, ?_⟩
  have h := choice_travels_iff ⟨.standard, none⟩ (.refl _) .classId (ClassId.oid ⟨[2, 999, 3]⟩)
    rfl rfl
  refine h.1.2 ?_
  intro oid ho
  obtain rfl : (⟨[2, 999, 3]⟩ : Oid) = oid := Option.some.inj ho
  decide

/-- An identifier with a wide second arc is read from text and valid, and has no binary form. -/
theorem choice_wide_second_arc :
    (choice .classId).decode .json ⟨.standard, none⟩
        (.object [("type", .string "oid"), ("value", .string "2.18446744073709551615")]) =
        .ok (ClassId.oid ⟨[2, 18446744073709551615]⟩) ∧
      TypeChoice.check (ClassId.oid ⟨[2, 18446744073709551615]⟩) = .ok () ∧
      (choice .classId).encode .cbor (ClassId.oid ⟨[2, 18446744073709551615]⟩) =
        .error (.choice (.invalid "oid" "second arc too large")) :=
  ⟨rfl, rfl, rfl⟩

end FieldCodec

end Rim
