import Mathlib.Data.List.Forall2
import Rim.Proofs.Record.Reading
import Rim.Record.Comid
import Rim.Record.Corim
/-!
# Records as they are written

What a record writes is made of what its fields write, and how these are read is no part of it.  So
it can be told for records whose hooks hold values of any type that can be written.  With the values
that hooks have otherwise, it is what the codec of the record writes.

## Main definitions

* `WrittenValue`, `WrittenField`: a value and a field as they are written in both formats.
* `WrittenValue.list`, `WrittenValue.record`: lists and records of such.
* `Comid.written`, `Corim.written`: documents, and each of their records by the same name.

## Main results

* `Slot.puts_eq`: what a hook writes are the written fields of its slot.
* `Comid.written_extended`, `Corim.written_extended`: the written form is that of the codec.
-/

namespace Rim

/-! ## Values and fields -/

/-- A value as it is written in both formats. -/
@[ext]
structure WrittenValue where
  encode : (f : Format) → Coded (Raw f)
  isEmpty : Bool := false

/-- A field as it is written, if it is written at all. -/
structure WrittenField where
  spec : FieldSpec
  value : Option WrittenValue

namespace WrittenField

/-- What is written of a field in a format. -/
def put? (f : Format) (a : WrittenField) : Option (Put f) :=
  a.value.map fun x => ⟨a.spec, x.encode f⟩

/-- The field with a value, which an optional field leaves out if it is empty. -/
def of (spec : FieldSpec) (value : Option WrittenValue) : WrittenField :=
  ⟨spec, value.filter fun x => !(spec.isOptional && x.isEmpty)⟩

theorem put?_of_some (f : Format) (spec : FieldSpec) (x : WrittenValue) :
    (of spec (some x)).put? f =
      if spec.isOptional && x.isEmpty then none else some ⟨spec, x.encode f⟩ := by
  rw [put?, of, Option.filter_some]
  cases spec.isOptional && x.isEmpty <;> rfl

end WrittenField

namespace WrittenValue

instance : HookValue WrittenValue := ⟨fun f x => x.encode f, isEmpty⟩

/-- A list of values; the one without items is empty. -/
def list (items : List WrittenValue) : WrittenValue where
  encode f := (encodeItems (fun x => x.encode f) 0 items).map f.ofList
  isEmpty := items.isEmpty

/-- A record of fields. -/
def record (entity : String) (layout : Layout) (fields : List WrittenField) : WrittenValue where
  encode f := (writeAll entity [] (fields.filterMap (WrittenField.put? f))).map (f.ofEntries layout)

/-- Records are written alike if their fields are. -/
theorem record_congr {entity : String} {layout : Layout} {as bs : List WrittenField}
    (h : ∀ f, as.filterMap (WrittenField.put? f) = bs.filterMap (WrittenField.put? f)) :
    record entity layout as = record entity layout bs :=
  WrittenValue.ext (funext fun f => congrArg (fun puts => (writeAll entity [] puts).map _) (h f))
    rfl

end WrittenValue

/-- A value as its codec writes it. -/
def FieldCodec.written {α : Type} (c : FieldCodec α) (a : α) : WrittenValue where
  encode f := c.encode f a
  isEmpty := c.isEmpty a

/-- The field of a codec. -/
def WrittenField.ofCodec {α : Type} (c : FieldCodec α) (spec : FieldSpec) (value : Option α) :
    WrittenField :=
  .of spec (value.map c.written)

variable {B V : Type} [HookValue V]

/-- A value of a hook field as it is written. -/
def HookValue.written (x : V) : WrittenValue where
  encode f := encode f x
  isEmpty := isEmpty x

/-- A field of a hook as it is written. -/
def Cell.written (c : Cell V) : WrittenField := .of c.shape.spec (c.value.map HookValue.written)

/-- The fields of the hook in a slot. -/
def Slot.written (s : Slot B V) : List WrittenField :=
  match s with
  | some h => (Hook.cells h).map Cell.written
  | none => []

theorem Cell.put?_written (f : Format) (c : Cell V) : c.written.put? f = c.put? f := by
  obtain ⟨shape, value⟩ := c
  cases value with
  | none => rfl
  | some x => exact WrittenField.put?_of_some f shape.spec (HookValue.written x)

/-- What a hook writes are the written fields of its slot. -/
theorem Slot.puts_eq (f : Format) (s : Slot B V) :
    Slot.puts f s = (Slot.written s).filterMap (WrittenField.put? f) := by
  cases s with
  | none => rfl
  | some h =>
    rw [Slot.written, List.filterMap_map]
    exact List.filterMap_congr fun c _ => (Cell.put?_written f c).symm

/-! ## Records

Each record with its fields in the order in which they are written, those of its hook last. -/

/-- The identifier and the version of a tag. -/
def TagIdentity.written (t : TagIdentity) : WrittenValue :=
  .record "tag-identity" .map [
    .ofCodec .tagId (.required "id" 0) (some t.tagId),
    .ofCodec .uint64 (.optional "version" 1) t.tagVersion]

/-- Another tag and the relation to it. -/
def LinkedTag.written (t : LinkedTag) : WrittenValue :=
  .record "linked-tag" .map [
    .ofCodec .tagId (.required "target" 0) (some t.target),
    .ofCodec (.code TagRel) (.required "rel" 1) (some t.rel)]

/-- A class of environments. -/
def EnvClass.written (c : EnvClass) : WrittenValue :=
  .record "class" .map [
    .ofCodec (.choice .classId) (.optional "id" 0) c.classId,
    .ofCodec .string (.optional "vendor" 1) c.vendor,
    .ofCodec .string (.optional "model" 2) c.model,
    .ofCodec .uint64 (.optional "layer" 3) c.layer,
    .ofCodec .uint64 (.optional "index" 4) c.index]

/-- An environment. -/
def Environment.written (e : Environment) : WrittenValue :=
  .record "environment" .map [
    .of (.optional "class" 0) (e.envClass.map EnvClass.written),
    .ofCodec (.choice .instanceId) (.optional "instance" 1) e.instanceId,
    .ofCodec (.choice .groupId) (.optional "group" 2) e.group]

/-- Keys of an environment. -/
def KeyTriple.written (t : KeyTriple) : WrittenValue :=
  .record "key-triple" .array [
    .of (.required "environment" 0) (some t.environment.written),
    .ofCodec (.list (.choice .cryptoKey)) (.required "verification-keys" 1)
      (some t.verificationKeys)]

/-- The fields of an entity of a module identifier, those of its hook aside. -/
def EntityBody.written (e : EntityBody) : List WrittenField := [
  .ofCodec .string (.required "name" 0) (some e.identity.name),
  .ofCodec .string (.optional "regid" 1) e.identity.regId,
  .ofCodec (.list (.code Role)) (.required "roles" 2) (some e.roles)]

/-- An entity of a module identifier. -/
def EntityOf.written (e : EntityOf V) : WrittenValue :=
  .record "entity" .map (e.toEntityBody.written ++ Slot.written e.hook)

/-- The fields of an entity of a manifest, those of its hook aside. -/
def CorimEntityBody.written (e : CorimEntityBody) : List WrittenField := [
  .ofCodec .string (.required "name" 0) (some e.identity.name),
  .ofCodec .string (.optional "regid" 1) e.identity.regId,
  .ofCodec (.list (.code CorimRole)) (.required "roles" 2) (some e.roles)]

/-- An entity of a manifest. -/
def CorimEntity.written (e : CorimEntity V) : WrittenValue :=
  .record "corim-entity" .map (e.toCorimEntityBody.written ++ Slot.written e.hook)

/-- The built-in flags. -/
def FlagsBody.written (b : FlagsBody) : List WrittenField :=
  (List.finRange 10).map fun i =>
    .ofCodec .bool (.optional (flagNames.get i) (UInt64.ofNat i)) (b.flag i)

/-- Flags of measured values. -/
def FlagsMap.written (m : FlagsMap V) : WrittenValue :=
  .record "flags" .map (m.toFlagsBody.written ++ Slot.written m.hook)

/-- The fields of measured values, those of their hook aside. -/
def MvalBody.written (b : MvalBody V) : List WrittenField := [
  .ofCodec (.list .digest) (.optional "digests" 2) (some b.digests),
  .of (.optional "flags" 3) (b.flags.map FlagsMap.written),
  .ofCodec .bytes (.optional "raw-value" 4) b.rawValue,
  .ofCodec .string (.optional "serial-number" 8) b.serialNumber,
  .ofCodec .ueid (.optional "ueid" 9) b.ueid,
  .ofCodec .uuid (.optional "uuid" 10) b.uuid,
  .ofCodec .string (.optional "name" 11) b.name]

/-- Measured values. -/
def Mval.written (v : Mval V) : WrittenValue :=
  .record "measurement-values" .map (v.toMvalBody.written ++ Slot.written v.hook)

/-- Measured values under a key. -/
def Measurement.written (m : Measurement V) : WrittenValue :=
  .record "measurement" .map [
    .ofCodec (.choice .mkey) (.optional "key" 0) m.key,
    .of (.required "value" 1) (some m.value.written),
    .ofCodec (.list (.choice .cryptoKey)) (.optional "authorized-by" 2) (some m.authorizedBy)]

/-- Reference or endorsed values for an environment. -/
def ValueTriple.written (t : ValueTriple V) : WrittenValue :=
  .record "value-triple" .array [
    .of (.required "environment" 0) (some t.environment.written),
    .of (.required "measurements" 1) (some (.list (t.measurements.map Measurement.written)))]

/-- The fields of triples, those of their hook aside. -/
def TriplesBody.written (t : TriplesBody V) : List WrittenField := [
  .of (.optional "reference-values" 0) (some (.list (t.referenceValues.map ValueTriple.written))),
  .of (.optional "endorsed-values" 1) (some (.list (t.endorsedValues.map ValueTriple.written))),
  .of (.optional "dev-identity-keys" 2) (some (.list (t.devIdentityKeys.map KeyTriple.written))),
  .of (.optional "attester-verification-keys" 3)
    (some (.list (t.attesterVerificationKeys.map KeyTriple.written)))]

/-- All triples. -/
def Triples.written (t : Triples V) : WrittenValue :=
  .record "triples" .map (t.toTriplesBody.written ++ Slot.written t.hook)

/-- The fields of a module identifier, those of its hook aside. -/
def ComidBody.written (d : ComidBody V) : List WrittenField := [
  .ofCodec .string (.optional "lang" 0) d.language,
  .of (.required "tag-identity" 1) (some d.tagIdentity.written),
  .of (.optional "entities" 2) (some (.list (d.entities.map EntityOf.written))),
  .of (.optional "linked-tags" 3) (some (.list (d.linkedTags.map LinkedTag.written))),
  .of (.required "triples" 4) (some d.triples.written)]

/-- A module identifier. -/
def Comid.written (d : Comid V) : WrittenValue :=
  .record "comid" .map (d.toComidBody.written ++ Slot.written d.hook)

/-- The fields of a manifest, those of its hook aside. -/
def CorimBody.written (d : CorimBody V) : List WrittenField := [
  .ofCodec .tagId (.required "corim-id" 0) (some d.id),
  .ofCodec (.list (.choice .conciseTag)) (.required "tags" 1) (some d.tags),
  .ofCodec (.choice .profileId) Corim.profileField d.profile,
  .of (.optional "entities" 5) (some (.list (d.entities.map CorimEntity.written)))]

/-- A manifest. -/
def Corim.written (d : Corim V) : WrittenValue :=
  .record "unsigned-corim" .map (d.toCorimBody.written ++ Slot.written d.hook)

/-! ## Codecs

With the values that hooks have otherwise, the written form of a record is that of its codec, since
its members write these fields one by one. -/

section

variable {α R : Type} {c : FieldCodec α} {spec : FieldSpec} {r : R} {f : Format}

/-- A list is written as its items are. -/
theorem FieldCodec.written_list {one : α → WrittenValue} (h : c.written = one) (items : List α) :
    (FieldCodec.list c).written items = .list (items.map one) := by
  subst h
  refine WrittenValue.ext (funext fun f => ?_) (by cases items <;> rfl)
  show (encodeItems (c.encode f) 0 items).map _ = (encodeItems _ 0 (items.map c.written)).map _
  rw [encodeItems_map fun a _ => rfl]
  rfl

/-- Where hooks are taken from is a matter of reading. -/
theorem FieldCodec.written_under {standIns : List StandIn} {a : α} {x : WrittenValue}
    (h : c.written a = x) : (FieldCodec.under standIns c).written a = x :=
  h

namespace Member

/-- A member writes a field in both formats. -/
def WritesField (m : Member R) (r : R) (a : WrittenField) : Prop := ∀ f, m.put? f r = a.put? f

theorem written_encodeUnlessEmpty (a : α) :
    (encodeUnlessEmpty c spec f a).map (Put.mk spec) =
      (WrittenField.of spec (some (c.written a))).put? f := by
  rw [WrittenField.put?_of_some, encodeUnlessEmpty]
  show Option.map _ (if (spec.isOptional && c.isEmpty a) = true then _ else _) =
    if (spec.isOptional && c.isEmpty a) = true then _ else _
  split <;> rfl

theorem writesField_required {get : R → α} {set : α → R → R} {x : WrittenValue}
    (h : c.written (get r) = x) :
    (required spec c get set).WritesField r (.of spec (some x)) :=
  fun _ => h ▸ written_encodeUnlessEmpty (get r)

theorem writesField_defaulted {absent : α} {get : R → α} {set : α → R → R} {x : WrittenValue}
    (h : c.written (get r) = x) :
    (defaulted spec c absent get set).WritesField r (.of spec (some x)) :=
  fun _ => h ▸ written_encodeUnlessEmpty (get r)

theorem writesField_optional {get : R → Option α} {set : Option α → R → R}
    {one : α → WrittenValue} (h : c.written = one) :
    (optional spec c get set).WritesField r (.of spec ((get r).map one)) := by
  subst h
  intro f
  show ((get r).bind _).map _ = _
  cases get r with
  | none => rfl
  | some a => exact written_encodeUnlessEmpty a

theorem writesField_embedded {S : Type} {m : Member R} {get : S → R} {set : R → S → S} {s : S}
    {a : WrittenField} (h : m.WritesField (get s) a) : (m.embedded get set).WritesField s a :=
  h

end Member

namespace RecordShape

variable {s : RecordShape R} {blank : R} {fields : List WrittenField}

/-- A record writes the fields that its members write one by one. -/
theorem puts_eq_of_writesField (h : List.Forall₂ (fun m a => m.WritesField r a) s.members fields)
    (f : Format) : s.puts f r = fields.filterMap (WrittenField.put? f) := by
  unfold puts
  generalize s.members = members at h
  induction h with
  | nil => rfl
  | cons hm _ ih => rw [List.filterMap_cons, List.filterMap_cons, hm f, ih]

/-- A record writes its fields and what more there is. -/
theorem encodeWith_eq (h : List.Forall₂ (fun m a => m.WritesField r a) s.members fields)
    (f : Format) (more : List WrittenField) :
    s.encodeWith f r (more.filterMap (WrittenField.put? f)) =
      (WrittenValue.record s.schema.entity s.schema.layout (fields ++ more)).encode f := by
  rw [encodeWith, puts_eq_of_writesField h, ← List.filterMap_append]
  rfl

/-- A record without a hook is written as its fields. -/
theorem written_codec (h : List.Forall₂ (fun m a => m.WritesField r a) s.members fields) :
    (s.codec blank).written r = .record s.schema.entity s.schema.layout fields :=
  WrittenValue.ext (funext fun f => by
    rw [← List.append_nil fields, ← encodeWith_eq h]
    rfl) rfl

theorem written_holding [Attachable R]
    (h : List.Forall₂ (fun m a => m.WritesField r a) s.members fields) :
    (s.holding blank).written r = .record s.schema.entity s.schema.layout fields :=
  WrittenValue.ext (funext fun f => by
    rw [← List.append_nil fields, ← encodeWith_eq h]
    rfl) rfl

/-- The fields of its hook are written after those of a record. -/
theorem written_extended {E : Type} [Hookable E] [Attachable E] {s : RecordShape E} {e blank : E}
    (h : List.Forall₂ (fun m a => m.WritesField e a) s.members fields) :
    (s.extended blank).written e =
      .record s.schema.entity s.schema.layout (fields ++ Slot.written (Hookable.slot e)) :=
  WrittenValue.ext (funext fun f => by
    rw [← encodeWith_eq h, ← Slot.puts_eq]
    rfl) rfl

end RecordShape

open Member (writesField_required writesField_optional writesField_defaulted writesField_embedded)

theorem TagIdentity.written_codec :
    (tagIdentityShape.codec default).written = TagIdentity.written :=
  funext fun _ => RecordShape.written_codec
    (.cons (writesField_required rfl) (.cons (writesField_optional rfl) .nil))

theorem LinkedTag.written_codec : (linkedTagShape.codec default).written = LinkedTag.written :=
  funext fun _ => RecordShape.written_codec
    (.cons (writesField_required rfl) (.cons (writesField_required rfl) .nil))

theorem EnvClass.written_codec : (envClassShape.codec default).written = EnvClass.written :=
  funext fun _ => RecordShape.written_codec
    (.cons (writesField_optional rfl) (.cons (writesField_optional rfl)
      (.cons (writesField_optional rfl) (.cons (writesField_optional rfl)
        (.cons (writesField_optional rfl) .nil)))))

theorem Environment.written_codec :
    (environmentShape.codec default).written = Environment.written :=
  funext fun _ => RecordShape.written_codec
    (.cons (writesField_optional EnvClass.written_codec) (.cons (writesField_optional rfl)
      (.cons (writesField_optional rfl) .nil)))

theorem KeyTriple.written_codec : (keyTripleShape.codec default).written = KeyTriple.written :=
  funext fun _ => RecordShape.written_codec
    (.cons (writesField_required (congrFun Environment.written_codec _))
      (.cons (writesField_required rfl) .nil))

theorem EntityOf.written_extended : FieldCodec.entity.written = EntityOf.written :=
  funext fun _ => RecordShape.written_extended
    (.cons (writesField_embedded (writesField_required rfl))
      (.cons (writesField_embedded (writesField_optional rfl))
        (.cons (writesField_required rfl) .nil)))

theorem CorimEntity.written_extended :
    (corimEntityShape.extended default).written = CorimEntity.written :=
  funext fun _ => RecordShape.written_extended
    (.cons (writesField_embedded (writesField_required rfl))
      (.cons (writesField_embedded (writesField_optional rfl))
        (.cons (writesField_required rfl) .nil)))

theorem FlagsMap.written_extended : (flagsShape.extended default).written = FlagsMap.written :=
  funext fun _ => RecordShape.written_extended
    (List.forall₂_map_left_iff.2 (List.forall₂_map_right_iff.2
      (List.forall₂_same.2 fun _ _ => writesField_optional rfl)))

/-- Measured values are written as their codec writes them. -/
theorem Mval.written_extended : (mvalShape.extended default).written = Mval.written :=
  funext fun _ => RecordShape.written_extended
    (.cons (writesField_defaulted rfl) (.cons (writesField_optional FlagsMap.written_extended)
      (.cons (writesField_optional rfl) (.cons (writesField_optional rfl)
        (.cons (writesField_optional rfl) (.cons (writesField_optional rfl)
          (.cons (writesField_optional rfl) .nil)))))))

theorem Measurement.written_holding :
    (measurementShape.holding default).written = Measurement.written :=
  funext fun _ => RecordShape.written_holding
    (.cons (writesField_optional rfl)
      (.cons (writesField_required (congrFun Mval.written_extended _))
        (.cons (writesField_defaulted rfl) .nil)))

theorem ValueTriple.written_holding :
    (valueTripleShape.holding default).written = ValueTriple.written :=
  funext fun _ => RecordShape.written_holding
    (.cons (writesField_required (congrFun Environment.written_codec _))
      (.cons (writesField_required (FieldCodec.written_list Measurement.written_holding _)) .nil))

theorem Triples.written_extended : (triplesShape.extended default).written = Triples.written :=
  funext fun _ => RecordShape.written_extended
    (.cons (writesField_defaulted (FieldCodec.written_list ValueTriple.written_holding _))
      (.cons (writesField_defaulted (FieldCodec.written_under
          (FieldCodec.written_list ValueTriple.written_holding _)))
        (.cons (writesField_defaulted (FieldCodec.written_list KeyTriple.written_codec _))
          (.cons (writesField_defaulted (FieldCodec.written_list KeyTriple.written_codec _))
            .nil))))

/-- Module identifiers are written as their codec writes them. -/
theorem Comid.written_extended : (comidShape.extended default).written = Comid.written :=
  funext fun _ => RecordShape.written_extended
    (.cons (writesField_optional rfl)
      (.cons (writesField_required (congrFun TagIdentity.written_codec _))
        (.cons (writesField_defaulted (FieldCodec.written_list EntityOf.written_extended _))
          (.cons (writesField_defaulted (FieldCodec.written_list LinkedTag.written_codec _))
            (.cons (writesField_required (congrFun Triples.written_extended _)) .nil)))))

/-- Manifests are written as their codec writes them. -/
theorem Corim.written_extended : (corimShape.extended default).written = Corim.written :=
  funext fun _ => RecordShape.written_extended
    (.cons (writesField_required rfl) (.cons (writesField_required rfl)
      (.cons (writesField_optional rfl)
        (.cons (writesField_defaulted (FieldCodec.written_list CorimEntity.written_extended _))
          .nil))))

end

end Rim
