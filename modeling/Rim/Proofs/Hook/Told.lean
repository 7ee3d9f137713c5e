import Rim.Proofs.Document.Choices
/-!
# Values of fields that are told

The text form of a value of a field tells what the value writes in the binary form too, but for
four sorts.  A text that is spelled like a UUID and the UUID itself have one text form as
identifiers of documents, but not one binary form.  A variant registered from outside may spell two
of its payloads alike, or bear the name of another variant.  The hook of a record that is a value of
a field leaves no mark of its type, so that fields under other keys, or of other types, may look the
same in the text form.  And so do two fields of one name.

## Main definitions

* `ValueType`: the types of values that fields of hooks hold.
* `HookTypes`: what the types of hooks declare.
* `WrittenValue.Told`, `Slot.Told`: values that are told by their text forms, and slots that hold
  such.

## Main results

* `Slot.told_written`: the fields of two slots are told if their values are.
* `WrittenValue.Told.textTells`: told values are written alike if their text forms agree.
-/

namespace Rim

/-! ## What hooks declare

A type of hooks declares its fields, so hooks of one type have the same fields. -/

/-- The types of values that fields of hooks hold.  The types of records that carry hooks, or hold
records that do, say of which types of hooks these are; triples say it of their reference values and
of their endorsed values. -/
inductive ValueType where
  | bool
  | unsigned (width : Width)
  | signed (width : Width)
  | string
  | bytes
  | uuid
  | tagId
  | ueid
  | taggedBytes
  | implId
  | coseKey
  | digest
  | role
  | corimRole
  | tagRel
  | choice (family : Family)
  | tagIdentity
  | linkedTag
  | envClass
  | environment
  | keyTriple
  | entity (hook : String)
  | corimEntity (hook : String)
  | flags (hook : String)
  | mval (hook flags : String)
  | measurement (hook flags : String)
  | valueTriple (hook flags : String)
  | triples (hook reference referenceFlags endorsed endorsedFlags : String)
  | list (item : ValueType)

/-- A field as a type of hooks declares it. -/
structure FieldDecl where
  spec : FieldSpec
  type : ValueType

/-- What the types of hooks declare.  No two fields of a hook share a name. -/
structure HookTypes where
  fields : String → List FieldDecl
  names : ∀ name, ((fields name).map (·.spec.name)).Nodup

/-- The fields of a type of hooks share no name with those of a type of records. -/
def HookTypes.Extends {R : Type} (types : HookTypes) (hook : String) (s : RecordShape R) : Prop :=
  (s.members.map (·.spec.name) ++ (types.fields hook).map (·.spec.name)).Nodup

/-- A slot whose hook, if there is one, has the fields of a type of hooks. -/
def Slot.Declares {B V : Type} (types : HookTypes) (hook : String) (s : Slot B V) : Prop :=
  ∀ h ∈ s, (Hook.cells h).map (·.shape.spec) = (types.fields hook).map (·.spec)

/-- A field of a slot's hook holds a value. -/
def Slot.Holds {B V : Type} (s : Slot B V) (spec : FieldSpec) (x : V) : Prop :=
  ∃ h ∈ s, ∃ c ∈ Hook.cells h, c.shape.spec = spec ∧ x ∈ c.value

/-! ## Values that are told -/

/-- An identifier that is not the text of a UUID in place of the UUID. -/
def TagId.IsTold (id : TagId) : Prop := ∀ u : Uuid, id ≠ .text u.toText

open TypeChoice (IsTold)

/-- A value of a type that its text form tells from all others of the type: an integer within the
bounds of its width, an identifier that is not the text of a UUID, a choice that is told by its text
form, and a record of such values, whose hooks declare the fields that the type says. -/
inductive WrittenValue.Told (types : HookTypes) (outside : ToldVariants) :
    ValueType → WrittenValue → Prop where
  | bool (b : Bool) : Told types outside .bool (FieldCodec.bool.written b)
  | unsigned {w : Width} {v : Int} (low : 0 ≤ v) (high : v ≤ Kind.unsignedHigh w) :
    Told types outside (.unsigned w) (.int v)
  | signed {w : Width} {v : Int} (low : Kind.signedLow w ≤ v) (high : v ≤ Kind.signedHigh w) :
    Told types outside (.signed w) (.int v)
  | string (s : String) : Told types outside .string (FieldCodec.string.written s)
  | bytes (b : List UInt8) : Told types outside .bytes (FieldCodec.bytes.written b)
  | uuid (u : Uuid) : Told types outside .uuid (FieldCodec.uuid.written u)
  | tagId {id : TagId} (h : id.IsTold) : Told types outside .tagId (FieldCodec.tagId.written id)
  | ueid (u : Ueid) : Told types outside .ueid (FieldCodec.ueid.written u)
  | taggedBytes (b : TaggedBytes) :
    Told types outside .taggedBytes (FieldCodec.taggedBytes.written b)
  | implId (i : ImplId) : Told types outside .implId (FieldCodec.implId.written i)
  | coseKey (k : CoseKey) : Told types outside .coseKey (FieldCodec.coseKey.written k)
  | digest (d : Digest) : Told types outside .digest (FieldCodec.digest.written d)
  | role (r : Role) : Told types outside .role ((FieldCodec.code Role).written r)
  | corimRole (r : CorimRole) :
    Told types outside .corimRole ((FieldCodec.code CorimRole).written r)
  | tagRel (r : TagRel) : Told types outside .tagRel ((FieldCodec.code TagRel).written r)
  | choice {family : Family} {x : family.Value} (h : IsTold outside x) :
    Told types outside (.choice family) ((FieldCodec.choice family).written x)
  | tagIdentity {t : TagIdentity} (h : t.tagId.IsTold) : Told types outside .tagIdentity t.written
  | linkedTag {t : LinkedTag} (h : t.target.IsTold) : Told types outside .linkedTag t.written
  | envClass {c : EnvClass} (h : c.EveryChoice (IsTold outside)) :
    Told types outside .envClass c.written
  | environment {e : Environment} (h : e.EveryChoice (IsTold outside)) :
    Told types outside .environment e.written
  | keyTriple {t : KeyTriple} (h : t.EveryChoice (IsTold outside)) :
    Told types outside .keyTriple t.written
  | entity {hook : String} {e : EntityOf WrittenValue} (names : types.Extends hook entityShape)
    (declares : Slot.Declares types hook e.hook)
    (values : ∀ d ∈ types.fields hook, ∀ x, Slot.Holds e.hook d.spec x →
      Told types outside d.type x) :
    Told types outside (.entity hook) e.written
  | corimEntity {hook : String} {e : CorimEntity WrittenValue}
    (names : types.Extends hook corimEntityShape) (declares : Slot.Declares types hook e.hook)
    (values : ∀ d ∈ types.fields hook, ∀ x, Slot.Holds e.hook d.spec x →
      Told types outside d.type x) :
    Told types outside (.corimEntity hook) e.written
  | flags {hook : String} {m : FlagsMap WrittenValue} (names : types.Extends hook flagsShape)
    (declares : Slot.Declares types hook m.hook)
    (values : ∀ d ∈ types.fields hook, ∀ x, Slot.Holds m.hook d.spec x →
      Told types outside d.type x) :
    Told types outside (.flags hook) m.written
  | mval {hook flags : String} {v : Mval WrittenValue} (names : types.Extends hook mvalShape)
    (declares : Slot.Declares types hook v.hook)
    (maps : ∀ m ∈ v.flags, Told types outside (.flags flags) m.written)
    (values : ∀ d ∈ types.fields hook, ∀ x, Slot.Holds v.hook d.spec x →
      Told types outside d.type x) :
    Told types outside (.mval hook flags) v.written
  | measurement {hook flags : String} {m : Measurement WrittenValue}
    (choices : m.EveryChoice (IsTold outside))
    (value : Told types outside (.mval hook flags) m.value.written) :
    Told types outside (.measurement hook flags) m.written
  | valueTriple {hook flags : String} {t : ValueTriple WrittenValue}
    (choices : t.environment.EveryChoice (IsTold outside))
    (measurements : ∀ m ∈ t.measurements, Told types outside (.measurement hook flags) m.written) :
    Told types outside (.valueTriple hook flags) t.written
  | triples {hook reference referenceFlags endorsed endorsedFlags : String}
    {t : Triples WrittenValue} (names : types.Extends hook triplesShape)
    (declares : Slot.Declares types hook t.hook)
    (references : ∀ v ∈ t.referenceValues,
      Told types outside (.valueTriple reference referenceFlags) v.written)
    (endorsements : ∀ v ∈ t.endorsedValues,
      Told types outside (.valueTriple endorsed endorsedFlags) v.written)
    (identityKeys : ∀ k ∈ t.devIdentityKeys, k.EveryChoice (IsTold outside))
    (verificationKeys : ∀ k ∈ t.attesterVerificationKeys, k.EveryChoice (IsTold outside))
    (values : ∀ d ∈ types.fields hook, ∀ x, Slot.Holds t.hook d.spec x →
      Told types outside d.type x) :
    Told types outside (.triples hook reference referenceFlags endorsed endorsedFlags) t.written
  | list {type : ValueType} {items : List WrittenValue}
    (h : ∀ x ∈ items, Told types outside type x) :
    Told types outside (.list type) (.list items)

variable {types : HookTypes} {outside : ToldVariants}

/-! ## Fields of hooks -/

section

variable {B V : Type} [HookValue V] {decls : List FieldDecl} {hook : String}

/-- The fields of the hook in a slot; without a hook those of some declarations, without values. -/
def Slot.writtenOr (decls : List FieldDecl) (s : Slot B V) : List WrittenField :=
  match s with
  | some h => (Hook.cells h).map Cell.written
  | none => decls.map fun d => ⟨d.spec, none⟩

/-- A slot without a hook is written as one whose hook holds no values. -/
theorem Slot.filterMap_writtenOr (decls : List FieldDecl) (s : Slot B V) (f : Format) :
    (s.writtenOr decls).filterMap (WrittenField.put? f) =
      (Slot.written s).filterMap (WrittenField.put? f) := by
  cases s with
  | some h => rfl
  | none =>
    rw [writtenOr, List.filterMap_map]
    exact List.filterMap_eq_nil_iff.2 fun d _ => rfl

/-- The fields of a slot are those that its type declares. -/
theorem Slot.map_spec_writtenOr {s : Slot B V} (h : s.Declares types hook) :
    (s.writtenOr (types.fields hook)).map (·.spec) = (types.fields hook).map (·.spec) := by
  cases s with
  | some g =>
    rw [writtenOr, List.map_map]
    exact h g rfl
  | none =>
    rw [writtenOr, List.map_map]
    rfl

/-- What is written of a slot is held by its hook. -/
theorem Slot.holds_of_mem_writtenOr {s : Slot B V} {a : WrittenField} (ha : a ∈ s.writtenOr decls)
    {x : WrittenValue} (hx : x ∈ a.value) : ∃ y, s.Holds a.spec y ∧ x = HookValue.written y := by
  cases s with
  | some h =>
    obtain ⟨c, hc, rfl⟩ := List.mem_map.1 ha
    obtain ⟨y, hy, rfl⟩ := Option.map_eq_some_iff.1 (Option.filter_eq_some_iff.1 hx).1
    exact ⟨y, ⟨h, rfl, c, hc, rfl, hy⟩, rfl⟩
  | none =>
    obtain ⟨d, -, rfl⟩ := List.mem_map.1 ha
    cases hx

/-- Fields under the same keys and names are told one by one. -/
theorem WrittenField.forall₂_told {as bs : List WrittenField}
    (hspecs : as.map (·.spec) = bs.map (·.spec))
    (h : ∀ a ∈ as, ∀ b ∈ bs, a.spec = b.spec → ∀ x ∈ a.value, ∀ y ∈ b.value, x.TextTells y) :
    List.Forall₂ Told as bs := by
  induction as generalizing bs with
  | nil =>
    rw [List.map_eq_nil_iff.1 hspecs.symm]
    exact .nil
  | cons a as ih =>
    obtain ⟨b, bs, rfl, hspec, hrest⟩ := List.map_eq_cons_iff.1 hspecs.symm
    refine .cons ⟨hspec.symm, h a List.mem_cons_self b List.mem_cons_self hspec.symm⟩ ?_
    exact ih hrest.symm fun a ha b hb =>
      h a (List.mem_cons_of_mem _ ha) b (List.mem_cons_of_mem _ hb)

/-- The fields of two slots that hooks of one type declare are told if their values are. -/
theorem Slot.told_written {s s' : Slot B V} (hs : s.Declares types hook)
    (hs' : s'.Declares types hook)
    (hvalues : ∀ d ∈ types.fields hook, ∀ x, s.Holds d.spec x → ∀ y, s'.Holds d.spec y →
      (HookValue.written x).TextTells (HookValue.written y)) :
    List.Forall₂ WrittenField.Told (s.writtenOr (types.fields hook))
      (s'.writtenOr (types.fields hook)) := by
  have hspecs := map_spec_writtenOr hs
  refine WrittenField.forall₂_told (hspecs.trans (map_spec_writtenOr hs').symm) ?_
  intro a ha b hb hab x hx y hy
  obtain ⟨u, hu, rfl⟩ := holds_of_mem_writtenOr ha hx
  obtain ⟨v, hv, rfl⟩ := holds_of_mem_writtenOr hb hy
  have hmem : a.spec ∈ (types.fields hook).map (·.spec) := hspecs ▸ List.mem_map_of_mem ha
  obtain ⟨d, hd, hspec⟩ := List.mem_map.1 hmem
  exact hvalues d hd u (hspec ▸ hu) v (hspec ▸ hab ▸ hv)

/-- Records that carry hooks of one type are told if their own fields and those of the hooks are. -/
theorem WrittenValue.textTells_hooked {R : Type} {s : RecordShape R} {as bs : List WrittenField}
    (hown : List.Forall₂ WrittenField.Told as bs)
    (hnames : as.map (·.spec.name) = s.members.map (·.spec.name)) (hextends : types.Extends hook s)
    {slot slot' : Slot B V} (hs : slot.Declares types hook) (hs' : slot'.Declares types hook)
    (hvalues : ∀ d ∈ types.fields hook, ∀ x, slot.Holds d.spec x → ∀ y, slot'.Holds d.spec y →
      (HookValue.written x).TextTells (HookValue.written y)) (entity : String) (layout : Layout) :
    (record entity layout (as ++ Slot.written slot)).TextTells
      (record entity layout (bs ++ Slot.written slot')) := by
  have hrecord : ∀ {B V : Type} [HookValue V] (fields : List WrittenField) (slot : Slot B V),
      record entity layout (fields ++ Slot.written slot) =
        record entity layout (fields ++ slot.writtenOr (types.fields hook)) := by
    intro B V _ fields slot
    refine record_congr fun f => ?_
    rw [List.filterMap_append, List.filterMap_append, Slot.filterMap_writtenOr]
  rw [hrecord, hrecord]
  refine textTells_record (List.rel_append hown (Slot.told_written hs hs' hvalues)) ?_ _ _
  have hspecs := congrArg (List.map FieldSpec.name) (Slot.map_spec_writtenOr hs)
  rw [List.map_map, List.map_map] at hspecs
  rw [List.map_append, hnames]
  exact hspecs ▸ hextends

end

/-! ## Records

Each field of a record is told by what it holds, and found by its name. -/

open WrittenValue (textTells_record textTells_hooked)
open WrittenField (told_map told_of_some)
open FieldCodec (textTells_bool textTells_uint64 textTells_string textTells_bytes textTells_ueid
  textTells_uuid textTells_digest textTells_code)

/-- An identifier is told by its text unless this is that of a UUID, though it is held as text. -/
theorem TagId.textTells {id id' : TagId} (h : id.IsTold) (h' : id'.IsTold) :
    (FieldCodec.tagId.written id).TextTells (FieldCodec.tagId.written id') := by
  intro x y hx hy hagree
  have hjson : ∀ id : TagId, FieldCodec.tagId.encode .json id = .ok (Json.string id.toText) :=
    fun id => by cases id <;> rfl
  obtain rfl := Except.ok.inj ((hjson id).symm.trans hx)
  obtain rfl := Except.ok.inj ((hjson id').symm.trans hy)
  have htext : id.toText = id'.toText := hagree.string_inj
  suffices hsame : id = id' by rw [hsame]
  cases id with
  | text s =>
    cases id' with
    | text t => exact congrArg text htext
    | uuid u => exact absurd (congrArg text htext) (h u)
  | uuid u =>
    cases id' with
    | text t => exact absurd (congrArg text htext.symm) (h' u)
    | uuid u' => exact congrArg uuid (Uuid.toText_inj htext)

/-- The identity of a tag is told by its text form if its identifier is. -/
theorem TagIdentity.textTells {t t' : TagIdentity} (h : t.tagId.IsTold) (h' : t'.tagId.IsTold) :
    t.written.TextTells t'.written :=
  textTells_record
    (.cons (told_of_some _ (TagId.textTells h h'))
      (.cons (told_map _ fun x _ y _ => textTells_uint64 x y) .nil))
    (show (tagIdentityShape.members.map (·.spec.name)).Nodup by decide) _ _

theorem LinkedTag.textTells {t t' : LinkedTag} (h : t.target.IsTold) (h' : t'.target.IsTold) :
    t.written.TextTells t'.written :=
  textTells_record
    (.cons (told_of_some _ (TagId.textTells h h'))
      (.cons (told_of_some _ (textTells_code t.rel t'.rel)) .nil))
    (show (linkedTagShape.members.map (·.spec.name)).Nodup by decide) _ _

/-- A class is told by its text form if its identifier is. -/
theorem EnvClass.textTells {c c' : EnvClass} (h : c.EveryChoice (IsTold outside))
    (h' : c'.EveryChoice (IsTold outside)) : c.written.TextTells c'.written :=
  textTells_record
    (.cons (told_map _ fun x hx y hy => Family.textTells_choice (h x hx) (h' y hy))
      (.cons (told_map _ fun x _ y _ => textTells_string x y)
        (.cons (told_map _ fun x _ y _ => textTells_string x y)
          (.cons (told_map _ fun x _ y _ => textTells_uint64 x y)
            (.cons (told_map _ fun x _ y _ => textTells_uint64 x y) .nil)))))
    (show (envClassShape.members.map (·.spec.name)).Nodup by decide) _ _

/-- An environment is told by its text form if its choices are. -/
theorem Environment.textTells {e e' : Environment} (h : e.EveryChoice (IsTold outside))
    (h' : e'.EveryChoice (IsTold outside)) : e.written.TextTells e'.written :=
  textTells_record
    (.cons (told_map _ fun c hc c' hc' => EnvClass.textTells (h.1 c hc) (h'.1 c' hc'))
      (.cons (told_map _ fun x hx y hy => Family.textTells_choice (h.2.1 x hx) (h'.2.1 y hy))
        (.cons (told_map _ fun x hx y hy => Family.textTells_choice (h.2.2 x hx) (h'.2.2 y hy))
          .nil)))
    (show (environmentShape.members.map (·.spec.name)).Nodup by decide) _ _

theorem KeyTriple.textTells {t t' : KeyTriple} (h : t.EveryChoice (IsTold outside))
    (h' : t'.EveryChoice (IsTold outside)) : t.written.TextTells t'.written :=
  textTells_record
    (.cons (told_of_some _ (Environment.textTells h.1 h'.1))
      (.cons (told_of_some _ (FieldCodec.textTells_list fun x hx y hy =>
        Family.textTells_choice (h.2 x hx) (h'.2 y hy))) .nil))
    (show (keyTripleShape.members.map (·.spec.name)).Nodup by decide) _ _

theorem EntityBody.told (e e' : EntityBody) :
    List.Forall₂ WrittenField.Told e.written e'.written :=
  .cons (told_of_some _ (textTells_string _ _))
    (.cons (told_map _ fun x _ y _ => textTells_string x y)
      (.cons (told_of_some _ (FieldCodec.textTells_list fun x _ y _ => textTells_code x y)) .nil))

theorem CorimEntityBody.told (e e' : CorimEntityBody) :
    List.Forall₂ WrittenField.Told e.written e'.written :=
  .cons (told_of_some _ (textTells_string _ _))
    (.cons (told_map _ fun x _ y _ => textTells_string x y)
      (.cons (told_of_some _ (FieldCodec.textTells_list fun x _ y _ => textTells_code x y)) .nil))

theorem FlagsBody.told (b b' : FlagsBody) :
    List.Forall₂ WrittenField.Told b.written b'.written :=
  List.forall₂_map_left_iff.2 (List.forall₂_map_right_iff.2 (List.forall₂_same.2
    fun _ _ => told_map _ fun x _ y _ => textTells_bool x y))

section

variable {V : Type} [HookValue V]

/-- The own fields of measured values are told if their flags are. -/
theorem MvalBody.told {b b' : MvalBody V}
    (hflags : ∀ m ∈ b.flags, ∀ m' ∈ b'.flags, m.written.TextTells m'.written) :
    List.Forall₂ WrittenField.Told b.written b'.written :=
  .cons (told_of_some _ (FieldCodec.textTells_list fun x _ y _ => textTells_digest x y))
    (.cons (told_map _ hflags)
      (.cons (told_map _ fun x _ y _ => textTells_bytes x y)
        (.cons (told_map _ fun x _ y _ => textTells_string x y)
          (.cons (told_map _ fun x _ y _ => textTells_ueid x y)
            (.cons (told_map _ fun x _ y _ => textTells_uuid x y)
              (.cons (told_map _ fun x _ y _ => textTells_string x y) .nil))))))

/-- Lists of records are told if the records are. -/
theorem WrittenField.told_list {α : Type} {one : α → WrittenValue} (spec : FieldSpec)
    {as bs : List α} (h : ∀ a ∈ as, ∀ b ∈ bs, (one a).TextTells (one b)) :
    Told (of spec (some (.list (as.map one)))) (of spec (some (.list (bs.map one)))) :=
  told_of_some spec (WrittenValue.textTells_list fun x hx y hy => by
    obtain ⟨a, ha, rfl⟩ := List.mem_map.1 hx
    obtain ⟨b, hb, rfl⟩ := List.mem_map.1 hy
    exact h a ha b hb)

/-- A measurement is told if its choices and its values are. -/
theorem Measurement.textTells {m m' : Measurement V} (h : m.EveryChoice (IsTold outside))
    (h' : m'.EveryChoice (IsTold outside)) (hvalue : m.value.written.TextTells m'.value.written) :
    m.written.TextTells m'.written :=
  textTells_record
    (.cons (told_map _ fun x hx y hy => Family.textTells_choice (h.1 x hx) (h'.1 y hy))
      (.cons (told_of_some _ hvalue)
        (.cons (told_of_some _ (FieldCodec.textTells_list fun x hx y hy =>
          Family.textTells_choice (h.2 x hx) (h'.2 y hy))) .nil)))
    (show (measurementShape.members.map (·.spec.name)).Nodup by decide) _ _

/-- A triple of values is told if its environment and its measurements are. -/
theorem ValueTriple.textTells {t t' : ValueTriple V}
    (h : t.environment.EveryChoice (IsTold outside))
    (h' : t'.environment.EveryChoice (IsTold outside))
    (hmeasurements : ∀ m ∈ t.measurements, ∀ m' ∈ t'.measurements,
      m.written.TextTells m'.written) : t.written.TextTells t'.written :=
  textTells_record
    (.cons (told_of_some _ (Environment.textTells h h'))
      (.cons (WrittenField.told_list _ hmeasurements) .nil))
    (show (valueTripleShape.members.map (·.spec.name)).Nodup by decide) _ _

end

/-- Two told values of a type are written alike in both forms if their text forms agree. -/
theorem WrittenValue.Told.textTells {type : ValueType} {x y : WrittenValue}
    (hx : Told types outside type x) (hy : Told types outside type y) : x.TextTells y := by
  induction hx generalizing y with
  | bool b =>
    cases hy with
    | bool b' => exact textTells_bool b b'
  | @unsigned w v _ _ =>
    cases hy with
    | unsigned _ _ => exact WrittenValue.textTells_int _ _
  | @signed w v _ _ =>
    cases hy with
    | signed _ _ => exact WrittenValue.textTells_int _ _
  | string s =>
    cases hy with
    | string s' => exact textTells_string s s'
  | bytes b =>
    cases hy with
    | bytes b' => exact textTells_bytes b b'
  | uuid u =>
    cases hy with
    | uuid u' => exact textTells_uuid u u'
  | tagId h =>
    cases hy with
    | tagId h' => exact TagId.textTells h h'
  | ueid u =>
    cases hy with
    | ueid u' => exact textTells_ueid u u'
  | taggedBytes b =>
    cases hy with
    | taggedBytes b' => exact FieldCodec.textTells_byteString (fun _ => rfl) b b'
  | implId i =>
    cases hy with
    | implId i' => exact FieldCodec.textTells_byteString (fun _ => rfl) i i'
  | coseKey k =>
    cases hy with
    | coseKey k' => exact FieldCodec.textTells_byteString (fun _ => rfl) k k'
  | digest d =>
    cases hy with
    | digest d' => exact textTells_digest d d'
  | role r =>
    cases hy with
    | role r' => exact textTells_code r r'
  | corimRole r =>
    cases hy with
    | corimRole r' => exact textTells_code r r'
  | tagRel r =>
    cases hy with
    | tagRel r' => exact textTells_code r r'
  | choice h =>
    cases hy with
    | choice h' => exact Family.textTells_choice h h'
  | tagIdentity h =>
    cases hy with
    | tagIdentity h' => exact TagIdentity.textTells h h'
  | linkedTag h =>
    cases hy with
    | linkedTag h' => exact LinkedTag.textTells h h'
  | envClass h =>
    cases hy with
    | envClass h' => exact EnvClass.textTells h h'
  | environment h =>
    cases hy with
    | environment h' => exact Environment.textTells h h'
  | keyTriple h =>
    cases hy with
    | keyTriple h' => exact KeyTriple.textTells h h'
  | entity names declares _ ih =>
    cases hy with
    | entity _ declares' values' =>
      exact textTells_hooked (EntityBody.told _ _) rfl names declares declares'
        (fun d hd x hx y hy => ih d hd x hx (values' d hd y hy)) _ _
  | corimEntity names declares _ ih =>
    cases hy with
    | corimEntity _ declares' values' =>
      exact textTells_hooked (CorimEntityBody.told _ _) rfl names declares declares'
        (fun d hd x hx y hy => ih d hd x hx (values' d hd y hy)) _ _
  | flags names declares _ ih =>
    cases hy with
    | flags _ declares' values' =>
      exact textTells_hooked (FlagsBody.told _ _) rfl names declares declares'
        (fun d hd x hx y hy => ih d hd x hx (values' d hd y hy)) _ _
  | mval names declares _ _ ihmaps ih =>
    cases hy with
    | mval _ declares' maps' values' =>
      exact textTells_hooked
        (MvalBody.told fun m hm m' hm' => ihmaps m hm (maps' m' hm')) rfl names declares declares'
        (fun d hd x hx y hy => ih d hd x hx (values' d hd y hy)) _ _
  | measurement choices _ ih =>
    cases hy with
    | measurement choices' value' => exact Measurement.textTells choices choices' (ih value')
  | valueTriple choices _ ih =>
    cases hy with
    | valueTriple choices' measurements' =>
      exact ValueTriple.textTells choices choices' fun m hm m' hm' => ih m hm (measurements' m' hm')
  | triples names declares _ _ identityKeys verificationKeys _ ihreferences ihendorsements ih =>
    cases hy with
    | triples _ declares' references' endorsements' identityKeys' verificationKeys' values' =>
      have hown := List.Forall₂.cons
        (WrittenField.told_list (.optional "reference-values" 0) fun v hv v' hv' =>
          ihreferences v hv (references' v' hv'))
        (.cons (WrittenField.told_list (.optional "endorsed-values" 1) fun v hv v' hv' =>
            ihendorsements v hv (endorsements' v' hv'))
          (.cons (WrittenField.told_list (.optional "dev-identity-keys" 2) fun k hk k' hk' =>
              KeyTriple.textTells (identityKeys k hk) (identityKeys' k' hk'))
            (.cons (WrittenField.told_list (.optional "attester-verification-keys" 3)
                fun k hk k' hk' =>
                  KeyTriple.textTells (verificationKeys k hk) (verificationKeys' k' hk')) .nil)))
      exact textTells_hooked hown rfl names declares declares'
        (fun d hd x hx y hy => ih d hd x hx (values' d hd y hy)) _ _
  | list _ ih =>
    cases hy with
    | list h' => exact WrittenValue.textTells_list fun x hx y hy => ih x hx (h' y hy)

/-! ## Slots -/

/-- A slot whose hook has the fields of its type, with values that are told. -/
structure Slot.Told (types : HookTypes) (outside : ToldVariants) {B V : Type} [HookValue V]
    (s : Slot B V) : Prop where
  declares : ∀ h ∈ s, s.Declares types h.typeName
  values : ∀ h ∈ s, ∀ d ∈ types.fields h.typeName, ∀ x, s.Holds d.spec x →
    WrittenValue.Told types outside d.type (HookValue.written x)

theorem Slot.told_none {B V : Type} [HookValue V] : Slot.Told types outside (none : Slot B V) :=
  ⟨nofun, nofun⟩

/-- A field of a hook as its type declares it, with a value that is told if it has one. -/
structure Cell.Told (types : HookTypes) (outside : ToldVariants) {V : Type} [HookValue V]
    (c : Cell V) (d : FieldDecl) : Prop where
  spec : c.shape.spec = d.spec
  values : ∀ x ∈ c.value, WrittenValue.Told types outside d.type (HookValue.written x)

/-- A field of a hook is one that its type declares. -/
theorem Cell.exists_told {V : Type} [HookValue V] {cells : List (Cell V)} {decls : List FieldDecl}
    (h : List.Forall₂ (Cell.Told types outside) cells decls) {c : Cell V} (hc : c ∈ cells) :
    ∃ d ∈ decls, c.Told types outside d := by
  induction h with
  | nil => cases hc
  | cons hfirst _ ih =>
    rcases List.mem_cons.1 hc with rfl | hc
    · exact ⟨_, List.mem_cons_self, hfirst⟩
    · obtain ⟨d, hd, hcd⟩ := ih hc
      exact ⟨d, List.mem_cons_of_mem _ hd, hcd⟩

/-- A slot is told if the fields of its hook are, each as it is declared. -/
theorem Slot.told_some {B V : Type} [HookValue V] {g : Hook B V}
    (h : List.Forall₂ (Cell.Told types outside) (Hook.cells g) (types.fields g.typeName)) :
    Slot.Told types outside (some g) where
  declares g' hg' g'' hg'' := by
    obtain rfl := Option.some.inj hg'
    obtain rfl := Option.some.inj hg''
    rw [← List.forall₂_eq_eq_eq, List.forall₂_map_left_iff, List.forall₂_map_right_iff]
    exact h.imp fun _ _ hcd => hcd.spec
  values g' hg' d hd x hx := by
    obtain rfl := Option.some.inj hg'
    obtain ⟨g'', hg'', c, hc, hspec, hvalue⟩ := hx
    obtain rfl := Option.some.inj hg''
    obtain ⟨d', hd', hcd⟩ := Cell.exists_told h hc
    have hname : d'.spec.name = d.spec.name := by rw [← hcd.spec, hspec]
    obtain rfl := List.inj_on_of_nodup_map (types.names _) hd' hd hname
    exact hcd.values x hvalue

end Rim
