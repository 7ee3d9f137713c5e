import Rim.Proofs.Document.Choices
import Rim.Proofs.Hook.Agreement
/-!
# Documents that are equal

Documents are equal when their own fields and their slots are, part by part.  Own variants of type
choices that are equal are the same, and slots with told values that agree write the same.  So equal
documents of such are written alike in both forms, whatever the types of values that their hooks
hold.

## Main definitions

* `Comid.Told`, `Corim.Told`: documents all of whose slots hold told values, and each of their
  records by the same name.

## Main results

* `Comid.written_eq`, `Corim.written_eq`: equal documents are written alike.
* `HookTypes.agreement_sound`: equality of slots and documents.
-/

namespace Rim

open WrittenValue (record)
open TypeChoice (IsAmong)

variable {types : HookTypes} {told : ToldVariants} {outside : OutsideVariants}
variable {V : Type} [HookValue V]

/-! ## Records with slots

Records that are equal, with told values in their slots, are written alike. -/

/-- Records are written alike if their own fields are, and if their slots agree. -/
theorem Slot.record_eq_of_agrees {B : Type} {a b : Slot B V} (ha : a.Told types told)
    (hb : b.Told types told) (hagree : a.agrees b = true) {fields fields' : List WrittenField}
    (hfields : fields = fields') (entity : String) (layout : Layout) :
    record entity layout (fields ++ Slot.written a) =
      record entity layout (fields' ++ Slot.written b) := by
  subst hfields
  refine WrittenValue.record_congr fun f => ?_
  rw [List.filterMap_append, List.filterMap_append, ← puts_eq, ← puts_eq,
    puts_eq_of_agrees ha hb hagree f]

/-- Equal flags are written alike. -/
theorem FlagsMap.written_eq {m m' : FlagsMap V} (hm : m.hook.Told types told)
    (hm' : m'.hook.Told types told) (h : (m == m') = true) : m.written = m'.written := by
  obtain ⟨hbody, hslot⟩ := Bool.and_eq_true_iff.1 h
  exact Slot.record_eq_of_agrees hm hm' hslot
    (congrArg FlagsBody.written (LawfulBEq.eq_of_beq hbody)) _ _

/-- Equal entities are written alike. -/
theorem EntityOf.written_eq {e e' : EntityOf V} (he : Slot.Told types told e.hook)
    (he' : Slot.Told types told e'.hook) (h : (e == e') = true) : e.written = e'.written := by
  obtain ⟨hbody, hslot⟩ := Bool.and_eq_true_iff.1 h
  exact Slot.record_eq_of_agrees he he' hslot
    (congrArg EntityBody.written (LawfulBEq.eq_of_beq hbody)) _ _

theorem CorimEntity.written_eq {e e' : CorimEntity V} (he : e.hook.Told types told)
    (he' : e'.hook.Told types told) (h : (e == e') = true) : e.written = e'.written := by
  obtain ⟨hbody, hslot⟩ := Bool.and_eq_true_iff.1 h
  exact Slot.record_eq_of_agrees he he' hslot
    (congrArg CorimEntityBody.written (LawfulBEq.eq_of_beq hbody)) _ _

/-- The slots of measured values and of their flags hold told values. -/
structure Mval.Told (types : HookTypes) (told : ToldVariants) (v : Mval V) : Prop where
  own : v.hook.Told types told
  flags : ∀ m ∈ v.flags, m.hook.Told types told

theorem Mval.written_eq {v v' : Mval V} (hv : v.Told types told) (hv' : v'.Told types told)
    (h : (v == v') = true) : v.written = v'.written := by
  obtain ⟨hbody, hslot⟩ := Bool.and_eq_true_iff.1 h
  refine Slot.record_eq_of_agrees hv.own hv'.own hslot ?_ _ _
  obtain ⟨⟨digests, flags, rawValue, serialNumber, ueid, uuid, name⟩, hook⟩ := v
  obtain ⟨⟨digests', flags', rawValue', serialNumber', ueid', uuid', name'⟩, hook'⟩ := v'
  change (digests == digests' && (flags == flags' && (rawValue == rawValue' &&
    (serialNumber == serialNumber' && (ueid == ueid' && (uuid == uuid' &&
      name == name')))))) = true at hbody
  simp only [Bool.and_eq_true, beq_iff_eq] at hbody
  obtain ⟨rfl, hflags, rfl, rfl, rfl, rfl, rfl⟩ := hbody
  have hmaps : flags.map FlagsMap.written = flags'.map FlagsMap.written :=
    map_eq_of_beq_option
      (fun m hm m' hm' => FlagsMap.written_eq (hv.flags m hm) (hv'.flags m' hm')) hflags
  rw [MvalBody.written, MvalBody.written, hmaps]

theorem Measurement.written_eq {m m' : Measurement V}
    (hown : m.EveryChoice (IsAmong outside.holds)) (hown' : m'.EveryChoice (IsAmong outside.holds))
    (hm : m.value.Told types told) (hm' : m'.value.Told types told) (h : (m == m') = true) :
    m.written = m'.written := by
  obtain ⟨key, value, authorizedBy⟩ := m
  obtain ⟨key', value', authorizedBy'⟩ := m'
  obtain ⟨hkey, h⟩ := Bool.and_eq_true_iff.1 h
  obtain ⟨hvalue, hkeys⟩ := Bool.and_eq_true_iff.1 h
  obtain rfl := TypeChoice.eq_of_beq_option hown.1 hown'.1 hkey
  obtain rfl := TypeChoice.eq_of_beq_list hown.2 hown'.2 hkeys
  rw [Measurement.written, Measurement.written, Mval.written_eq hm hm' hvalue]

/-- The slots among the measured values of a triple hold told values. -/
def ValueTriple.Told (types : HookTypes) (told : ToldVariants) (t : ValueTriple V) : Prop :=
  ∀ m ∈ t.measurements, m.value.Told types told

theorem ValueTriple.written_eq {t t' : ValueTriple V}
    (hown : t.EveryChoice (IsAmong outside.holds)) (hown' : t'.EveryChoice (IsAmong outside.holds))
    (ht : t.Told types told) (ht' : t'.Told types told) (h : (t == t') = true) :
    t.written = t'.written := by
  obtain ⟨environment, measurements⟩ := t
  obtain ⟨environment', measurements'⟩ := t'
  obtain ⟨henvironment, hmeasurements⟩ := Bool.and_eq_true_iff.1 h
  obtain rfl := Environment.eq_of_beq hown.1 hown'.1 henvironment
  have hlist : measurements.map Measurement.written = measurements'.map Measurement.written :=
    map_eq_of_beq (fun m hm m' hm' =>
      Measurement.written_eq (hown.2 m hm) (hown'.2 m' hm') (ht m hm) (ht' m' hm')) hmeasurements
  rw [ValueTriple.written, ValueTriple.written, hlist]

/-- All slots of triples hold told values. -/
structure Triples.Told (types : HookTypes) (told : ToldVariants) (t : Triples V) : Prop where
  own : t.hook.Told types told
  reference : ∀ v ∈ t.referenceValues, v.Told types told
  endorsed : ∀ v ∈ t.endorsedValues, v.Told types told

theorem Triples.written_eq {t t' : Triples V} (hown : t.EveryChoice (IsAmong outside.holds))
    (hown' : t'.EveryChoice (IsAmong outside.holds)) (ht : t.Told types told)
    (ht' : t'.Told types told) (h : (t == t') = true) : t.written = t'.written := by
  obtain ⟨hbody, hslot⟩ := Bool.and_eq_true_iff.1 h
  refine Slot.record_eq_of_agrees ht.own ht'.own hslot ?_ _ _
  obtain ⟨⟨references, endorsed, identityKeys, verificationKeys⟩, hook⟩ := t
  obtain ⟨⟨references', endorsed', identityKeys', verificationKeys'⟩, hook'⟩ := t'
  change (references == references' && (endorsed == endorsed' &&
    (identityKeys == identityKeys' && verificationKeys == verificationKeys'))) = true at hbody
  simp only [Bool.and_eq_true] at hbody
  obtain ⟨h₁, h₂, h₃, h₄⟩ := hbody
  obtain ⟨hown₁, hown₂, hown₃, hown₄⟩ := hown
  obtain ⟨hown₁', hown₂', hown₃', hown₄'⟩ := hown'
  obtain rfl : identityKeys = identityKeys' := eq_of_beq_list
    (fun k hk k' hk' => KeyTriple.eq_of_beq (hown₃ k hk) (hown₃' k' hk')) h₃
  obtain rfl : verificationKeys = verificationKeys' := eq_of_beq_list
    (fun k hk k' hk' => KeyTriple.eq_of_beq (hown₄ k hk) (hown₄' k' hk')) h₄
  have hreferences : references.map ValueTriple.written = references'.map ValueTriple.written :=
    map_eq_of_beq (fun v hv v' hv' => ValueTriple.written_eq (hown₁ v hv) (hown₁' v' hv')
      (ht.reference v hv) (ht'.reference v' hv')) h₁
  have hendorsed : endorsed.map ValueTriple.written = endorsed'.map ValueTriple.written :=
    map_eq_of_beq (fun v hv v' hv' => ValueTriple.written_eq (hown₂ v hv) (hown₂' v' hv')
      (ht.endorsed v hv) (ht'.endorsed v' hv')) h₂
  rw [TriplesBody.written, TriplesBody.written, hreferences, hendorsed]

/-- All slots of a module identifier hold told values. -/
structure Comid.Told (types : HookTypes) (told : ToldVariants) (d : Comid V) : Prop where
  own : d.hook.Told types told
  entities : ∀ e ∈ d.entities, Slot.Told types told e.hook
  triples : d.triples.Told types told

/-- All slots of a manifest hold told values. -/
structure Corim.Told (types : HookTypes) (told : ToldVariants) (d : Corim V) : Prop where
  own : d.hook.Told types told
  entities : ∀ e ∈ d.entities, e.hook.Told types told

/-- Equal module identifiers are written alike. -/
theorem Comid.written_eq {d d' : Comid V} (hown : d.EveryChoice (IsAmong outside.holds))
    (hown' : d'.EveryChoice (IsAmong outside.holds)) (hd : d.Told types told)
    (hd' : d'.Told types told) (h : (d == d') = true) : d.written = d'.written := by
  obtain ⟨hbody, hslot⟩ := Bool.and_eq_true_iff.1 h
  refine Slot.record_eq_of_agrees hd.own hd'.own hslot ?_ _ _
  obtain ⟨⟨language, tagIdentity, entities, linkedTags, triples⟩, hook⟩ := d
  obtain ⟨⟨language', tagIdentity', entities', linkedTags', triples'⟩, hook'⟩ := d'
  change (language == language' && (tagIdentity == tagIdentity' && (entities == entities' &&
    (linkedTags == linkedTags' && triples == triples')))) = true at hbody
  simp only [Bool.and_eq_true] at hbody
  obtain ⟨h₁, h₂, h₃, h₄, h₅⟩ := hbody
  obtain rfl := eq_of_beq h₁
  obtain rfl := eq_of_beq h₂
  obtain rfl := eq_of_beq h₄
  have hentities : entities.map EntityOf.written = entities'.map EntityOf.written :=
    map_eq_of_beq (fun e he e' he' =>
      EntityOf.written_eq (hd.entities e he) (hd'.entities e' he')) h₃
  have htriples := Triples.written_eq hown hown' hd.triples hd'.triples h₅
  rw [ComidBody.written, ComidBody.written, hentities, htriples]

/-- Equal manifests are written alike. -/
theorem Corim.written_eq {d d' : Corim V} (hown : d.EveryChoice (IsAmong outside.holds))
    (hown' : d'.EveryChoice (IsAmong outside.holds)) (hd : d.Told types told)
    (hd' : d'.Told types told) (h : (d == d') = true) : d.written = d'.written := by
  obtain ⟨hbody, hslot⟩ := Bool.and_eq_true_iff.1 h
  refine Slot.record_eq_of_agrees hd.own hd'.own hslot ?_ _ _
  obtain ⟨⟨id, tags, profile, entities⟩, hook⟩ := d
  obtain ⟨⟨id', tags', profile', entities'⟩, hook'⟩ := d'
  change (id == id' && (tags == tags' && (profile == profile' && entities == entities'))) = true
    at hbody
  simp only [Bool.and_eq_true] at hbody
  obtain ⟨h₁, h₂, h₃, h₄⟩ := hbody
  obtain rfl := eq_of_beq h₁
  obtain rfl : tags = tags' := TypeChoice.eq_of_beq_list hown.1 hown'.1 h₂
  obtain rfl : profile = profile' := TypeChoice.eq_of_beq_option hown.2 hown'.2 h₃
  have hentities : entities.map CorimEntity.written = entities'.map CorimEntity.written :=
    map_eq_of_beq (fun e he e' he' =>
      CorimEntity.written_eq (hd.entities e he) (hd'.entities e' he')) h₄
  rw [CorimBody.written, CorimBody.written, hentities]

/-! ## What equality says -/

/-- The bytes of a module identifier are those of its written form. -/
theorem Session.write_comid (s : Session) (f : Format) (d : Comid) :
    s.write f d = d.written.encode f >>= fun v => Coded.ofWire (f.toDocument s.config v) := by
  rw [← Comid.written_extended]
  rfl

/-- The bytes of a manifest are those of its written form. -/
theorem Session.write_corim (s : Session) (f : Format) (d : Corim) :
    s.write f d = d.written.encode f >>= fun v => Coded.ofWire (f.toDocument s.config v) := by
  rw [← Corim.written_extended]
  rfl

namespace HookTypes

/-- Equality of slots is symmetric and transitive, whatever values their hooks hold, and a slot
equals itself, or any other one, only if its hook can be written in the text form.  Slots of
declared fields with told values that are equal write the same in both forms, and equal documents
with such slots are written alike, so their bytes are the same. -/
theorem agreement_sound (types : HookTypes) (told : ToldVariants) (outside : OutsideVariants) :
    (∀ (B V : Type) [HookValue V] (a b c : Slot B V),
      (a.agrees a = true ↔ a.IsWritable) ∧ a.agrees b = b.agrees a ∧
        (a.agrees b = true → b.agrees c = true → a.agrees c = true) ∧
        (a.agrees b = true → a.IsWritable ∧ b.IsWritable)) ∧
    (∀ (B V : Type) [HookValue V] (a b : Slot B V), a.Told types told → b.Told types told →
      a.agrees b = true → ∀ f, Slot.puts f a = Slot.puts f b) ∧
    (∀ (V : Type) [HookValue V] (d d' : Comid V), d.EveryChoice (IsAmong outside.holds) →
      d'.EveryChoice (IsAmong outside.holds) → d.Told types told → d'.Told types told →
        (d == d') = true → ∀ f, d.written.encode f = d'.written.encode f) ∧
    (∀ (V : Type) [HookValue V] (d d' : Corim V), d.EveryChoice (IsAmong outside.holds) →
      d'.EveryChoice (IsAmong outside.holds) → d.Told types told → d'.Told types told →
        (d == d') = true → ∀ f, d.written.encode f = d'.written.encode f) ∧
    (∀ (s : Session) (f : Format) (d : Comid),
      s.write f d = d.written.encode f >>= fun v => Coded.ofWire (f.toDocument s.config v)) ∧
    ∀ (s : Session) (f : Format) (d : Corim),
      s.write f d = d.written.encode f >>= fun v => Coded.ofWire (f.toDocument s.config v) := by
  refine ⟨fun B V _ a b c => ?_, fun B V _ a b ha hb => Slot.puts_eq_of_agrees ha hb,
    fun V _ d d' hown hown' hd hd' h f => ?_, fun V _ d d' hown hown' hd hd' h f => ?_,
    Session.write_comid, Session.write_corim⟩
  · exact ⟨Slot.agrees_self_iff, Slot.agrees_comm a b, Slot.agrees_trans,
      Slot.isWritable_of_agrees⟩
  · rw [Comid.written_eq hown hown' hd hd' h]
  · rw [Corim.written_eq hown hown' hd hd' h]

/-- Hooks of two types: those of the one have an optional identifier and an optional label, those of
the other an environment. -/
def tracing : HookTypes where
  fields name :=
    if name = "trace" then [⟨.optional "origin" 100, .tagId⟩, ⟨.optional "label" 101, .string⟩]
    else if name = "site" then [⟨.optional "place" 100, .environment⟩]
    else []
  names name := by
    by_cases htrace : name = "trace"
    · rw [if_pos htrace]
      decide
    · rw [if_neg htrace]
      by_cases hsite : name = "site"
      · rw [if_pos hsite]
        decide
      · rw [if_neg hsite]
        exact .nil

/-- No variants from outside. -/
def noVariants : ToldVariants where
  holds _ := False
  eq_of_agree _ _ h := h.elim

/-- A vendor's serial numbers. -/
def serials : OutsideVariants where
  holds v := ∃ s, v = serialPayload.variant s
  eq_of_agrees := by
    rintro _ _ ⟨s, rfl⟩ ⟨t, rfl⟩ h
    obtain ⟨hdisplay, -⟩ := Bool.and_eq_true_iff.1 h
    obtain rfl : s = t := eq_of_beq (Bool.and_eq_true_iff.1 hdisplay).2
    rfl

/-- An optional field, with a value or without. -/
def traceField (name : String) (key : UInt64) (kind : Kind) (value : Option Datum) : Cell Datum :=
  ⟨⟨.optional name key, kind, false⟩, value⟩

/-- The slot of a module identifier with a hook of some fields. -/
def traceSlot (cells : List (Cell Datum)) : Slot ComidBody :=
  some { typeName := "trace", fields := some cells }

/-- A slot with an identifier and perhaps a label. -/
def originSlot (id : TagId) (label : Option String) : Slot ComidBody :=
  traceSlot [traceField "origin" 100 .tagId (some (.tagId id)),
    traceField "label" 101 .string (label.map Datum.string)]

/-- A module identifier with such a slot, about an environment that is told by a serial number. -/
def originComid (id : TagId) (label : Option String) : Comid :=
  { tagIdentity := { tagId := .text "module" }
    triples :=
      { devIdentityKeys :=
          [{ environment := { group := some (.registered (serialPayload.variant "SN-1")) } }] }
    hook := originSlot id label }

/-- A UUID. -/
def traceUuid : Uuid := ⟨0x55 :: List.replicate 15 0, by decide⟩

/-- A slot with an environment of a vendor, whose model is empty or left out. -/
def placeSlot (model : Option String) : Slot ComidBody WrittenValue :=
  let place : Environment := { envClass := some { vendor := some "ACME", model } }
  some {
    typeName := "site"
    fields := some [⟨⟨.optional "place" 100, .bool, false⟩, some place.written⟩] }

/-- The identifier in such a slot is told unless it is the text of a UUID. -/
theorem told_originSlot {id : TagId} (h : id.IsTold) (label : Option String) :
    (originSlot id label).Told tracing noVariants := by
  refine Slot.told_some (.cons ⟨rfl, fun x hx => ?_⟩ (.cons ⟨rfl, fun x hx => ?_⟩ .nil))
  · obtain rfl := Option.some.inj hx
    exact .tagId h
  · obtain ⟨s, -, rfl⟩ := Option.map_eq_some_iff.1 hx
    exact .string s

theorem told_originComid {id : TagId} (h : id.IsTold) (label : Option String) :
    (originComid id label).Told tracing noVariants where
  own := told_originSlot h label
  entities := List.forall_mem_nil _
  triples :=
    { own := Slot.told_none
      reference := List.forall_mem_nil _
      endorsed := List.forall_mem_nil _ }

/-- The environment in such a slot is told, as it holds no choices from outside. -/
theorem told_placeSlot (model : Option String) : (placeSlot model).Told tracing noVariants := by
  refine Slot.told_some (.cons ⟨rfl, fun x hx => ?_⟩ .nil)
  obtain rfl := Option.some.inj hx
  have hnone : ∀ {α : Type} {p : α → Prop}, ∀ x ∈ (none : Option α), p x := fun _ h => nomatch h
  refine .environment ⟨fun c hc => ?_, hnone, hnone⟩
  obtain rfl := Option.some.inj hc
  exact hnone

theorem everyChoice_originComid (id : TagId) (label : Option String) :
    (originComid id label).EveryChoice (IsAmong serials.holds) := by
  refine ⟨List.forall_mem_nil _, List.forall_mem_nil _, ?_, List.forall_mem_nil _⟩
  refine List.forall_mem_singleton.2 ⟨⟨?_, ?_, ?_⟩, List.forall_mem_nil _⟩
  · exact fun _ hmem => nomatch hmem
  · exact fun _ hmem => nomatch hmem
  · intro group hmem _
    obtain rfl := Option.some.inj hmem
    exact ⟨"SN-1", rfl⟩

/-- An empty label says no more than none, and neither does an empty model, so the slots and the
documents are equal, and they are written alike. -/
theorem agreement_sound_origin :
    (originSlot (.uuid traceUuid) (some "")).agrees (originSlot (.uuid traceUuid) none) = true ∧
      (∀ f, Slot.puts f (originSlot (.uuid traceUuid) (some "")) =
        Slot.puts f (originSlot (.uuid traceUuid) none)) ∧
      (placeSlot (some "")).agrees (placeSlot none) = true ∧
      (∀ f, Slot.puts f (placeSlot (some "")) = Slot.puts f (placeSlot none)) ∧
      (originComid (.uuid traceUuid) (some "") == originComid (.uuid traceUuid) none) = true ∧
      ∀ (s : Session) (f : Format), s.write f (originComid (.uuid traceUuid) (some "")) =
        s.write f (originComid (.uuid traceUuid) none) := by
  have hagree : (originSlot (.uuid traceUuid) (some "")).agrees
      (originSlot (.uuid traceUuid) none) = true := by decide
  have hplace : (placeSlot (some "")).agrees (placeSlot none) = true := by decide
  have hequal : (originComid (.uuid traceUuid) (some "") ==
      originComid (.uuid traceUuid) none) = true := by decide
  have hid : (TagId.uuid traceUuid).IsTold := fun _ => TagId.noConfusion
  obtain ⟨-, hslots, hcomids, -, hbytes, -⟩ := agreement_sound tracing noVariants serials
  refine ⟨hagree, hslots _ _ _ _ (told_originSlot hid _) (told_originSlot hid _) hagree, hplace,
    hslots _ _ _ _ (told_placeSlot _) (told_placeSlot _) hplace, hequal, fun s f => ?_⟩
  rw [hbytes, hbytes, hcomids _ _ _ (everyChoice_originComid _ _) (everyChoice_originComid _ _)
    (told_originComid hid _) (told_originComid hid _) hequal]

/-- A field with a level. -/
def levelField (key : UInt64) (level : Option Int) : Cell Datum :=
  traceField "level" key (.unsigned .w8) (level.map Datum.int)

/-- A slot with an entity as the value of a field. -/
def makerSlot (regId : Option String) (cells : List (Cell Datum)) : Slot ComidBody :=
  traceSlot [traceField "maker" 100 .entity (some (.entity
    { identity := { regId }, hook := some { typeName := "maker", fields := some cells } }))]

/-- A slot with the identifier of a class as the value of a field. -/
def classSlot (x : ClassId) : Slot ComidBody :=
  traceSlot [traceField "class" 100 .classId (some (.classId x))]

/-- A vendor's number of a part, whose text form leaves out the revision. -/
def partVariant (number : String) (revision : Int) : Variant :=
  { serialPayload.variant number with
    typeName := "acme.part"
    tag := 90002
    toCbor := .ok (.array [.text number, .int revision]) }

/-- A slot whose field holds no proper object identifier does not equal itself.  The text of a UUID
in place of the UUID makes documents that are equal and differ in the binary form.  Slots are
mistaken if variants from outside spell two payloads alike, or bear the name of an own variant, if
they declare one field under different keys, or two fields of one name.  So are entities whose hooks
declare one field under different keys, or a field by a name of the entity's own. -/
theorem agreement_fails :
    (classSlot (.oid ⟨[]⟩)).agrees (classSlot (.oid ⟨[]⟩)) = false ∧
    ((originComid (.text traceUuid.toText) none == originComid (.uuid traceUuid) none) = true ∧
      Document.encode .cbor (originComid (.text traceUuid.toText) none) ≠
        Document.encode .cbor (originComid (.uuid traceUuid) none)) ∧
    Slot.Mistaken (classSlot (.registered (partVariant "P-1" 1)))
      (classSlot (.registered (partVariant "P-1" 2))) ∧
    Slot.Mistaken (classSlot (.uuid traceUuid))
      (classSlot (.registered { Uuid.payload.variant traceUuid with tag := 90003 })) ∧
    Slot.Mistaken (traceSlot [levelField 100 (some 1)]) (traceSlot [levelField 101 (some 1)]) ∧
    Slot.Mistaken (traceSlot [levelField 100 (some 1), levelField 101 none])
      (traceSlot [levelField 100 none, levelField 101 (some 1)]) ∧
    Slot.Mistaken (makerSlot none [levelField 100 (some 1)])
      (makerSlot none [levelField 101 (some 1)]) ∧
    Slot.Mistaken (makerSlot none [traceField "regid" 100 .string (some (.string "acme"))])
      (makerSlot (some "acme") [traceField "regid" 100 .string none]) := by
  refine ⟨by decide, ⟨by decide, fun h => ?_⟩, ⟨by decide, fun h => ?_⟩, ⟨by decide, fun h => ?_⟩,
    ⟨by decide, fun h => ?_⟩, ⟨by decide, fun h => ?_⟩, ⟨by rfl, fun h => ?_⟩,
    ⟨by rfl, fun h => ?_⟩⟩ <;> cases h

end HookTypes

end Rim
