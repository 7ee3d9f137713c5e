import Rim.Proofs.Document.Grafting
import Rim.Proofs.Hook.Contested
import Rim.Proofs.Record.Bare
/-!
# Inert hooks are invisible

A hook without capabilities makes no difference.  Attached to any empty slots of a document it
changes neither the outcome of its validation nor the bytes it is written as, and a profile that has
only such hooks reads what a session without the profile reads, or fails as that does.

## Main results

* `Comid.encode_bare`, `Corim.encode_bare`: documents are written as their bare forms are.
* `comidShape_readsBare`, `corimShape_readsBare`: what their fields are read as.
* `Session.decodeComid_bare`, `Session.decodeCorim_bare`: reading under a profile of inert hooks.
* `Session.inert_hooks_invisible`: all of it together.
-/

namespace Rim

open FieldCodec

/-! ## Writing -/

/-- An entity writes what it writes without an inert hook. -/
theorem writesBare_entity : FieldCodec.entity.WritesBare EntityOf.bare := by
  refine RecordShape.writesBare_extended (fun m hm => ?_) (fun _ => rfl) default
  rcases List.mem_append.1 hm with hm | hm
  · obtain ⟨own, -, rfl⟩ := List.mem_map.1 hm
    exact fun _ _ => rfl
  · obtain rfl := List.mem_singleton.1 hm
    exact fun _ _ => rfl

theorem writesBare_flags : (flagsShape.extended default).WritesBare FlagsMap.bare := by
  refine RecordShape.writesBare_extended (fun m hm => ?_) (fun _ => rfl) default
  obtain ⟨i, -, rfl⟩ := List.mem_map.1 hm
  exact fun _ _ => rfl

/-- Measured values write what they write without inert hooks.  Among the fields only the flags have
a slot. -/
theorem writesBare_mval : (mvalShape.extended default).WritesBare Mval.bare := by
  refine RecordShape.writesBare_extended (fun m hm => ?_) (fun _ => rfl) default
  simp only [mvalShape, RecordShape.flat, List.mem_cons, List.not_mem_nil, or_false] at hm
  rcases hm with rfl | rfl | hm
  · exact fun _ _ => rfl
  · exact Member.writesBare_optional writesBare_flags fun _ => rfl
  · rcases hm with rfl | rfl | rfl | rfl | rfl <;> exact fun _ _ => rfl

theorem writesBare_measurement :
    (measurementShape.holding default).WritesBare Measurement.bare := by
  refine RecordShape.writesBare_holding (fun m hm => ?_) default
  simp only [measurementShape, RecordShape.flat, List.mem_cons, List.not_mem_nil, or_false] at hm
  rcases hm with rfl | rfl | rfl
  · exact fun _ _ => rfl
  · exact Member.writesBare_required writesBare_mval fun _ => rfl
  · exact fun _ _ => rfl

theorem writesBare_valueTriple :
    (valueTripleShape.holding default).WritesBare ValueTriple.bare := by
  refine RecordShape.writesBare_holding (fun m hm => ?_) default
  simp only [valueTripleShape, RecordShape.flat, List.mem_cons, List.not_mem_nil, or_false] at hm
  rcases hm with rfl | rfl
  · exact fun _ _ => rfl
  · exact Member.writesBare_required writesBare_measurement.list fun _ => rfl

theorem writesBare_triples : (triplesShape.extended default).WritesBare Triples.bare := by
  refine RecordShape.writesBare_extended (fun m hm => ?_) (fun _ => rfl) default
  simp only [triplesShape, RecordShape.flat, List.mem_cons, List.not_mem_nil, or_false] at hm
  rcases hm with rfl | rfl | rfl | rfl
  · exact Member.writesBare_defaulted writesBare_valueTriple.list fun _ => rfl
  · exact Member.writesBare_defaulted (writesBare_valueTriple.list.under _) fun _ => rfl
  · exact fun _ _ => rfl
  · exact fun _ _ => rfl

theorem writesBare_corimEntity :
    (corimEntityShape.extended default).WritesBare CorimEntity.bare := by
  refine RecordShape.writesBare_extended (fun m hm => ?_) (fun _ => rfl) default
  rcases List.mem_append.1 hm with hm | hm
  · obtain ⟨own, -, rfl⟩ := List.mem_map.1 hm
    exact fun _ _ => rfl
  · obtain rfl := List.mem_singleton.1 hm
    exact fun _ _ => rfl

/-- A module identifier is written as its bare form is. -/
theorem Comid.encode_bare (f : Format) (d : Comid) :
    Document.encode f d.bare = Document.encode f d := by
  refine RecordShape.encodeExtended_bare (fun m hm => ?_) (fun _ => rfl) f d
  simp only [Document.shape, comidShape, RecordShape.flat, List.mem_cons, List.not_mem_nil,
    or_false] at hm
  rcases hm with rfl | rfl | rfl | rfl | rfl
  · exact fun _ _ => rfl
  · exact fun _ _ => rfl
  · exact Member.writesBare_defaulted writesBare_entity.list fun _ => rfl
  · exact fun _ _ => rfl
  · exact Member.writesBare_required writesBare_triples fun _ => rfl

/-- A manifest is written as its bare form is. -/
theorem Corim.encode_bare (f : Format) (d : Corim) :
    Document.encode f d.bare = Document.encode f d := by
  refine RecordShape.encodeExtended_bare (fun m hm => ?_) (fun _ => rfl) f d
  simp only [Document.shape, corimShape, RecordShape.flat, List.mem_cons, List.not_mem_nil,
    or_false] at hm
  rcases hm with rfl | rfl | rfl | rfl
  · exact fun _ _ => rfl
  · exact fun _ _ => rfl
  · exact fun _ _ => rfl
  · exact Member.writesBare_defaulted writesBare_corimEntity.list fun _ => rfl

/-- Attaching inert hooks changes nothing about what is written. -/
theorem Comid.encode_mapSlots {step : SlotStep} (hstep : step.AttachesInert) (f : Format)
    (d : Comid) : Document.encode f (Slotted.mapSlots step d) = Document.encode f d := by
  rw [← encode_bare, bare_mapSlots hstep, encode_bare]

/-- Inert hooks change nothing about what is written of a manifest. -/
theorem Corim.encode_mapSlots {step : SlotStep} (hstep : step.AttachesInert) (f : Format)
    (d : Corim) : Document.encode f (Slotted.mapSlots step d) = Document.encode f d := by
  rw [← encode_bare, bare_mapSlots hstep, encode_bare]

/-! ## Reading

A record is read from a blank one with the hooks of its position, and this has the blank record as
its bare form. -/

section Reading

variable {f : Format} {catalogs : Catalogs} {h : HookSource}

/-- An entity is read as it is read without an inert hook. -/
theorem readsBare_entity (hfits : h.Fits) (hinert : h.bundle.Inert) :
    FieldCodec.entity.ReadsBare f catalogs h EntityOf.bare := by
  refine RecordShape.readsBare_extended RecordShape.IsExtensible.entity.keepsSlot (fun m hm => ?_)
    (fun _ => rfl) rfl (hfits.attachOwn_eq (fun _ => by simp [Hookable.kind]) rfl) ?_
  · rcases List.mem_append.1 hm with hm | hm
    · obtain ⟨own, hown, rfl⟩ := List.mem_map.1 hm
      exact Member.readsBare_embedded (identityShape_ignoresHooks hown) (fun _ => rfl)
        fun _ _ => rfl
    · obtain rfl := List.mem_singleton.1 hm
      exact Member.readsBare_required_of_ignores ignoresHooks_code.list fun _ _ => rfl
  · exact congrArg (EntityOf.mk _) (HookSource.bare_slotFor hinert .comidEntity)

theorem readsBare_flags (hfits : h.Fits) (hinert : h.bundle.Inert) :
    (flagsShape.extended default).ReadsBare f catalogs h FlagsMap.bare := by
  refine RecordShape.readsBare_extended RecordShape.IsExtensible.flags.keepsSlot (fun m hm => ?_)
    (fun _ => rfl) rfl (hfits.attachOwn_eq (fun _ => by simp [Hookable.kind]) rfl) ?_
  · obtain ⟨i, -, rfl⟩ := List.mem_map.1 hm
    exact Member.readsBare_optional_of_ignores ignoresHooks_bool fun _ _ => rfl
  · exact congrArg (FlagsMap.mk _) (HookSource.bare_slotFor hinert .flags)

theorem readsBare_mval (hfits : h.Fits) (hinert : h.bundle.Inert) :
    (mvalShape.extended default).ReadsBare f catalogs h Mval.bare := by
  refine RecordShape.readsBare_extended RecordShape.IsExtensible.mval.keepsSlot (fun m hm => ?_)
    (fun _ => rfl) rfl (Mval.attach_eq_graft hfits rfl fun _ hm => by cases hm) ?_
  · simp only [mvalShape, RecordShape.flat, List.mem_cons, List.not_mem_nil, or_false] at hm
    rcases hm with rfl | rfl | rfl | rfl | rfl | rfl | rfl
    · exact Member.readsBare_defaulted_of_ignores ignoresHooks_digest.list fun _ _ => rfl
    · exact Member.readsBare_optional (readsBare_flags hfits hinert) fun _ _ => rfl
    · exact Member.readsBare_optional_of_ignores ignoresHooks_bytes fun _ _ => rfl
    · exact Member.readsBare_optional_of_ignores ignoresHooks_string fun _ _ => rfl
    · exact Member.readsBare_optional_of_ignores ignoresHooks_ueid fun _ _ => rfl
    · exact Member.readsBare_optional_of_ignores ignoresHooks_uuid fun _ _ => rfl
    · exact Member.readsBare_optional_of_ignores ignoresHooks_string fun _ _ => rfl
  · exact congrArg (Mval.mk _) (HookSource.bare_slotFor hinert .mval)

theorem readsBare_measurement (hfits : h.Fits) (hinert : h.bundle.Inert) :
    (measurementShape.holding default).ReadsBare f catalogs h Measurement.bare := by
  refine RecordShape.readsBare_holding (fun m hm => ?_)
    (Measurement.attach_eq_graft hfits ⟨rfl, fun _ hm => by cases hm⟩) ?_
  · simp only [measurementShape, RecordShape.flat, List.mem_cons, List.not_mem_nil, or_false] at hm
    rcases hm with rfl | rfl | rfl
    · exact Member.readsBare_optional_of_ignores ignoresHooks_choice fun _ _ => rfl
    · exact Member.readsBare_required (readsBare_mval hfits hinert) fun _ _ => rfl
    · exact Member.readsBare_defaulted_of_ignores ignoresHooks_choice.list fun _ _ => rfl
  · have hvalue : Mval.bare (Mval.graft h default) = default :=
      congrArg (Mval.mk _) (HookSource.bare_slotFor hinert .mval)
    exact congrArg (fun value => { (default : Measurement) with value }) hvalue

theorem readsBare_valueTriple (hfits : h.Fits) (hinert : h.bundle.Inert) :
    (valueTripleShape.holding default).ReadsBare f catalogs h ValueTriple.bare := by
  refine RecordShape.readsBare_holding (fun m hm => ?_)
    (ValueTriple.attach_eq_graft hfits fun _ hm => by cases hm) rfl
  simp only [valueTripleShape, RecordShape.flat, List.mem_cons, List.not_mem_nil, or_false] at hm
  rcases hm with rfl | rfl
  · exact Member.readsBare_required_of_ignores ignoresHooks_environment fun _ _ => rfl
  · exact Member.readsBare_required (readsBare_measurement hfits hinert).list fun _ _ => rfl

theorem readsBare_corimEntity (hfits : h.Fits) (hinert : h.bundle.Inert) :
    (corimEntityShape.extended default).ReadsBare f catalogs h CorimEntity.bare := by
  refine RecordShape.readsBare_extended keepsSlot_corimEntity (fun m hm => ?_)
    (fun _ => rfl) rfl (hfits.attachOwn_eq (fun _ => by simp [Hookable.kind]) rfl) ?_
  · rcases List.mem_append.1 hm with hm | hm
    · obtain ⟨own, hown, rfl⟩ := List.mem_map.1 hm
      exact Member.readsBare_embedded (identityShape_ignoresHooks hown) (fun _ => rfl)
        fun _ _ => rfl
    · obtain rfl := List.mem_singleton.1 hm
      exact Member.readsBare_required_of_ignores ignoresHooks_code.list fun _ _ => rfl
  · exact congrArg (CorimEntity.mk _) (HookSource.bare_slotFor hinert .corimEntity)

variable {b : Bundle}

/-- Triples are read as they are without inert hooks.  The endorsed values are read under other
stand-ins, whose hooks are inert as well. -/
theorem readsBare_triples (hfits : b.Fits) (hinert : b.Inert) :
    (triplesShape.extended default).ReadsBare f catalogs ⟨b, []⟩ Triples.bare := by
  refine RecordShape.readsBare_extended RecordShape.IsExtensible.triples.keepsSlot (fun m hm => ?_)
    (fun _ => rfl) rfl (Triples.attach_eq_graft hfits rfl) ?_
  · have hreference : (valueTripleShape.holding default).ReadsBare f catalogs ⟨b, []⟩ _ :=
      readsBare_valueTriple (HookSource.fits_nil hfits) hinert
    have hendorsed : (valueTripleShape.holding default).ReadsBare f catalogs
        ((HookSource.mk b []).withStandIns StandIn.endorsed) _ :=
      readsBare_valueTriple (HookSource.fits_endorsed hfits) hinert
    simp only [triplesShape, RecordShape.flat, List.mem_cons, List.not_mem_nil, or_false] at hm
    rcases hm with rfl | rfl | rfl | rfl
    · exact Member.readsBare_defaulted hreference.list rfl fun _ _ => rfl
    · exact Member.readsBare_defaulted hendorsed.list.under rfl fun _ _ => rfl
    · exact Member.readsBare_defaulted_of_ignores ignoresHooks_keyTriple.list fun _ _ => rfl
    · exact Member.readsBare_defaulted_of_ignores ignoresHooks_keyTriple.list fun _ _ => rfl
  · exact congrArg (Triples.mk _) (HookSource.bare_slotFor hinert .triples)

theorem comidShape_readsBare (hfits : b.Fits) (hinert : b.Inert) {m : Member Comid}
    (hm : m ∈ comidShape.members) : m.ReadsBare f catalogs ⟨b, []⟩ Comid.bare := by
  simp only [comidShape, RecordShape.flat, List.mem_cons, List.not_mem_nil, or_false] at hm
  rcases hm with rfl | rfl | rfl | rfl | rfl
  · exact Member.readsBare_optional_of_ignores ignoresHooks_string fun _ _ => rfl
  · exact Member.readsBare_required_of_ignores ignoresHooks_tagIdentity fun _ _ => rfl
  · exact Member.readsBare_defaulted (readsBare_entity (HookSource.fits_nil hfits) hinert).list rfl
      fun _ _ => rfl
  · exact Member.readsBare_defaulted_of_ignores ignoresHooks_linkedTag.list fun _ _ => rfl
  · exact Member.readsBare_required (readsBare_triples hfits hinert) fun _ _ => rfl

theorem corimShape_readsBare (hfits : b.Fits) (hinert : b.Inert) {m : Member Corim}
    (hm : m ∈ corimShape.members) : m.ReadsBare f catalogs ⟨b, []⟩ Corim.bare := by
  simp only [corimShape, RecordShape.flat, List.mem_cons, List.not_mem_nil, or_false] at hm
  rcases hm with rfl | rfl | rfl | rfl
  · exact Member.readsBare_required_of_ignores ignoresHooks_tagId fun _ _ => rfl
  · exact Member.readsBare_required_of_ignores ignoresHooks_choice.list fun _ _ => rfl
  · exact Member.readsBare_optional_of_ignores ignoresHooks_choice fun _ _ => rfl
  · exact Member.readsBare_defaulted
      (readsBare_corimEntity (HookSource.fits_nil hfits) hinert).list rfl fun _ _ => rfl

/-- The profile that a fresh manifest holds is replaced by the one that is read.  The two fields
before the profile are taken without looking at it. -/
theorem Corim.takeAll_withProfile (cx : Context) (id : ProfileId) (d : Corim)
    (entries : Entries f) :
    takeAll cx corimShape.members (Buildable.withProfile id d) entries =
      takeAll cx corimShape.members d entries := by
  have hid : ∀ a (r : Corim), { Buildable.withProfile id r with id := a } =
      Buildable.withProfile id { r with id := a } := fun _ _ => rfl
  have htags : ∀ a (r : Corim), { Buildable.withProfile id r with tags := a } =
      Buildable.withProfile id { r with tags := a } := fun _ _ => rfl
  unfold corimShape RecordShape.flat
  refine takeAll_changed (Member.decode_required_changed hid) ?_ d entries
  exact takeAll_changed (Member.decode_required_changed htags) fun d entries => rfl

/-- The profile that a root holds makes no difference to what is read. -/
theorem Corim.decodeAttached_withProfile (cx : Context) (id : ProfileId) (d : Corim) (v : Raw f) :
    corimShape.decodeAttached f cx (Buildable.withProfile id d) v =
      corimShape.decodeAttached f cx d v := by
  unfold RecordShape.decodeAttached RecordShape.decodeExtended RecordShape.decodeWith
  simp only [Corim.takeAll_withProfile]

/-- A module identifier read with inert hooks has what is read without hooks as its bare form. -/
theorem Comid.decodeAttached_bare (hfits : b.Fits) (hinert : b.Inert) (v : Raw f) :
    (comidShape.decodeAttached f ⟨catalogs, some ⟨b, []⟩⟩ (Comid.graft ⟨b, []⟩ default) v).map
        Comid.bare = comidShape.decodeAttached f ⟨catalogs, none⟩ default v := by
  have hown : Slot.bare (HookSource.slotFor ⟨b, []⟩ .comid) = none :=
    HookSource.bare_slotFor hinert .comid
  have htriples : (Triples.graft ⟨b, []⟩ default).bare = default :=
    congrArg (Triples.mk _) (HookSource.bare_slotFor hinert .triples)
  have hblank : (Comid.graft ⟨b, []⟩ default).bare = default := by
    show Comid.mk { (default : ComidBody) with triples := (Triples.graft ⟨b, []⟩ default).bare }
      (Slot.bare (HookSource.slotFor ⟨b, []⟩ .comid)) = _
    rw [htriples, hown]
    rfl
  rw [RecordShape.decodeAttached_readsBare RecordShape.IsExtensible.comid.keepsSlot
    (fun _ hm => comidShape_readsBare hfits hinert hm) (fun _ => rfl) hown, hblank]

/-- A manifest read with inert hooks has what is read without hooks as its bare form, whatever
profile the fresh manifest holds. -/
theorem Corim.decodeAttached_bare (hfits : b.Fits) (hinert : b.Inert) (id : ProfileId)
    (v : Raw f) :
    (corimShape.decodeAttached f ⟨catalogs, some ⟨b, []⟩⟩
      (Buildable.withProfile id (HookSource.graft ⟨b, []⟩ (default : Corim))) v).map Corim.bare =
        corimShape.decodeAttached f ⟨catalogs, none⟩ default v := by
  have hown : Slot.bare (HookSource.slotFor ⟨b, []⟩ .corim) = none :=
    HookSource.bare_slotFor hinert .corim
  have hblank : (HookSource.graft ⟨b, []⟩ (default : Corim)).bare = default :=
    congrArg (Corim.mk _) hown
  rw [Corim.decodeAttached_withProfile, RecordShape.decodeAttached_readsBare keepsSlot_corim
    (fun _ hm => corimShape_readsBare hfits hinert hm) (fun _ => rfl) hown, hblank]

end Reading

/-! ## Sessions -/

namespace Session

variable {s : Session} {f : Format} {p : Profile}

/-- Documents that are equally valid and have one encoding are written alike. -/
theorem encode_congr {R : Type} [Document R] {d d' : R}
    (hvalid : Validate.validate d' = Validate.validate d)
    (henc : Document.encode f d' = Document.encode f d) : s.encode f d' = s.encode f d := by
  unfold encode write
  rw [hvalid, henc]

theorem map_lift {α β : Type} (g : α → β) (x : Coded α) :
    (Error.lift .record x).map g = Error.lift .record (x.map g) := by
  cases x <;> rfl

/-- Reading under a profile of inert hooks and taking the bare form comes to reading without a
profile. -/
theorem decodeComid_bare {id : ProfileId} (hp : s.profiles.named? (some id) = some p)
    (hfits : p.bundle.Fits) (hinert : p.bundle.Inert) (bytes : List UInt8) :
    (s.decodeComid f (some id) bytes).map Comid.bare = s.decodeComid f none bytes := by
  unfold decodeComid
  rw [build_some hp hfits, context_some hp]
  show ((s.parse f bytes).bind fun v => Error.lift .record (comidShape.decodeAttached f
      ⟨s.catalogs, some p.hooks⟩ (Comid.graft p.hooks default) v)).map Comid.bare =
    (s.parse f bytes).bind fun v =>
      Error.lift .record (comidShape.decodeAttached f ⟨s.catalogs, none⟩ default v)
  refine map_bind_congr fun v => ?_
  rw [map_lift, Profile.hooks, Comid.decodeAttached_bare hfits hinert]

/-- Reading a manifest that declares a profile of inert hooks and taking the bare form comes to
reading it without profiles.  Both sessions look for the profile without hooks and find the same. -/
theorem decodeCorim_bare (hfits : p.bundle.Fits) (hinert : p.bundle.Inert) {bytes : List UInt8}
    (hdeclared : ∀ v profile, s.parse f bytes = .ok v →
      Corim.declaredProfile f (s.context none) v = .ok profile →
      s.profiles.named? profile = some p) :
    (s.decodeCorim f bytes).map Corim.bare =
      decodeCorim { s with profiles := .empty } f bytes := by
  have hparse : parse { s with profiles := .empty } f bytes = s.parse f bytes := rfl
  have hpeek : context { s with profiles := .empty } none = s.context none := by
    rw [context_eq rfl, context_eq rfl]
  rw [decodeCorim_eq, decodeCorim_eq, hparse, hpeek]
  cases hv : s.parse f bytes with
  | error e => rfl
  | ok v =>
    rw [Except.bind, Except.bind]
    cases hprofile : Corim.declaredProfile f (s.context none) v with
    | error e => rfl
    | ok profile =>
      have hp := hdeclared v profile hv hprofile
      rw [Error.lift, Except.bind, Except.bind, build_corim hp hfits,
        build_eq (named?_empty profile), context_some hp, context_eq (named?_empty profile),
        Except.bind, Except.bind, map_lift, Profile.hooks, Corim.decodeAttached_bare hfits hinert]
      rfl

/-- Hooks without capabilities make no difference.  Documents with such hooks attached to any of
their empty slots are as valid as before, with the same error if they are not, and a session writes
the same bytes or fails alike; the constraints that they have already must judge the content and not
what is attached elsewhere.  Flags are read and written as before.  Reading under a profile of such
hooks, each for the kind of entities that its point belongs to, gives what reading without the
profile gives, such hooks aside, or the same error. -/
theorem inert_hooks_invisible (s : Session) :
    (∀ step : SlotStep, step.AttachesInert →
      (∀ d : Comid, d.JudgesContent →
        Validate.validate (Slotted.mapSlots step d) = Validate.validate d ∧
          ∀ f, s.encode f (Slotted.mapSlots step d) = s.encode f d) ∧
      ∀ d : Corim, d.JudgesContent →
        Validate.validate (Slotted.mapSlots step d) = Validate.validate d ∧
          ∀ f, s.encode f (Slotted.mapSlots step d) = s.encode f d) ∧
    (∀ (m : FlagsMap) (h : Hook FlagsBody), m.hook = none → h.isInert = true →
      FlagsMap.holdsFlag { m with hook := some h } = m.holdsFlag ∧
        ∀ flag, FlagsMap.get { m with hook := some h } flag = m.get flag ∧
          (∀ value, (m.set flag value).hook = none ∧
            FlagsMap.set { m with hook := some h } flag value =
              { m.set flag value with hook := some h }) ∧
          (m.clear flag).hook = none ∧
          FlagsMap.clear { m with hook := some h } flag = { m.clear flag with hook := some h }) ∧
    ∀ p : Profile, p.bundle.Fits → p.bundle.Inert → ∀ f bytes,
      (∀ id, s.profiles.named? (some id) = some p →
        (s.decodeComid f (some id) bytes).map Comid.bare = s.decodeComid f none bytes) ∧
      ((∀ v profile, s.parse f bytes = .ok v →
          Corim.declaredProfile f (s.context none) v = .ok profile →
          s.profiles.named? profile = some p) →
        (s.decodeCorim f bytes).map Corim.bare =
          decodeCorim { s with profiles := .empty } f bytes) := by
  refine ⟨fun step hstep => ⟨fun d hd => ?_, fun d hd => ?_⟩, fun m h hnone hinert => ?_,
    fun p hfits hinert f bytes => ?_⟩
  · have hvalid := Comid.validate_mapSlots hstep hd
    exact ⟨hvalid, fun f => encode_congr hvalid (Comid.encode_mapSlots hstep f d)⟩
  · have hvalid := Corim.validate_mapSlots hstep hd
    exact ⟨hvalid, fun f => encode_congr hvalid (Corim.encode_mapSlots hstep f d)⟩
  · refine ⟨FlagsMap.holdsFlag_inert hnone hinert, fun flag => ⟨?_, fun value => ?_, ?_⟩⟩
    · exact FlagsMap.get_inert hnone hinert flag
    · exact FlagsMap.put_inert hnone hinert flag (some value)
    · exact FlagsMap.put_inert hnone hinert flag none
  · refine ⟨fun id hp => decodeComid_bare hp hfits hinert bytes, fun hdeclared => ?_⟩
    exact decodeCorim_bare hfits hinert hdeclared

/-- Inert hooks at all points of documents. -/
def inertBundle : Bundle :=
  ⟨[⟨.comid, .comid, .inert⟩, ⟨.endorsedValue, .mval, .inert⟩,
    ⟨.endorsedValueFlags, .flags, .inert⟩, ⟨.comidEntity, .comidEntity, .inert⟩,
    ⟨.referenceValue, .mval, .inert⟩, ⟨.referenceValueFlags, .flags, .inert⟩,
    ⟨.comidTriples, .triples, .inert⟩, ⟨.corim, .corim, .inert⟩,
    ⟨.corimEntity, .corimEntity, .inert⟩]⟩

theorem inertBundle_fits : inertBundle.Fits := by
  intro e he
  simp only [inertBundle, List.mem_cons, List.not_mem_nil, or_false] at he
  rcases he with rfl | rfl | rfl | rfl | rfl | rfl | rfl | rfl | rfl <;>
    exact ⟨fun _ => by simp, rfl⟩

theorem inertBundle_inert : inertBundle.Inert := by
  intro e he
  simp only [inertBundle, List.mem_cons, List.not_mem_nil, or_false] at he
  rcases he with rfl | rfl | rfl | rfl | rfl | rfl | rfl | rfl | rfl <;> rfl

/-- A session that knows a profile with these hooks. -/
def inertSession : Session where
  profiles := ⟨[⟨.oid ⟨[2, 999, 3]⟩, inertBundle⟩]⟩

/-- An inert hook attached to every empty slot. -/
def attachEverywhere : SlotStep := fun _ _ s => s.or (some .inert)

theorem attachEverywhere_attachesInert : attachEverywhere.AttachesInert := by
  intro path B s
  cases s with
  | none => exact .inr ⟨rfl, .inert, rfl, rfl⟩
  | some h => exact .inl rfl

/-- A module identifier whose own hook wants it to have a language. -/
def ruledComid : Comid :=
  { keyedComid "ACME" with
    hook := some (.described .comid (some ⟨"no language", none, true⟩) none none) }

theorem judgesContent_ruledComid : ruledComid.JudgesContent where
  own := Hook.judgesContent_described _ _ _ _
  entities e he := by
    obtain rfl := List.mem_singleton.1 he
    exact Slot.judgesContent_none _
  triples := ⟨Slot.judgesContent_none _, List.forall_mem_nil _, List.forall_mem_nil _⟩

theorem inert_hooks_invisible_samples :
    (∀ f, inertSession.encode f (Slotted.mapSlots attachEverywhere ruledComid) =
      inertSession.encode f ruledComid) ∧
    (∀ f, inertSession.encode f (Slotted.mapSlots attachEverywhere profiledCorim) =
      inertSession.encode f profiledCorim) ∧
    FlagsMap.get { (default : FlagsMap) with hook := some .inert } 42 = none ∧
    (∃ d', inertSession.decodeComid .cbor (some (.oid ⟨[2, 999, 3]⟩)) valuedBytes = .ok d' ∧
      d'.hook.isSome = true ∧ inertSession.decodeComid .cbor none valuedBytes = .ok d'.bare) ∧
    ∃ d', inertSession.decodeCorim .cbor hookedBytes = .ok d' ∧ d'.hook.isSome = true ∧
      decodeCorim { inertSession with profiles := .empty } .cbor hookedBytes = .ok d'.bare := by
  obtain ⟨hattach, hflags, hread⟩ := inert_hooks_invisible inertSession
  obtain ⟨hcomid, hcorim⟩ := hattach attachEverywhere attachEverywhere_attachesInert
  have hprofiled : profiledCorim.JudgesContent :=
    Corim.everySlot_of_hookless Slot.judgesContent_none rfl
  refine ⟨(hcomid ruledComid judgesContent_ruledComid).2, (hcorim profiledCorim hprofiled).2,
    ((hflags default .inert rfl rfl).2 42).1, ?_, ?_⟩
  · obtain ⟨d', hd', hsome⟩ := exists_of_any_toOption
      (show (inertSession.decodeComid .cbor (some (.oid ⟨[2, 999, 3]⟩)) valuedBytes).toOption.any
        (·.hook.isSome) = true by decide +kernel)
    have hbare := (hread ⟨.oid ⟨[2, 999, 3]⟩, inertBundle⟩ inertBundle_fits inertBundle_inert .cbor
      valuedBytes).1 (.oid ⟨[2, 999, 3]⟩) rfl
    rw [hd'] at hbare
    exact ⟨d', hd', hsome, hbare.symm⟩
  · obtain ⟨d', hd', htest⟩ := exists_of_any_toOption
      (show (inertSession.decodeCorim .cbor hookedBytes).toOption.any (fun d =>
        d.hook.isSome && (inertSession.profiles.named? d.profile).isSome) = true
        by decide +kernel)
    obtain ⟨hsome, hnamed⟩ := Bool.and_eq_true_iff.1 htest
    have hregistered : inertSession.profiles.named? d'.profile =
        some ⟨.oid ⟨[2, 999, 3]⟩, inertBundle⟩ := by
      obtain ⟨p, hp⟩ := Option.isSome_iff_exists.1 hnamed
      obtain ⟨id, -, hfind⟩ := Option.bind_eq_some_iff.1 hp
      rw [hp, List.mem_singleton.1 (List.mem_of_find?_eq_some hfind)]
    have hbare := (hread ⟨.oid ⟨[2, 999, 3]⟩, inertBundle⟩ inertBundle_fits inertBundle_inert .cbor
      hookedBytes).2 ?_
    · rw [hd'] at hbare
      exact ⟨d', hd', hsome, hbare.symm⟩
    · intro v profile hparse hdeclared
      obtain ⟨v', profile', root, hparse', hdeclared', -, hdecode⟩ := decodeCorim_eq_ok_iff.1 hd'
      obtain rfl := Except.ok.inj (hparse.symm.trans hparse')
      obtain rfl := Except.ok.inj (hdeclared.symm.trans hdeclared')
      rw [← profile_of_decodeAttached hdeclared hdecode, hregistered]

/-- A module identifier whose own hook wants the slot of its triples to be empty.  Whether a slot is
empty is no content, so this constraint does not judge the content. -/
def lookingComid : Comid :=
  { keyedComid "ACME" with
    hook := some {
      typeName := "looking"
      constraint := some fun d _ => if d.triples.hook.isNone then .ok () else .error ⟨"taken"⟩ } }

/-- A constraint that looks for hooks elsewhere finds an inert one, a bundle with an inert hook for
other entities is refused on reading, and documents that differ in an inert hook are not equal. -/
theorem inert_hooks_noticed :
    (Validate.validate lookingComid = .ok () ∧
      Validate.validate (Slotted.mapSlots attachEverywhere lookingComid) =
        .error (.extension ⟨"taken"⟩)) ∧
    (foreignBundle.Inert ∧
      ∃ d, foreignSession.decodeComid .cbor none valuedBytes = .ok d ∧
        foreignSession.decodeComid .cbor (some (.oid ⟨[2, 999, 3]⟩)) valuedBytes =
          .error (.attach (.wrongKind .comid))) ∧
    (Slotted.mapSlots attachEverywhere (keyedComid "ACME") == keyedComid "ACME") = false := by
  refine ⟨⟨rfl, rfl⟩, ⟨fun e he => ?_, ?_⟩, by decide⟩
  · obtain rfl := List.mem_singleton.1 he
    rfl
  · obtain ⟨d, hread⟩ := exists_decodeComid_valuedBytes foreignSession.profiles
    exact ⟨d, hread, rfl⟩

end Session

end Rim
