import Rim.Proofs.Document.RoundTrip
import Rim.Proofs.Record.Grafts
/-!
# Hooks attached while reading

A session attaches the hooks of a profile to every record it reads, before the record takes its
fields.  Attaching them to the finished document gives the same, if the document could be read
without them and all their fields are optional and at rest: no field of a hook then finds anything
to take.

## Main results

* `Comid.decodeAttached_grafts`: a module identifier read with hooks.
* `Session.decodeComid_attach`: reading under a profile is attaching its hooks afterwards.
-/

namespace Rim

/-! ## Values that carry no hook -/

namespace FieldCodec

theorem ignoresHooks_bool : bool.IgnoresHooks := fun _ _ _ => rfl

theorem ignoresHooks_uint64 : uint64.IgnoresHooks := fun _ _ _ => rfl

theorem ignoresHooks_string : string.IgnoresHooks := fun _ _ _ => rfl

theorem ignoresHooks_bytes : bytes.IgnoresHooks := fun _ _ _ => rfl

theorem ignoresHooks_code {α : Type} [OpenCode α] : (code α).IgnoresHooks := by
  intro f catalogs hooks
  funext v
  cases f with
  | cbor => rfl
  | json => cases v <;> rfl

theorem ignoresHooks_uuid : uuid.IgnoresHooks := fun f _ _ => by cases f <;> rfl

theorem ignoresHooks_ueid : ueid.IgnoresHooks := fun _ _ _ => rfl

theorem ignoresHooks_digest : digest.IgnoresHooks := fun f _ _ => by cases f <;> rfl

theorem ignoresHooks_tagId : tagId.IgnoresHooks := by
  intro f catalogs hooks
  funext v
  cases f with
  | cbor => cases v <;> rfl
  | json => rfl

/-- Choices are read without looking at hooks. -/
theorem ignoresHooks_choice {family : Family} : (choice family).IgnoresHooks := fun _ _ _ => rfl

end FieldCodec

/-! ## Records that carry no hook -/

theorem ignoresHooks_tagIdentity : (tagIdentityShape.codec default).IgnoresHooks := by
  apply RecordShape.ignoresHooks_codec
  intro m hm
  simp only [tagIdentityShape, RecordShape.flat, List.mem_cons, List.not_mem_nil, or_false] at hm
  rcases hm with rfl | rfl
  · exact FieldCodec.ignoresHooks_tagId.required _ _
  · exact FieldCodec.ignoresHooks_uint64.optional _ _

theorem ignoresHooks_linkedTag : (linkedTagShape.codec default).IgnoresHooks := by
  apply RecordShape.ignoresHooks_codec
  intro m hm
  simp only [linkedTagShape, RecordShape.flat, List.mem_cons, List.not_mem_nil, or_false] at hm
  rcases hm with rfl | rfl
  · exact FieldCodec.ignoresHooks_tagId.required _ _
  · exact FieldCodec.ignoresHooks_code.required _ _

theorem ignoresHooks_envClass : (envClassShape.codec default).IgnoresHooks := by
  apply RecordShape.ignoresHooks_codec
  intro m hm
  simp only [envClassShape, RecordShape.flat, List.mem_cons, List.not_mem_nil, or_false] at hm
  rcases hm with rfl | rfl | rfl | rfl | rfl
  · exact FieldCodec.ignoresHooks_choice.optional _ _
  · exact FieldCodec.ignoresHooks_string.optional _ _
  · exact FieldCodec.ignoresHooks_string.optional _ _
  · exact FieldCodec.ignoresHooks_uint64.optional _ _
  · exact FieldCodec.ignoresHooks_uint64.optional _ _

theorem ignoresHooks_environment : (environmentShape.codec default).IgnoresHooks := by
  apply RecordShape.ignoresHooks_codec
  intro m hm
  simp only [environmentShape, RecordShape.flat, List.mem_cons, List.not_mem_nil, or_false] at hm
  rcases hm with rfl | rfl | rfl
  · exact ignoresHooks_envClass.optional _ _
  · exact FieldCodec.ignoresHooks_choice.optional _ _
  · exact FieldCodec.ignoresHooks_choice.optional _ _

theorem ignoresHooks_keyTriple : (keyTripleShape.codec default).IgnoresHooks := by
  apply RecordShape.ignoresHooks_codec
  intro m hm
  simp only [keyTripleShape, RecordShape.flat, List.mem_cons, List.not_mem_nil, or_false] at hm
  rcases hm with rfl | rfl
  · exact ignoresHooks_environment.required _ _
  · exact FieldCodec.ignoresHooks_choice.list.required _ _

theorem identityShape_ignoresHooks {m : Member EntityIdentity} (hm : m ∈ identityShape.members) :
    m.IgnoresHooks := by
  simp only [identityShape, RecordShape.flat, List.mem_cons, List.not_mem_nil, or_false] at hm
  rcases hm with rfl | rfl
  · exact FieldCodec.ignoresHooks_string.required _ _
  · exact FieldCodec.ignoresHooks_string.optional _ _

/-! ## Records with slots

A record is read from a blank one, and a blank one is grafted by attaching the hooks to it. -/

section

variable {f : Format} {catalogs : Catalogs} {h : HookSource}

/-- The hook of an entity is grafted onto what is read without it. -/
theorem Entity.grafts (hfits : h.Fits) (hrest : h.bundle.AtRest) :
    FieldCodec.entity.Grafts f catalogs h (fun e => e.hook = none) h.graft := by
  refine RecordShape.grafts_extended (fun m hm => ?_) (fun _ hnone => hnone)
    (fun _ => HookSource.slotFor_atRest hrest _) rfl ?_
  · rcases List.mem_append.1 hm with hm | hm
    · obtain ⟨own, hown, rfl⟩ := List.mem_map.1 hm
      exact Member.grafts_embedded (identityShape_ignoresHooks hown).grafts (fun _ => rfl)
        fun _ _ hnone => ⟨hnone, rfl⟩
    · obtain rfl := List.mem_singleton.1 hm
      exact Member.grafts_required_of_ignores FieldCodec.ignoresHooks_code.list
        fun _ _ hnone => ⟨hnone, rfl⟩
  · exact hfits.attachOwn_eq (fun _ => by simp [Hookable.kind]) rfl

theorem FlagsMap.grafts (hfits : h.Fits) (hrest : h.bundle.AtRest) :
    (flagsShape.extended default).Grafts f catalogs h (fun m => m.hook = none) h.graft := by
  refine RecordShape.grafts_extended (fun m hm => ?_) (fun _ hnone => hnone)
    (fun _ => HookSource.slotFor_atRest hrest _) rfl ?_
  · obtain ⟨i, -, rfl⟩ := List.mem_map.1 hm
    exact Member.grafts_optional_of_ignores FieldCodec.ignoresHooks_bool
      fun _ _ hnone => ⟨hnone, rfl⟩
  · exact hfits.attachOwn_eq (fun _ => by simp [Hookable.kind]) rfl

theorem Mval.grafts (hfits : h.Fits) (hrest : h.bundle.AtRest) :
    (mvalShape.extended default).Grafts f catalogs h
      (fun v => v.hook = none ∧ ∀ m ∈ v.flags, m.hook = none) (Mval.graft h) := by
  refine RecordShape.grafts_extended (fun m hm => ?_) (fun _ hnone => hnone.1)
    (fun _ => HookSource.slotFor_atRest hrest _) ⟨rfl, fun _ hm => by cases hm⟩ ?_
  · simp only [mvalShape, RecordShape.flat, List.mem_cons, List.not_mem_nil, or_false] at hm
    rcases hm with rfl | rfl | rfl | rfl | rfl | rfl | rfl
    · exact Member.grafts_defaulted_of_ignores FieldCodec.ignoresHooks_digest.list
        fun _ _ hnone => ⟨hnone, rfl⟩
    · exact Member.grafts_optional (FlagsMap.grafts hfits hrest)
        fun _ _ hflags hnone => ⟨⟨hnone.1, hflags⟩, rfl⟩
    · exact Member.grafts_optional_of_ignores FieldCodec.ignoresHooks_bytes
        fun _ _ hnone => ⟨hnone, rfl⟩
    · exact Member.grafts_optional_of_ignores FieldCodec.ignoresHooks_string
        fun _ _ hnone => ⟨hnone, rfl⟩
    · exact Member.grafts_optional_of_ignores FieldCodec.ignoresHooks_ueid
        fun _ _ hnone => ⟨hnone, rfl⟩
    · exact Member.grafts_optional_of_ignores FieldCodec.ignoresHooks_uuid
        fun _ _ hnone => ⟨hnone, rfl⟩
    · exact Member.grafts_optional_of_ignores FieldCodec.ignoresHooks_string
        fun _ _ hnone => ⟨hnone, rfl⟩
  · exact Mval.attach_eq_graft hfits rfl fun _ hm => by cases hm

/-- A measurement has the hooks of its values grafted. -/
theorem Measurement.grafts (hfits : h.Fits) (hrest : h.bundle.AtRest) :
    (measurementShape.holding default).Grafts f catalogs h Measurement.Hookless
      (Measurement.graft h) := by
  refine RecordShape.grafts_holding (fun m hm => ?_) ⟨rfl, fun _ hm => by cases hm⟩ ?_
  · simp only [measurementShape, RecordShape.flat, List.mem_cons, List.not_mem_nil, or_false] at hm
    rcases hm with rfl | rfl | rfl
    · exact Member.grafts_optional_of_ignores FieldCodec.ignoresHooks_choice
        fun _ _ hnone => ⟨hnone, rfl⟩
    · exact Member.grafts_required (Mval.grafts hfits hrest) fun _ _ hnone _ => ⟨hnone, rfl⟩
    · exact Member.grafts_defaulted_of_ignores FieldCodec.ignoresHooks_choice.list
        fun _ _ hnone => ⟨hnone, rfl⟩
  · exact Measurement.attach_eq_graft hfits ⟨rfl, fun _ hm => by cases hm⟩

/-- A triple has the hooks of its measurements grafted. -/
theorem ValueTriple.grafts (hfits : h.Fits) (hrest : h.bundle.AtRest) :
    (valueTripleShape.holding default).Grafts f catalogs h ValueTriple.Hookless
      (ValueTriple.graft h) := by
  refine RecordShape.grafts_holding (fun m hm => ?_) (fun _ hm => by cases hm) ?_
  · simp only [valueTripleShape, RecordShape.flat, List.mem_cons, List.not_mem_nil, or_false] at hm
    rcases hm with rfl | rfl
    · exact Member.grafts_required_of_ignores ignoresHooks_environment
        fun _ _ hnone => ⟨hnone, rfl⟩
    · exact Member.grafts_required (FieldCodec.grafts_list (Measurement.grafts hfits hrest))
        fun _ _ hnone _ => ⟨hnone, rfl⟩
  · exact ValueTriple.attach_eq_graft hfits fun _ hm => by cases hm

end

section

variable {f : Format} {catalogs : Catalogs} {b : Bundle}

/-- Triples have the hooks of their parts grafted.  The endorsed values are read under other
stand-ins, and grafted under the same ones. -/
theorem Triples.grafts (hfits : b.Fits) (hrest : b.AtRest) :
    (triplesShape.extended default).Grafts f catalogs ⟨b, []⟩
      (fun t => t.hook = none ∧ (∀ v ∈ t.referenceValues, v.Hookless) ∧
        ∀ v ∈ t.endorsedValues, v.Hookless) (Triples.graft ⟨b, []⟩) := by
  refine RecordShape.grafts_extended (fun m hm => ?_) (fun _ hnone => hnone.1)
    (fun _ => HookSource.slotFor_atRest hrest _) (Triples.hooks_eq_nil_iff.1 rfl)
    (Triples.attach_eq_graft hfits rfl)
  simp only [triplesShape, RecordShape.flat, List.mem_cons, List.not_mem_nil, or_false] at hm
  rcases hm with rfl | rfl | rfl | rfl
  · exact Member.grafts_defaulted
      (FieldCodec.grafts_list (ValueTriple.grafts (HookSource.fits_nil hfits) hrest))
      ⟨List.forall_mem_nil _, rfl⟩
      fun _ _ hvalues hnone => ⟨⟨hnone.1, hvalues, hnone.2.2⟩, rfl⟩
  · exact Member.grafts_defaulted
      (FieldCodec.grafts_under
        (FieldCodec.grafts_list (ValueTriple.grafts (HookSource.fits_endorsed hfits) hrest)))
      ⟨List.forall_mem_nil _, rfl⟩
      fun _ _ hvalues hnone => ⟨⟨hnone.1, hnone.2.1, hvalues⟩, rfl⟩
  · exact Member.grafts_defaulted_of_ignores ignoresHooks_keyTriple.list
      fun _ _ hnone => ⟨hnone, rfl⟩
  · exact Member.grafts_defaulted_of_ignores ignoresHooks_keyTriple.list
      fun _ _ hnone => ⟨hnone, rfl⟩

/-- Each field of a module identifier has its hooks grafted. -/
theorem comidShape_grafts (hfits : b.Fits) (hrest : b.AtRest) {m : Member Comid}
    (hm : m ∈ comidShape.members) :
    m.Grafts f catalogs ⟨b, []⟩ (fun d => Slotted.hooks d = []) (Comid.graft ⟨b, []⟩) := by
  simp only [comidShape, RecordShape.flat, List.mem_cons, List.not_mem_nil, or_false] at hm
  rcases hm with rfl | rfl | rfl | rfl | rfl
  · exact Member.grafts_optional_of_ignores FieldCodec.ignoresHooks_string
      fun _ _ hnone => ⟨hnone, rfl⟩
  · exact Member.grafts_required_of_ignores ignoresHooks_tagIdentity
      fun _ _ hnone => ⟨hnone, rfl⟩
  · refine Member.grafts_defaulted
      (FieldCodec.grafts_list (Entity.grafts (HookSource.fits_nil hfits) hrest))
      ⟨List.forall_mem_nil _, rfl⟩ fun entities d hentities hnone => ⟨?_, rfl⟩
    obtain ⟨hslot, -, htriples⟩ := Comid.hooks_eq_nil_iff.1 hnone
    exact Comid.hooks_eq_nil_iff.2 ⟨hslot, hentities, htriples⟩
  · exact Member.grafts_defaulted_of_ignores ignoresHooks_linkedTag.list
      fun _ _ hnone => ⟨hnone, rfl⟩
  · refine Member.grafts_required (Triples.grafts hfits hrest)
      fun triples d htriples hnone => ⟨?_, rfl⟩
    obtain ⟨hslot, hentities, -⟩ := Comid.hooks_eq_nil_iff.1 hnone
    exact Comid.hooks_eq_nil_iff.2 ⟨hslot, hentities, Triples.hooks_eq_nil_iff.2 htriples⟩

/-- A module identifier that can be read without hooks is read with a bundle at rest as itself with
the bundle grafted onto it. -/
theorem Comid.decodeAttached_grafts (hfits : b.Fits) (hrest : b.AtRest) {d : Comid} {v : Raw f}
    (hread : comidShape.decodeAttached f ⟨catalogs, none⟩ default v = .ok d) :
    Slotted.hooks d = [] ∧ comidShape.decodeAttached f ⟨catalogs, some ⟨b, []⟩⟩
      (Comid.graft ⟨b, []⟩ default) v = .ok (d.graft ⟨b, []⟩) :=
  RecordShape.decodeAttached_grafts (fun _ hm => comidShape_grafts hfits hrest hm)
    (fun _ hnone => (Comid.hooks_eq_nil_iff.1 hnone).1)
    (fun _ => HookSource.slotFor_atRest hrest _) rfl hread

end

/-! ## Sessions -/

namespace Session

variable {s : Session} {f : Format} {bytes : List UInt8} {d : Comid} {id : ProfileId} {p : Profile}

/-- A fresh module identifier of a profile is a blank one with the hooks of the profile. -/
theorem build_some (hp : s.profiles.named? (some id) = some p) (hfits : p.bundle.Fits) :
    s.build (some id) = .ok (Comid.graft p.hooks default) := by
  have hattach : Comid.attach p.hooks default = ⟨Comid.graft p.hooks default, none⟩ :=
    Comid.attach_eq_graft hfits rfl
  exact (build_eq_ok_iff hp).2 ⟨_, congrArg Attached.toExcept hattach, rfl⟩

/-- A fresh manifest of a profile that fits has the hook of the profile, and holds the profile.  A
blank manifest holds no entities, so its own hook is all that is attached. -/
theorem build_corim {id : Option ProfileId} (hp : s.profiles.named? id = some p)
    (hfits : p.bundle.Fits) :
    s.build id = .ok (Buildable.withProfile p.id (p.hooks.graft (default : Corim))) := by
  have hattach : Corim.attach p.hooks default = ⟨p.hooks.graft (default : Corim), none⟩ := by
    rw [Corim.attach_default]
    exact (HookSource.fits_nil hfits).attachOwn_eq (fun _ => by simp [Hookable.kind]) rfl
  exact (build_eq_ok_iff hp).2 ⟨_, congrArg Attached.toExcept hattach, rfl⟩

/-- What reading under a profile gives, if the bytes can be read without one. -/
theorem decodeComid_graft (hread : s.decodeComid f none bytes = .ok d)
    (hp : s.profiles.named? (some id) = some p) (hfits : p.bundle.Fits)
    (hrest : p.bundle.AtRest) :
    Slotted.hooks d = [] ∧ s.decodeComid f (some id) bytes = .ok (d.graft p.hooks) := by
  obtain ⟨v, hparse, hread⟩ := exists_of_bind_eq_ok hread
  obtain ⟨hnone, hgraft⟩ := Comid.decodeAttached_grafts hfits hrest (Error.of_lift hread)
  refine ⟨hnone, ?_⟩
  unfold decodeComid
  rw [build_some hp hfits, context_some hp]
  show (s.parse f bytes).bind _ = _
  rw [hparse]
  show Error.lift .record _ = _
  rw [Profile.hooks, hgraft]
  rfl

/-- Reading under a profile and attaching its hooks afterwards come to the same: bytes that can be
read without a profile can be read under one whose hooks fit and are at rest, and the document is
the one read before with the hooks attached.  Its slots are filled exactly where the profile has a
hook for the point, which is the endorsed-value point for the values among the endorsed ones.  So of
two profiles that differ there only, the documents differ in the endorsed values only, and of two
that differ at the reference-value points only, in the reference values only. -/
theorem decodeComid_attach (hread : s.decodeComid f none bytes = .ok d)
    (hp : s.profiles.named? (some id) = some p) (hfits : p.bundle.Fits)
    (hrest : p.bundle.AtRest) :
    ∃ d', s.decodeComid f (some id) bytes = .ok d' ∧ Comid.attach p.hooks d = ⟨d', none⟩ ∧
      d'.SlotsFollow p.bundle ∧
      ∀ profiles id₁ p₁, ProfileIndex.named? profiles (some id₁) = some p₁ →
        p₁.bundle.Fits → p₁.bundle.AtRest →
        ∃ d₁, { s with profiles }.decodeComid f (some id₁) bytes = .ok d₁ ∧
          ((∀ q, q ∉ [Point.endorsedValue, .endorsedValueFlags] →
              p.bundle.find? q = p₁.bundle.find? q) → d'.withoutEndorsed = d₁.withoutEndorsed) ∧
          ((∀ q, q ∉ [Point.referenceValue, .referenceValueFlags] →
              p.bundle.find? q = p₁.bundle.find? q) →
            d'.withoutReference = d₁.withoutReference) := by
  obtain ⟨hnone, hgraft⟩ := decodeComid_graft hread hp hfits hrest
  refine ⟨_, hgraft, Comid.attach_eq_graft hfits hnone, Comid.slotsFollow_graft hfits d, ?_⟩
  intro profiles id₁ p₁ hp₁ hfits₁ hrest₁
  obtain ⟨-, hgraft₁⟩ := decodeComid_graft (s := { s with profiles }) hread hp₁ hfits₁ hrest₁
  exact ⟨_, hgraft₁, fun h => Comid.graft_congr_endorsed h d,
    fun h => Comid.graft_congr_reference h d⟩

/-- A hook with an optional number. -/
def numberedHook (B : Type) : Hook B where
  typeName := "numbered"
  fields := some [.blank ⟨.optional "number" 100, .unsigned .w64, false⟩]

theorem numberedHook_atRest (B : Type) : Hook.AtRest (numberedHook B) := by
  intro c hc
  obtain rfl := List.mem_singleton.1 hc
  exact Cell.atRest_blank rfl rfl

/-- Hooks for module identifiers, for the flags among reference values, and at one more point. -/
def numberedBundle (p : Point) (k : EntityKind) : Bundle :=
  ⟨[⟨.comid, .comid, numberedHook _⟩, ⟨p, k, numberedHook _⟩,
    ⟨.referenceValueFlags, .flags, numberedHook _⟩]⟩

/-- A hook of numbers fits where its point is declared. -/
theorem numberedBundle_fits {p : Point} {k : EntityKind} (hk : k.OfDocument)
    (hp : k.admits p = true) : (numberedBundle p k).Fits := by
  intro e he
  simp only [numberedBundle, List.mem_cons, List.not_mem_nil, or_false] at he
  rcases he with rfl | rfl | rfl
  · exact ⟨fun _ => by simp, rfl⟩
  · exact ⟨hk, hp⟩
  · exact ⟨fun _ => by simp, rfl⟩

/-- It holds no values before it is read. -/
theorem numberedBundle_atRest (p : Point) (k : EntityKind) : (numberedBundle p k).AtRest := by
  intro e he
  simp only [numberedBundle, List.mem_cons, List.not_mem_nil, or_false] at he
  rcases he with rfl | rfl | rfl <;> exact numberedHook_atRest _

/-- A session that knows two profiles, which differ at the endorsed-value points only. -/
def endorsingSession : Session where
  profiles := ⟨[⟨.oid ⟨[2, 999, 3]⟩, numberedBundle .endorsedValue .mval⟩,
    ⟨.oid ⟨[2, 999, 4]⟩, numberedBundle .endorsedValueFlags .flags⟩]⟩

/-- The binary form of a module identifier with an entity, a reference value and an endorsed one,
both with flags. -/
def valuedBytes : List UInt8 :=
  [163, 1, 161, 0, 97, 116, 2, 129, 162, 0, 97, 65, 2, 129, 1, 4, 162,
    0, 129, 130, 161, 0, 161, 1, 97, 118, 129, 161, 1, 162, 3, 161, 0, 245, 11, 97, 110,
    1, 129, 130, 161, 0, 161, 1, 97, 118, 129, 161, 1, 162, 3, 161, 0, 245, 11, 97, 110]

/-- These bytes are read without a profile, whatever profiles a session knows. -/
theorem exists_decodeComid_valuedBytes (profiles : ProfileIndex) :
    ∃ d, decodeComid { profiles } .cbor none valuedBytes = .ok d := by
  obtain ⟨d, hread, -⟩ := exists_of_any_toOption
    (show (decodeComid {} .cbor none valuedBytes).toOption.any (fun _ => true) = true by
      decide +kernel)
  exact ⟨d, hread⟩

theorem decodeComid_attach_endorsing :
    ∃ d d' d₁, endorsingSession.decodeComid .cbor none valuedBytes = .ok d ∧
      endorsingSession.decodeComid .cbor (some (.oid ⟨[2, 999, 3]⟩)) valuedBytes = .ok d' ∧
      Comid.attach ⟨numberedBundle .endorsedValue .mval, []⟩ d = ⟨d', none⟩ ∧
      endorsingSession.decodeComid .cbor (some (.oid ⟨[2, 999, 4]⟩)) valuedBytes = .ok d₁ ∧
      d'.hook.isSome = true ∧ d'.withoutEndorsed = d₁.withoutEndorsed := by
  obtain ⟨d, hread⟩ := exists_decodeComid_valuedBytes endorsingSession.profiles
  have hvalues : endorsingSession.profiles.named? (some (.oid ⟨[2, 999, 3]⟩)) =
      some ⟨.oid ⟨[2, 999, 3]⟩, numberedBundle .endorsedValue .mval⟩ := rfl
  have hflags : endorsingSession.profiles.named? (some (.oid ⟨[2, 999, 4]⟩)) =
      some ⟨.oid ⟨[2, 999, 4]⟩, numberedBundle .endorsedValueFlags .flags⟩ := rfl
  obtain ⟨d', hread', hattach, hfollow, hother⟩ := decodeComid_attach hread hvalues
    (numberedBundle_fits (fun _ => by simp) rfl) (numberedBundle_atRest _ _)
  obtain ⟨d₁, hread₁, hendorsed, -⟩ := hother endorsingSession.profiles _ _ hflags
    (numberedBundle_fits (fun _ => by simp) rfl) (numberedBundle_atRest _ _)
  refine ⟨d, d', d₁, hread, hread', hattach, hread₁, hfollow.own, hendorsed fun q hq => ?_⟩
  obtain ⟨hvalue, hflag⟩ : ¬ q = .endorsedValue ∧ ¬ q = .endorsedValueFlags := by simpa using hq
  simp [Bundle.find?, numberedBundle, List.find?_cons, beq_eq_false_iff_ne.2 (Ne.symm hvalue),
    beq_eq_false_iff_ne.2 (Ne.symm hflag)]

/-- A hook for entities that are part of no document and have the point of module identifiers. -/
def foreignBundle : Bundle := ⟨[⟨.comid, .other .comid, .inert⟩]⟩

/-- A session that knows a profile with that hook. -/
def foreignSession : Session where
  profiles := ⟨[⟨.oid ⟨[2, 999, 3]⟩, foreignBundle⟩]⟩

/-- A hook with an optional number that is zero where it is absent. -/
def countedBundle : Bundle :=
  ⟨[⟨.comid, .comid, {
    typeName := "counted"
    fields := some [.blank ⟨.optional "count" 100, .unsigned .w64, true⟩] }⟩]⟩

/-- A session that knows a profile with that hook. -/
def countedSession : Session where
  profiles := ⟨[⟨.oid ⟨[2, 999, 3]⟩, countedBundle⟩]⟩

/-- A hook for entities of no document is registered at the point of module identifiers, and its
profile refuses every module identifier.  A hook field with a default has a value after reading,
which attaching the hook afterwards does not give it. -/
theorem decodeComid_attach_differ :
    (Bundle.empty.addAt (.other .comid) .comid .inert = .ok foreignBundle ∧
      Session.addProfile {} (.oid ⟨[2, 999, 3]⟩) foreignBundle = .ok foreignSession ∧
      ∃ d, foreignSession.decodeComid .cbor none valuedBytes = .ok d ∧
        foreignSession.decodeComid .cbor (some (.oid ⟨[2, 999, 3]⟩)) valuedBytes =
          .error (.attach (.wrongKind .comid))) ∧
    Session.addProfile {} (.oid ⟨[2, 999, 3]⟩) countedBundle = .ok countedSession ∧
      ∃ d d' d'', countedSession.decodeComid .cbor none valuedBytes = .ok d ∧
        countedSession.decodeComid .cbor (some (.oid ⟨[2, 999, 3]⟩)) valuedBytes = .ok d' ∧
        Comid.attach ⟨countedBundle, []⟩ d = ⟨d'', none⟩ ∧ (d' == d'') = false := by
  refine ⟨⟨rfl, rfl, ?_⟩, rfl, ?_⟩
  · obtain ⟨d, hread⟩ := exists_decodeComid_valuedBytes foreignSession.profiles
    exact ⟨d, hread, rfl⟩
  · obtain ⟨d, hread, hd⟩ := exists_of_any_toOption
      (show (countedSession.decodeComid .cbor none valuedBytes).toOption.any (fun d =>
        (countedSession.decodeComid .cbor (some (.oid ⟨[2, 999, 3]⟩)) valuedBytes).toOption.any
          fun d' => (Comid.attach ⟨countedBundle, []⟩ d).refusal.isNone &&
            !(d' == (Comid.attach ⟨countedBundle, []⟩ d).entity)) = true by decide +kernel)
    obtain ⟨d', hread', hd'⟩ := exists_of_any_toOption hd
    obtain ⟨hattach, hdiffer⟩ := Bool.and_eq_true_iff.1 hd'
    refine ⟨d, d', (Comid.attach ⟨countedBundle, []⟩ d).entity, hread, hread', ?_, ?_⟩
    · exact congrArg (Attached.mk _) (Option.isNone_iff_eq_none.1 hattach)
    · simpa using hdiffer

end Session

end Rim
