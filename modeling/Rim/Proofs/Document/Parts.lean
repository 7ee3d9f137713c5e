import Rim.Proofs.Document.Grafting
import Rim.Proofs.Record.Law
import Rim.Proofs.Record.Ordinary
/-!
# What documents have from their parts

A property that is handed on from fields to records, also to those that carry a hook, is one of all
documents.  Where a record type has hooks to be attached, the property may rely on a blank record
not being refused them.

## Main definitions

* `ReadingLaw`: a property of codecs and of members that records have from their members.

## Main results

* `ReadingLaw.member_comidShape`, `ReadingLaw.member_corimShape`: the members of documents have it.
-/

namespace Rim

/-- A property of codecs and of members that record types have from their members, with hooks that
fit never being refused. -/
structure ReadingLaw extends MemberLaw where
  record : ∀ {R : Type} {s : RecordShape R} {blank : R}, (∀ m ∈ s.members, member m) →
    codec (s.codec blank)
  holding : ∀ {R : Type} [Attachable R] {s : RecordShape R} {blank : R},
    (∀ m ∈ s.members, member m) →
    (∀ cx : Context, cx.Fits → ∃ r, cx.attach blank = .ok r) → codec (s.holding blank)
  extended : ∀ {E : Type} [Hookable E] [Attachable E] {s : RecordShape E} {blank : E},
    (∀ m ∈ s.members, member m) →
    (∀ cx : Context, cx.Fits → ∃ e, cx.attach blank = .ok e) → codec (s.extended blank)

namespace ReadingLaw

variable (L : ReadingLaw)

/-! ## Records without a slot -/

theorem codec_tagIdentity : L.codec (tagIdentityShape.codec default) := by
  apply L.record
  intro m hm
  simp only [tagIdentityShape, RecordShape.flat, List.mem_cons, List.not_mem_nil, or_false] at hm
  rcases hm with rfl | rfl
  · exact L.required L.tagId
  · exact L.optional L.uint64

theorem codec_linkedTag : L.codec (linkedTagShape.codec default) := by
  apply L.record
  intro m hm
  simp only [linkedTagShape, RecordShape.flat, List.mem_cons, List.not_mem_nil, or_false] at hm
  rcases hm with rfl | rfl
  · exact L.required L.tagId
  · exact L.required L.code

theorem codec_envClass : L.codec (envClassShape.codec default) := by
  apply L.record
  intro m hm
  simp only [envClassShape, RecordShape.flat, List.mem_cons, List.not_mem_nil, or_false] at hm
  rcases hm with rfl | rfl | rfl | rfl | rfl
  · exact L.optional (L.choice .classId)
  · exact L.optional L.string
  · exact L.optional L.string
  · exact L.optional L.uint64
  · exact L.optional L.uint64

/-- Environments are read by the law. -/
theorem codec_environment : L.codec (environmentShape.codec default) := by
  apply L.record
  intro m hm
  simp only [environmentShape, RecordShape.flat, List.mem_cons, List.not_mem_nil, or_false] at hm
  rcases hm with rfl | rfl | rfl
  · exact L.optional L.codec_envClass
  · exact L.optional (L.choice .instanceId)
  · exact L.optional (L.choice .groupId)

theorem codec_keyTriple : L.codec (keyTripleShape.codec default) := by
  apply L.record
  intro m hm
  simp only [keyTripleShape, RecordShape.flat, List.mem_cons, List.not_mem_nil, or_false] at hm
  rcases hm with rfl | rfl
  · exact L.required L.codec_environment
  · exact L.required (L.list (L.choice .cryptoKey))

/-! ## Records with slots -/

theorem codec_entity : L.codec FieldCodec.entity :=
  L.extended (fun _ hm => L.member_entityShape hm)
    fun _ hfits => EntityOf.exists_attach hfits

theorem codec_flags : L.codec (flagsShape.extended default) := by
  refine L.extended (fun m hm => ?_) fun cx hfits => ?_
  · obtain ⟨i, -, rfl⟩ := List.mem_map.1 hm
    exact L.optional L.bool
  · exact hfits.exists_attach (fun _ => by simp [Hookable.kind]) rfl fun _ => rfl

theorem codec_mval : L.codec (mvalShape.extended default) := by
  refine L.extended (fun m hm => ?_) fun cx hfits => ?_
  · simp only [mvalShape, RecordShape.flat, List.mem_cons, List.not_mem_nil, or_false] at hm
    rcases hm with rfl | rfl | rfl | rfl | rfl | rfl | rfl
    · exact L.defaulted (L.list L.digest)
    · exact L.optional L.codec_flags
    · exact L.optional L.bytes
    · exact L.optional L.string
    · exact L.optional L.ueid
    · exact L.optional L.uuid
    · exact L.optional L.string
  · exact hfits.exists_attach (fun _ => by simp [Hookable.kind]) rfl Mval.attach_default

/-- Measurements are read by the law.  The values a blank one holds are blank, and have their hook
attached with it. -/
theorem codec_measurement : L.codec (measurementShape.holding default) := by
  refine L.holding (fun m hm => ?_) fun cx hfits => ?_
  · simp only [measurementShape, RecordShape.flat, List.mem_cons, List.not_mem_nil, or_false] at hm
    rcases hm with rfl | rfl | rfl
    · exact L.optional (L.choice .mkey)
    · exact L.required L.codec_mval
    · exact L.defaulted (L.list (L.choice .cryptoKey))
  · unfold Context.attach
    cases hhooks : cx.hooks with
    | none => exact ⟨default, rfl⟩
    | some h =>
      dsimp only
      rw [Measurement.attach_eq_graft (hfits h hhooks) ⟨rfl, fun _ hm => by cases hm⟩]
      exact ⟨_, rfl⟩

theorem codec_valueTriple : L.codec (valueTripleShape.holding default) := by
  refine L.holding (fun m hm => ?_) fun cx _ => ?_
  · simp only [valueTripleShape, RecordShape.flat, List.mem_cons, List.not_mem_nil, or_false] at hm
    rcases hm with rfl | rfl
    · exact L.required L.codec_environment
    · exact L.required (L.list L.codec_measurement)
  · exact ⟨default, ValueTriple.attach_default cx⟩

/-- Triples are read by the law.  The points that stand in under the endorsed values are for the
same kinds. -/
theorem codec_triples : L.codec (triplesShape.extended default) := by
  refine L.extended (fun m hm => ?_) fun cx hfits => ?_
  · simp only [triplesShape, RecordShape.flat, List.mem_cons, List.not_mem_nil, or_false] at hm
    rcases hm with rfl | rfl | rfl | rfl
    · exact L.defaulted (L.list L.codec_valueTriple)
    · exact L.defaulted (L.endorsed (L.list L.codec_valueTriple))
    · exact L.defaulted (L.list L.codec_keyTriple)
    · exact L.defaulted (L.list L.codec_keyTriple)
  · exact hfits.exists_attach (fun _ => by simp [Hookable.kind]) rfl Triples.attach_default

theorem codec_corimEntity : L.codec (corimEntityShape.extended default) := by
  refine L.extended (fun m hm => ?_) fun cx hfits => ?_
  · rcases List.mem_append.1 hm with hm | hm
    · obtain ⟨own, hown, rfl⟩ := List.mem_map.1 hm
      exact L.embedded (L.member_identityShape hown)
    · obtain rfl := List.mem_singleton.1 hm
      exact L.required (L.list L.code)
  · exact hfits.exists_attach (fun _ => by simp [Hookable.kind]) rfl fun _ => rfl

/-- What is read of a module identifier. -/
theorem member_comidShape {m : Member Comid} (hm : m ∈ comidShape.members) :
    L.member m := by
  simp only [comidShape, RecordShape.flat, List.mem_cons, List.not_mem_nil, or_false] at hm
  rcases hm with rfl | rfl | rfl | rfl | rfl
  · exact L.optional L.string
  · exact L.required L.codec_tagIdentity
  · exact L.defaulted (L.list L.codec_entity)
  · exact L.defaulted (L.list L.codec_linkedTag)
  · exact L.required L.codec_triples

/-- What is read of a manifest. -/
theorem member_corimShape {m : Member Corim} (hm : m ∈ corimShape.members) :
    L.member m := by
  simp only [corimShape, RecordShape.flat, List.mem_cons, List.not_mem_nil, or_false] at hm
  rcases hm with rfl | rfl | rfl | rfl
  · exact L.required L.tagId
  · exact L.required (L.list (L.choice .conciseTag))
  · exact L.optional (L.choice .profileId)
  · exact L.defaulted (L.list L.codec_corimEntity)

end ReadingLaw

end Rim
