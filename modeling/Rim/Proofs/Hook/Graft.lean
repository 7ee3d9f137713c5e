import Rim.Proofs.Document.Normal
import Rim.Proofs.Record.Reading
/-!
# Hooks grafted onto documents

Attaching a bundle to a document goes from part to part and may be refused on the way.  A bundle
whose hooks fit the points they are registered at is never refused by a document without hooks, and
what comes of it is the document with the hook of its position in every slot.

## Main definitions

* `Bundle.Fits`: every hook is for the kind of entity that its point belongs to.
* `HookSource.slotFor`: what the slot of a kind of entity takes at a position.
* `Comid.graft`: a module identifier with the hook of its position in every slot.
* `Comid.SlotsFollow`: a slot is filled exactly if its point has a hook.

## Main results

* `Comid.attach_eq_graft`: attaching to a module identifier without hooks is grafting.
* `Comid.slotsFollow_graft`: which slots are filled by it.
* `Comid.graft_congr_endorsed`, `Comid.graft_congr_reference`: what depends on which points.
-/

namespace Rim

/-! ## Bundles that fit

The points of documents belong to one kind of entity each.  A hook for an entity that is part of no
document may have been registered at such a point; documents would refuse it. -/

/-- Entities of this kind are parts of documents. -/
def EntityKind.OfDocument (k : EntityKind) : Prop := ∀ p, k ≠ .other p

/-- A point of documents belongs to one kind of entity. -/
theorem EntityKind.eq_of_admits {k k' : EntityKind} {p : Point} (hk : k.OfDocument)
    (hk' : k'.OfDocument) (h : k.admits p = true) (h' : k'.admits p = true) : k = k' := by
  have hmem : p ∈ k.points := by simpa [admits] using h
  have hmem' : p ∈ k'.points := by simpa [admits] using h'
  cases k with
  | other q => exact absurd rfl (hk q)
  | _ =>
    cases k' with
    | other q => exact absurd rfl (hk' q)
    | _ =>
      simp only [points, point, List.mem_cons, List.not_mem_nil, or_false] at hmem hmem'
      rcases hmem with rfl | rfl <;> simp_all [Point.comid, Point.comidEntity, Point.comidTriples,
        Point.referenceValue, Point.referenceValueFlags, Point.endorsedValue,
        Point.endorsedValueFlags, Point.corim, Point.corimEntity]

/-- Every hook is registered for a kind of entity of documents, at a point of that kind. -/
def Bundle.Fits (b : Bundle) : Prop :=
  ∀ e ∈ b.entries, e.kind.OfDocument ∧ e.kind.admits e.point = true

/-- A bundle that fits has a hook for every kind at its points, or none. -/
theorem Bundle.Fits.exists_hookFor {b : Bundle} (h : b.Fits) {k : EntityKind} {p : Point}
    (hk : k.OfDocument) (hp : k.admits p = true) : ∃ slot, b.hookFor k p = .ok slot := by
  unfold hookFor
  cases hfind : b.find? p with
  | none => exact ⟨none, rfl⟩
  | some e =>
    obtain ⟨he, hadmits⟩ := h e (List.mem_of_find?_eq_some hfind)
    have hpoint : e.point = p := by simpa using List.find?_some hfind
    rw [hpoint] at hadmits
    obtain rfl := EntityKind.eq_of_admits he hk hadmits hp
    exact ⟨some e.hook, by simp⟩

/-! ## Positions -/

namespace HookSource

variable {h h' : HookSource} {k : EntityKind}

/-- What an empty slot of an entity of a kind takes at a position. -/
def slotFor (h : HookSource) (k : EntityKind) : Slot k.Body :=
  match h.bundle.hookFor k (h.pointFor k) with
  | .ok slot => slot
  | .error _ => none

/-- Every kind of entities of documents finds at this position a hook that fits, or none. -/
structure Fits (h : HookSource) : Prop where
  bundle : h.bundle.Fits
  points : ∀ k : EntityKind, k.OfDocument → k.admits (h.pointFor k) = true

theorem fits_nil {b : Bundle} (hb : b.Fits) : Fits ⟨b, []⟩ where
  bundle := hb
  points k hk := by
    cases k with
    | other p => exact absurd rfl (hk p)
    | _ => rfl

theorem fits_endorsed {b : Bundle} (hb : b.Fits) : Fits ⟨b, StandIn.endorsed⟩ where
  bundle := hb
  points k hk := by
    cases k with
    | other p => exact absurd rfl (hk p)
    | _ => rfl

/-- A bundle that fits has the hook that its position asks for. -/
theorem Fits.hookFor_eq (hfits : h.Fits) (hk : k.OfDocument) :
    h.bundle.hookFor k (h.pointFor k) = .ok (h.slotFor k) := by
  obtain ⟨slot, hslot⟩ := hfits.bundle.exists_hookFor hk (hfits.points k hk)
  rw [slotFor, hslot]

theorem Fits.isSome_slotFor (hfits : h.Fits) (hk : k.OfDocument) :
    (h.slotFor k).isSome = h.bundle.contains (h.pointFor k) :=
  Bundle.isSome_of_hookFor (hfits.hookFor_eq hk)

/-- What a slot takes is what stands at its point. -/
theorem slotFor_congr (hpoint : h.pointFor k = h'.pointFor k)
    (hfind : h.bundle.find? (h.pointFor k) = h'.bundle.find? (h.pointFor k)) :
    h.slotFor k = h'.slotFor k := by
  unfold slotFor Bundle.hookFor
  rw [← hpoint, hfind]

/-- An entity with the hook of its position in its slot. -/
def graft {E : Type} [Hookable E] (h : HookSource) (e : E) : E :=
  Hookable.withSlot e (h.slotFor (Hookable.kind E))

/-- An empty slot is never refused its hook. -/
theorem Fits.attachOwn_eq {E : Type} [Hookable E] (hfits : h.Fits)
    (hk : (Hookable.kind E).OfDocument) {e : E} (hempty : Hookable.slot e = none) :
    h.attachOwn e = ⟨h.graft e, none⟩ :=
  attachOwn_of_hookFor hempty (hfits.hookFor_eq hk)

end HookSource

/-! ## Documents

The traversals below follow the parts of a document and leave no slot out. -/

/-- Measured values with the hooks of their position. -/
def Mval.graft (h : HookSource) (v : Mval) : Mval :=
  h.graft { v with flags := v.flags.map h.graft }

/-- A measurement with the hooks of its position. -/
def Measurement.graft (h : HookSource) (m : Measurement) : Measurement :=
  { m with value := m.value.graft h }

/-- A triple with the hooks of its position. -/
def ValueTriple.graft (h : HookSource) (t : ValueTriple) : ValueTriple :=
  { t with measurements := t.measurements.map (Measurement.graft h) }

/-- Triples with the hooks of their position, and the endorsed values with those of theirs. -/
def Triples.graft (h : HookSource) (t : Triples) : Triples :=
  h.graft { t with
    referenceValues := t.referenceValues.map (ValueTriple.graft h)
    endorsedValues := t.endorsedValues.map (ValueTriple.graft (h.withStandIns StandIn.endorsed)) }

/-- A module identifier with a hook in every slot whose position has one. -/
def Comid.graft (h : HookSource) (d : Comid) : Comid :=
  h.graft { d with entities := d.entities.map h.graft, triples := d.triples.graft h }

section Attaching

variable {h : HookSource}

theorem Attached.map_of_none {P E : Type} (g : P → E) (p : P) :
    Attached.map g ⟨p, none⟩ = ⟨g p, none⟩ := rfl

theorem Attached.items_eq_map {P : Type} {step : P → Attached P} {g : P → P} {l : List P}
    (hstep : ∀ p ∈ l, step p = ⟨g p, none⟩) : Attached.items step l = ⟨l.map g, none⟩ := by
  induction l with
  | nil => rfl
  | cons p rest ih =>
    obtain ⟨hp, hrest⟩ := List.forall_mem_cons.1 hstep
    rw [Attached.items, hp, ih hrest]
    rfl

/-- Attaching hooks that fit to measured values is grafting them. -/
theorem Mval.attach_eq_graft (hfits : h.Fits) {v : Mval} (hnone : v.hook = none)
    (hflags : ∀ m ∈ v.flags, m.hook = none) : Mval.attach h v = ⟨v.graft h, none⟩ := by
  have hown : h.attachOwn v = ⟨h.graft v, none⟩ :=
    hfits.attachOwn_eq (fun _ => by simp [Hookable.kind]) hnone
  unfold Mval.attach
  rw [hown, Attached.andThen_of_none]
  obtain ⟨⟨digests, flags, rawValue, serialNumber, ueid, uuid, name⟩, hook⟩ := v
  cases flags with
  | none => rfl
  | some m =>
    have hown : h.attachOwn m = ⟨h.graft m, none⟩ :=
      hfits.attachOwn_eq (fun _ => by simp [Hookable.kind]) (hflags m rfl)
    show (h.attachOwn m).map _ = _
    rw [hown]
    rfl

theorem Measurement.attach_eq_graft (hfits : h.Fits) {m : Measurement} (hnone : m.Hookless) :
    Attachable.attach h m = ⟨m.graft h, none⟩ := by
  show (Mval.attach h m.value).map _ = _
  rw [Mval.attach_eq_graft hfits hnone.1 hnone.2]
  rfl

theorem ValueTriple.attach_eq_graft (hfits : h.Fits) {t : ValueTriple} (hnone : t.Hookless) :
    Attachable.attach h t = ⟨t.graft h, none⟩ := by
  show (Attached.items (Attachable.attach h) t.measurements).map _ = _
  rw [Attached.items_eq_map fun m hm => Measurement.attach_eq_graft hfits (hnone m hm)]
  rfl

theorem Triples.attach_eq_graft {b : Bundle} (hfits : b.Fits) {t : Triples} (hnone : t.hooks = []) :
    Triples.attach ⟨b, []⟩ t = ⟨t.graft ⟨b, []⟩, none⟩ := by
  obtain ⟨hslot, hreference, hendorsed⟩ := Triples.hooks_eq_nil_iff.1 hnone
  have hown : (HookSource.mk b []).attachOwn t = ⟨(HookSource.mk b []).graft t, none⟩ :=
    (HookSource.fits_nil hfits).attachOwn_eq (fun _ => by simp [Hookable.kind]) hslot
  have hreferenceStep : ∀ v ∈ t.referenceValues,
      Attachable.attach (HookSource.mk b []) v = ⟨v.graft ⟨b, []⟩, none⟩ := fun v hv =>
    ValueTriple.attach_eq_graft (HookSource.fits_nil hfits) (hreference v hv)
  have hendorsedStep : ∀ v ∈ t.endorsedValues,
      Attachable.attach ((HookSource.mk b []).withStandIns StandIn.endorsed) v =
        ⟨v.graft ((HookSource.mk b []).withStandIns StandIn.endorsed), none⟩ := fun v hv =>
    ValueTriple.attach_eq_graft (HookSource.fits_endorsed hfits) (hendorsed v hv)
  unfold Triples.attach
  rw [hown, Attached.andThen_of_none]
  show ((Attached.items _ t.referenceValues).map _).andThen _ = _
  rw [Attached.items_eq_map hreferenceStep, Attached.map_of_none, Attached.andThen_of_none]
  show (Attached.items _ t.endorsedValues).map _ = _
  rw [Attached.items_eq_map hendorsedStep]
  rfl

/-- Attaching a bundle that fits to a module identifier without hooks is grafting it. -/
theorem Comid.attach_eq_graft {b : Bundle} (hfits : b.Fits) {d : Comid}
    (hnone : Slotted.hooks d = []) : Comid.attach ⟨b, []⟩ d = ⟨d.graft ⟨b, []⟩, none⟩ := by
  obtain ⟨hslot, hentities, htriples⟩ := Comid.hooks_eq_nil_iff.1 hnone
  have hfitsNil := HookSource.fits_nil hfits
  have hown : (HookSource.mk b []).attachOwn d = ⟨(HookSource.mk b []).graft d, none⟩ :=
    hfitsNil.attachOwn_eq (fun _ => by simp [Hookable.kind]) hslot
  have hentity : ∀ e ∈ d.entities,
      Attachable.attach ⟨b, []⟩ e = ⟨(HookSource.mk b []).graft e, none⟩ := fun e he =>
    hfitsNil.attachOwn_eq (fun _ => by simp [Hookable.kind]) (hentities e he)
  unfold Comid.attach
  rw [hown, Attached.andThen_of_none]
  show ((Attached.items _ d.entities).map _).andThen _ = _
  rw [Attached.items_eq_map hentity, Attached.map_of_none, Attached.andThen_of_none]
  show (Triples.attach _ d.triples).map _ = _
  rw [Triples.attach_eq_graft hfits htriples]
  rfl

end Attaching

/-! ## Which slots are filled -/

/-- The slots of measured values and of their flags are filled exactly if their points have
hooks. -/
def ValueTriple.SlotsFollow (b : Bundle) (values flags : Point) (t : ValueTriple) : Prop :=
  ∀ m ∈ t.measurements, m.value.hook.isSome = b.contains values ∧
    ∀ map ∈ m.value.flags, map.hook.isSome = b.contains flags

/-- A slot of a module identifier is filled exactly if the point of its position has a hook. -/
structure Comid.SlotsFollow (b : Bundle) (d : Comid) : Prop where
  own : d.hook.isSome = b.contains .comid
  entities : ∀ e ∈ d.entities, e.hook.isSome = b.contains .comidEntity
  triples : d.triples.hook.isSome = b.contains .comidTriples
  reference : ∀ t ∈ d.triples.referenceValues,
    t.SlotsFollow b .referenceValue .referenceValueFlags
  endorsed : ∀ t ∈ d.triples.endorsedValues, t.SlotsFollow b .endorsedValue .endorsedValueFlags

theorem ValueTriple.slotsFollow_graft {h : HookSource} (hfits : h.Fits) (t : ValueTriple) :
    (t.graft h).SlotsFollow h.bundle (h.pointFor .mval) (h.pointFor .flags) := by
  intro m hm
  obtain ⟨m, -, rfl⟩ := List.mem_map.1 hm
  refine ⟨hfits.isSome_slotFor (by simp [EntityKind.OfDocument]), fun map hmap => ?_⟩
  obtain ⟨map, -, rfl⟩ := Option.map_eq_some_iff.1 hmap
  exact hfits.isSome_slotFor (by simp [EntityKind.OfDocument])

/-- The slots of a grafted module identifier follow the bundle. -/
theorem Comid.slotsFollow_graft {b : Bundle} (hfits : b.Fits) (d : Comid) :
    (d.graft ⟨b, []⟩).SlotsFollow b where
  own := (HookSource.fits_nil hfits).isSome_slotFor (by simp [EntityKind.OfDocument])
  entities e he := by
    obtain ⟨e, -, rfl⟩ := List.mem_map.1 he
    exact (HookSource.fits_nil hfits).isSome_slotFor (by simp [EntityKind.OfDocument])
  triples := (HookSource.fits_nil hfits).isSome_slotFor (by simp [EntityKind.OfDocument])
  reference t ht := by
    obtain ⟨t, -, rfl⟩ := List.mem_map.1 ht
    exact t.slotsFollow_graft (HookSource.fits_nil hfits)
  endorsed t ht := by
    obtain ⟨t, -, rfl⟩ := List.mem_map.1 ht
    exact t.slotsFollow_graft (HookSource.fits_endorsed hfits)

/-! ## What depends on which points

Measured values among the endorsed ones take their hooks from other points than all the rest. -/

section Dependence

/-- Positions at which a kind of entities takes the same hook graft the same onto them. -/
theorem HookSource.graft_congr {E : Type} [Hookable E] {h h' : HookSource}
    (hslot : h.slotFor (Hookable.kind E) = h'.slotFor (Hookable.kind E)) (e : E) :
    h.graft e = h'.graft e :=
  congrArg (Hookable.withSlot e) hslot

theorem ValueTriple.graft_congr {h h' : HookSource} (hmval : h.slotFor .mval = h'.slotFor .mval)
    (hflags : h.slotFor .flags = h'.slotFor .flags) (t : ValueTriple) : t.graft h = t.graft h' := by
  have hmap : (h.graft : FlagsMap → FlagsMap) = h'.graft :=
    funext (HookSource.graft_congr hflags)
  have hmeasurement : Measurement.graft h = Measurement.graft h' := by
    funext m
    unfold Measurement.graft Mval.graft
    rw [hmap, HookSource.graft_congr hmval]
  rw [ValueTriple.graft, ValueTriple.graft, hmeasurement]

/-- Grafting depends on the hooks at the points of triples only. -/
theorem Triples.graft_congr {h h' : HookSource} {t : Triples}
    (hown : h.slotFor .triples = h'.slotFor .triples)
    (hreference : ∀ v ∈ t.referenceValues, v.graft h = v.graft h')
    (hendorsed : ∀ v ∈ t.endorsedValues, v.graft (h.withStandIns StandIn.endorsed) =
      v.graft (h'.withStandIns StandIn.endorsed)) : t.graft h = t.graft h' := by
  unfold Triples.graft
  rw [List.map_congr_left hreference, List.map_congr_left hendorsed, HookSource.graft_congr hown]

/-- Grafting a module identifier depends on the hooks at its points only. -/
theorem Comid.graft_congr {h h' : HookSource} {d : Comid}
    (hown : h.slotFor .comid = h'.slotFor .comid)
    (hentity : h.slotFor .comidEntity = h'.slotFor .comidEntity)
    (htriples : d.triples.graft h = d.triples.graft h') : d.graft h = d.graft h' := by
  have hentities : (h.graft : Entity → Entity) = h'.graft :=
    funext (HookSource.graft_congr hentity)
  unfold Comid.graft
  rw [hentities, htriples, HookSource.graft_congr hown]

/-- A module identifier without its endorsed values. -/
def Comid.withoutEndorsed (d : Comid) : Comid :=
  { d with triples := { d.triples with endorsedValues := [] } }

/-- A module identifier without its reference values. -/
def Comid.withoutReference (d : Comid) : Comid :=
  { d with triples := { d.triples with referenceValues := [] } }

theorem Comid.withoutEndorsed_graft (h : HookSource) (d : Comid) :
    (d.graft h).withoutEndorsed = d.withoutEndorsed.graft h := rfl

theorem Comid.withoutReference_graft (h : HookSource) (d : Comid) :
    (d.graft h).withoutReference = d.withoutReference.graft h := rfl

variable {b b' : Bundle}

/-- The hooks outside the endorsed values do not depend on the endorsed-value points. -/
theorem Comid.graft_congr_endorsed
    (h : ∀ p, p ∉ [Point.endorsedValue, .endorsedValueFlags] → b.find? p = b'.find? p)
    (d : Comid) :
    (d.graft ⟨b, []⟩).withoutEndorsed = (d.graft ⟨b', []⟩).withoutEndorsed := by
  have hslot : ∀ k : EntityKind, k.point ∉ [Point.endorsedValue, .endorsedValueFlags] →
      HookSource.slotFor ⟨b, []⟩ k = HookSource.slotFor ⟨b', []⟩ k := fun k hk =>
    HookSource.slotFor_congr rfl (h k.point hk)
  rw [withoutEndorsed_graft, withoutEndorsed_graft]
  refine graft_congr (hslot .comid (by decide)) (hslot .comidEntity (by decide)) ?_
  refine Triples.graft_congr (hslot .triples (by decide)) (fun v _ => ?_) ?_
  · exact ValueTriple.graft_congr (hslot .mval (by decide)) (hslot .flags (by decide)) v
  · intro v hv
    cases hv

/-- The hooks outside the reference values do not depend on the reference-value points.  Among the
endorsed values other points stand in for the two left out. -/
theorem Comid.graft_congr_reference
    (h : ∀ p, p ∉ [Point.referenceValue, .referenceValueFlags] → b.find? p = b'.find? p)
    (d : Comid) :
    (d.graft ⟨b, []⟩).withoutReference = (d.graft ⟨b', []⟩).withoutReference := by
  have hslot : ∀ k : EntityKind, k.point ∉ [Point.referenceValue, .referenceValueFlags] →
      HookSource.slotFor ⟨b, []⟩ k = HookSource.slotFor ⟨b', []⟩ k := fun k hk =>
    HookSource.slotFor_congr rfl (h k.point hk)
  have hmval : HookSource.slotFor ⟨b, StandIn.endorsed⟩ .mval =
      HookSource.slotFor ⟨b', StandIn.endorsed⟩ .mval :=
    HookSource.slotFor_congr rfl (h .endorsedValue (by decide))
  have hflags : HookSource.slotFor ⟨b, StandIn.endorsed⟩ .flags =
      HookSource.slotFor ⟨b', StandIn.endorsed⟩ .flags :=
    HookSource.slotFor_congr rfl (h .endorsedValueFlags (by decide))
  rw [withoutReference_graft, withoutReference_graft]
  refine graft_congr (hslot .comid (by decide)) (hslot .comidEntity (by decide)) ?_
  refine Triples.graft_congr (hslot .triples (by decide)) ?_ (fun v _ => ?_)
  · intro v hv
    cases hv
  · exact ValueTriple.graft_congr hmval hflags v

end Dependence

end Rim
