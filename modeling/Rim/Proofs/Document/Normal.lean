import Rim.Document.Slots
import Rim.Proofs.Basic
import Rim.Proofs.Validity
/-!
# What a document says

Two documents that are written alike say the same.  An optional text or raw value that is empty says
no more than one that is absent, and a role given by the number of a listed one is that one; apart
from this, what a document says is the document itself.

## Main definitions

* `Comid.normalized`, `Corim.normalized`: documents that say it in the one way reading would find.
* `Comid.IsOwn`, `Corim.IsOwn`: documents without variants registered from outside.
* `Comid.KeepsContent`: documents whose classes and measured values say something.

## Main results

* `Comid.hooks_eq_nil_iff`, `Corim.hooks_eq_nil_iff`: documents without hooks.
* `Comid.validate_normalized_iff`: when a valid document is still valid once normalized.
-/

namespace Rim

/-! ## Normal documents -/

/-- An optional text without an empty one. -/
def dropEmpty (text : Option String) : Option String := text.filter fun s => !s.isEmpty

/-- The code that the number of a code stands for. -/
def OpenCode.listed {α : Type} [OpenCode α] (c : α) : α := ofNumber (toNumber c)

/-- The identity of an entity, an empty registration URI left out. -/
def EntityIdentity.normalized (i : EntityIdentity) : EntityIdentity :=
  { i with regId := dropEmpty i.regId }

/-- An entity of a module identifier with listed roles where there are such. -/
def EntityOf.normalized (e : Entity) : Entity :=
  { e with identity := e.identity.normalized, roles := e.roles.map OpenCode.listed }

/-- A class without empty texts. -/
def EnvClass.normalized (c : EnvClass) : EnvClass :=
  { c with vendor := dropEmpty c.vendor, model := dropEmpty c.model }

/-- An environment with its class normalized. -/
def Environment.normalized (e : Environment) : Environment :=
  { e with envClass := e.envClass.map EnvClass.normalized }

/-- Measured values without empty texts and without an empty raw value. -/
def Mval.normalized (v : Mval) : Mval :=
  { v with
    rawValue := v.rawValue.filter fun b => !b.isEmpty
    serialNumber := dropEmpty v.serialNumber
    name := dropEmpty v.name }

/-- A measurement with its values normalized. -/
def Measurement.normalized (m : Measurement) : Measurement := { m with value := m.value.normalized }

/-- A triple with all it holds normalized. -/
def ValueTriple.normalized (t : ValueTriple) : ValueTriple where
  environment := t.environment.normalized
  measurements := t.measurements.map Measurement.normalized

/-- Keys of a normalized environment. -/
def KeyTriple.normalized (t : KeyTriple) : KeyTriple :=
  { t with environment := t.environment.normalized }

/-- Triples of all sorts, each normalized. -/
def Triples.normalized (t : Triples) : Triples :=
  { t with
    referenceValues := t.referenceValues.map ValueTriple.normalized
    endorsedValues := t.endorsedValues.map ValueTriple.normalized
    devIdentityKeys := t.devIdentityKeys.map KeyTriple.normalized
    attesterVerificationKeys := t.attesterVerificationKeys.map KeyTriple.normalized }

/-- A module identifier with all it holds normalized. -/
def Comid.normalized (d : Comid) : Comid :=
  { d with
    language := dropEmpty d.language
    entities := d.entities.map EntityOf.normalized
    triples := d.triples.normalized }

/-- An entity of a manifest with listed roles where there are such. -/
def CorimEntity.normalized (e : CorimEntity) : CorimEntity :=
  { e with identity := e.identity.normalized, roles := e.roles.map OpenCode.listed }

/-- A manifest with its entities normalized. -/
def Corim.normalized (d : Corim) : Corim :=
  { d with entities := d.entities.map CorimEntity.normalized }

/-! ## Documents of own variants -/

/-- A choice is one of its family's own variants. -/
def TypeChoice.IsOwn {T : Type} [TypeChoice T] (x : T) : Prop := isForeign x = false

/-- A class is named by an own variant, if it is. -/
def EnvClass.IsOwn (c : EnvClass) : Prop := ∀ x ∈ c.classId, TypeChoice.IsOwn x

/-- An environment is told by own variants. -/
def Environment.IsOwn (e : Environment) : Prop :=
  (∀ c ∈ e.envClass, c.IsOwn) ∧ (∀ x ∈ e.instanceId, TypeChoice.IsOwn x) ∧
    ∀ x ∈ e.group, TypeChoice.IsOwn x

/-- The key of a measurement and those authorized to vouch for it are own variants. -/
def Measurement.IsOwn (m : Measurement) : Prop :=
  (∀ x ∈ m.key, TypeChoice.IsOwn x) ∧ ∀ x ∈ m.authorizedBy, TypeChoice.IsOwn x

/-- A triple of values holds own variants only. -/
def ValueTriple.IsOwn (t : ValueTriple) : Prop :=
  t.environment.IsOwn ∧ ∀ m ∈ t.measurements, m.IsOwn

/-- A triple of keys holds own variants only. -/
def KeyTriple.IsOwn (t : KeyTriple) : Prop :=
  t.environment.IsOwn ∧ ∀ x ∈ t.verificationKeys, TypeChoice.IsOwn x

/-- Triples of all sorts hold own variants only. -/
def Triples.IsOwn (t : Triples) : Prop :=
  (∀ v ∈ t.referenceValues, v.IsOwn) ∧ (∀ v ∈ t.endorsedValues, v.IsOwn) ∧
    (∀ k ∈ t.devIdentityKeys, k.IsOwn) ∧ ∀ k ∈ t.attesterVerificationKeys, k.IsOwn

/-- A module identifier holds own variants only. -/
def Comid.IsOwn (d : Comid) : Prop := d.triples.IsOwn

/-- A manifest holds own variants only. -/
def Corim.IsOwn (d : Corim) : Prop :=
  (∀ t ∈ d.tags, TypeChoice.IsOwn t) ∧ ∀ p ∈ d.profile, TypeChoice.IsOwn p

/-! ## Documents without hooks -/

/-- Neither the measured values nor their flags carry a hook. -/
def Measurement.Hookless (m : Measurement) : Prop :=
  m.value.hook = none ∧ ∀ flags ∈ m.value.flags, flags.hook = none

/-- No measurement of a triple carries a hook. -/
def ValueTriple.Hookless (t : ValueTriple) : Prop := ∀ m ∈ t.measurements, m.Hookless

theorem PlacedHook.ofSlot_eq_nil_iff {B : Type} {path : SlotPath} {s : Slot B} :
    ofSlot path s = [] ↔ s = none := by
  cases s <;> simp [ofSlot]

/-- A triple has no hooks if none of its measurements has one, for its values or for their flags. -/
theorem ValueTriple.hooks_eq_nil_iff {side : ValueSide} {i : Nat} {t : ValueTriple} :
    t.hooks side i = [] ↔ t.Hookless := by
  apply flatten_mapIdx_eq_nil_iff
  intro j m
  rw [List.append_eq_nil_iff, PlacedHook.ofSlot_eq_nil_iff, PlacedHook.ofSlot_eq_nil_iff]
  cases hflags : m.value.flags <;> simp [Measurement.Hookless, hflags]

/-- Triples have no hooks if none of their parts has one. -/
theorem Triples.hooks_eq_nil_iff {t : Triples} :
    t.hooks = [] ↔ t.hook = none ∧ (∀ v ∈ t.referenceValues, v.Hookless) ∧
      ∀ v ∈ t.endorsedValues, v.Hookless := by
  unfold hooks
  rw [List.append_eq_nil_iff, List.append_eq_nil_iff, PlacedHook.ofSlot_eq_nil_iff, and_assoc]
  refine and_congr .rfl (and_congr ?_ ?_)
  all_goals
    apply flatten_mapIdx_eq_nil_iff
    intro i v
    exact ValueTriple.hooks_eq_nil_iff

/-- A module identifier has no hooks if none of its parts has one. -/
theorem Comid.hooks_eq_nil_iff {d : Comid} :
    Slotted.hooks d = [] ↔ d.hook = none ∧ (∀ e ∈ d.entities, e.hook = none) ∧
      d.triples.hooks = [] := by
  show _ ++ _ ++ _ = [] ↔ _
  rw [List.append_eq_nil_iff, List.append_eq_nil_iff, PlacedHook.ofSlot_eq_nil_iff, and_assoc]
  refine and_congr .rfl (and_congr (flatten_mapIdx_eq_nil_iff ?_) .rfl)
  intro i e
  exact PlacedHook.ofSlot_eq_nil_iff

/-- A manifest has no hooks if none of its parts has one. -/
theorem Corim.hooks_eq_nil_iff {d : Corim} :
    Slotted.hooks d = [] ↔ d.hook = none ∧ ∀ e ∈ d.entities, e.hook = none := by
  show _ ++ _ = [] ↔ _
  rw [List.append_eq_nil_iff, PlacedHook.ofSlot_eq_nil_iff]
  refine and_congr .rfl (flatten_mapIdx_eq_nil_iff ?_)
  intro i e
  exact PlacedHook.ofSlot_eq_nil_iff

/-! ## Valid normal documents

A record that only says something through empty texts is valid, and says nothing once it is
normalized.  This can happen to classes and to measured values; every other condition of validity
holds of the normal form if it holds of the document. -/

/-- A class says something beside empty texts. -/
def EnvClass.KeepsContent (c : EnvClass) : Prop := c.normalized.isEmpty = false

/-- The class of an environment says something beside empty texts. -/
def Environment.KeepsContent (e : Environment) : Prop := ∀ c ∈ e.envClass, c.KeepsContent

/-- Measured values carry data beside empty texts and an empty raw value. -/
def Mval.KeepsContent (v : Mval) : Prop := v.normalized.isVacant = false

/-- The environment and the measurements of a triple say something. -/
def ValueTriple.KeepsContent (t : ValueTriple) : Prop :=
  t.environment.KeepsContent ∧ ∀ m ∈ t.measurements, m.value.KeepsContent

/-- The environment of a triple of keys says something. -/
def KeyTriple.KeepsContent (t : KeyTriple) : Prop := t.environment.KeepsContent

/-- Every class and all measured values among triples say something. -/
def Triples.KeepsContent (t : Triples) : Prop :=
  (∀ v ∈ t.referenceValues, v.KeepsContent) ∧ (∀ v ∈ t.endorsedValues, v.KeepsContent) ∧
    (∀ k ∈ t.devIdentityKeys, k.KeepsContent) ∧ ∀ k ∈ t.attesterVerificationKeys, k.KeepsContent

/-- Every class and all measured values of a module identifier say something beside empty texts and
empty raw values. -/
def Comid.KeepsContent (d : Comid) : Prop := d.triples.KeepsContent

section

open Validate

theorem Slot.validity_of_none {B : Type} {s : Slot B} (h : s = none) (body : B) :
    Slot.validity s body = .ok () := by
  rw [h]
  rfl

/-- Normalizing keeps an entity valid. -/
theorem EntityOf.validate_normalized {e : Entity} (hnone : e.hook = none)
    (h : validate e = .ok ()) : validate e.normalized = .ok () := by
  obtain ⟨hidentity, hroles, -⟩ := EntityOf.validate_eq_ok_iff.1 h
  obtain ⟨hname, huri⟩ := EntityIdentity.validate_eq_ok_iff.1 hidentity
  refine EntityOf.validate_eq_ok_iff.2 ⟨EntityIdentity.validate_eq_ok_iff.2 ⟨hname, ?_⟩, ?_, ?_⟩
  · intro uri hmem
    exact huri uri (Option.filter_eq_some_iff.1 hmem).1
  · show e.roles.map OpenCode.listed ≠ []
    rw [ne_eq, List.map_eq_nil_iff]
    exact hroles
  · exact Slot.validity_of_none hnone _

/-- A class stays valid if it says something beside empty texts. -/
theorem EnvClass.validate_normalized_iff {c : EnvClass} (h : validate c = .ok ()) :
    validate c.normalized = .ok () ↔ c.KeepsContent := by
  rw [EnvClass.validate_eq_ok_iff]
  exact and_iff_left (EnvClass.validate_eq_ok_iff.1 h).2

/-- An environment stays valid if its class does.  Normalizing keeps the class, though it may leave
nothing in it. -/
theorem Environment.validate_normalized_iff {e : Environment} (h : validate e = .ok ()) :
    validate e.normalized = .ok () ↔ e.KeepsContent := by
  obtain ⟨hempty, hclass, hrest⟩ := Environment.validate_eq_ok_iff.1 h
  have hkeep : e.normalized.isEmpty = false := by
    unfold isEmpty normalized
    rw [Option.isNone_map]
    exact hempty
  rw [Environment.validate_eq_ok_iff]
  constructor
  · rintro ⟨-, hall, -⟩ c hc
    exact (EnvClass.validate_normalized_iff (hclass c hc)).1
      (hall _ (Option.mem_map_of_mem EnvClass.normalized hc))
  · intro hall
    refine ⟨hkeep, ?_, hrest⟩
    intro c' hc'
    obtain ⟨c, hc, rfl⟩ := Option.map_eq_some_iff.1 hc'
    exact (EnvClass.validate_normalized_iff (hclass c hc)).2 (hall c hc)

/-- Measured values stay valid if they say something beside empty ones. -/
theorem Mval.validate_normalized_iff {v : Mval} (hnone : v.hook = none)
    (h : validate v = .ok ()) : validate v.normalized = .ok () ↔ v.KeepsContent := by
  obtain ⟨-, hdigests, hflags, hueid, huuid, -⟩ := Mval.validate_eq_ok_iff.1 h
  rw [Mval.validate_eq_ok_iff]
  exact and_iff_left ⟨hdigests, hflags, hueid, huuid, Slot.validity_of_none hnone _⟩

/-- A measurement stays valid if its values do. -/
theorem Measurement.validate_normalized_iff {m : Measurement} (hnone : m.Hookless)
    (h : validate m = .ok ()) : validate m.normalized = .ok () ↔ m.value.KeepsContent := by
  obtain ⟨hkey, hvalue, hkeys⟩ := Measurement.validate_eq_ok_iff.1 h
  rw [Measurement.validate_eq_ok_iff, ← Mval.validate_normalized_iff hnone.1 hvalue]
  exact ⟨fun hall => hall.2.1, fun hnormal => ⟨hkey, hnormal, hkeys⟩⟩

/-- A triple of values stays valid if its parts keep their content. -/
theorem ValueTriple.validate_normalized_iff {t : ValueTriple} (hnone : t.Hookless)
    (h : validate t = .ok ()) : validate t.normalized = .ok () ↔ t.KeepsContent := by
  obtain ⟨henvironment, hsome, hmeasurements⟩ := ValueTriple.validate_eq_ok_iff.1 h
  have hsome' : t.normalized.measurements ≠ [] := by
    show t.measurements.map Measurement.normalized ≠ []
    rw [ne_eq, List.map_eq_nil_iff]
    exact hsome
  rw [ValueTriple.validate_eq_ok_iff]
  refine and_congr (Environment.validate_normalized_iff henvironment) ?_
  refine (and_iff_right hsome').trans (forall_mem_map_iff fun m hm => ?_)
  exact Measurement.validate_normalized_iff (hnone m hm) (hmeasurements m hm)

theorem KeyTriple.validate_normalized_iff {t : KeyTriple} (h : validate t = .ok ()) :
    validate t.normalized = .ok () ↔ t.KeepsContent := by
  obtain ⟨henvironment, hrest⟩ := KeyTriple.validate_eq_ok_iff.1 h
  rw [KeyTriple.validate_eq_ok_iff]
  exact (and_iff_left hrest).trans (Environment.validate_normalized_iff henvironment)

/-- Triples stay valid if their parts do.  The lists are as long as before, so the triples still say
something. -/
theorem Triples.validate_normalized_iff {t : Triples} (hnone : t.hooks = [])
    (h : validate t = .ok ()) : validate t.normalized = .ok () ↔ t.KeepsContent := by
  obtain ⟨hslot, hhooksReference, hhooksEndorsed⟩ := Triples.hooks_eq_nil_iff.1 hnone
  obtain ⟨hsome, hreference, hendorsed, hidentity, hattester, -⟩ :=
    Triples.validate_eq_ok_iff.1 h
  have hsome' : (!t.normalized.isEmpty || Slot.holdsValues t.normalized.hook) = true := by
    unfold TriplesBody.isEmpty normalized
    simp only [List.isEmpty_map]
    exact hsome
  rw [Triples.validate_eq_ok_iff]
  refine (and_iff_right hsome').trans ?_
  refine and_congr (forall_mem_map_iff fun v hv =>
    ValueTriple.validate_normalized_iff (hhooksReference v hv) (hreference v hv)) ?_
  refine and_congr (forall_mem_map_iff fun v hv =>
    ValueTriple.validate_normalized_iff (hhooksEndorsed v hv) (hendorsed v hv)) ?_
  refine and_congr (forall_mem_map_iff fun k hk =>
    KeyTriple.validate_normalized_iff (hidentity k hk)) ?_
  refine (and_iff_left (Slot.validity_of_none hslot _)).trans (forall_mem_map_iff fun k hk =>
    KeyTriple.validate_normalized_iff (hattester k hk))

/-- A valid module identifier without hooks is still valid once normalized, exactly if all its
classes and measured values say something beside what normalizing leaves out.  All but the triples
is as valid as before, so the triples decide. -/
theorem Comid.validate_normalized_iff {d : Comid} (hnone : Slotted.hooks d = [])
    (h : validate d = .ok ()) : validate d.normalized = .ok () ↔ d.KeepsContent := by
  obtain ⟨hslot, hslots, hhooks⟩ := Comid.hooks_eq_nil_iff.1 hnone
  obtain ⟨hidentity, hentities, hlinked, htriples, -⟩ := Comid.validate_eq_ok_iff.1 h
  have hentities' : ∀ e ∈ d.normalized.entities, validate e = .ok () := by
    intro e' he'
    obtain ⟨e, he, rfl⟩ := List.mem_map.1 he'
    exact EntityOf.validate_normalized (hslots e he) (hentities e he)
  rw [Comid.validate_eq_ok_iff, KeepsContent, ← Triples.validate_normalized_iff hhooks htriples]
  constructor
  · rintro ⟨-, -, -, hnormal, -⟩
    exact hnormal
  · intro hnormal
    exact ⟨hidentity, hentities', hlinked, hnormal, Slot.validity_of_none hslot _⟩

end

end Rim
