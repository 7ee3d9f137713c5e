import Rim.Hook.Rule
import Rim.Proofs.Hook.Settled
/-!
# Hooks without capabilities

A hook may constrain its entity, add fields and own flags.  One that does none of these is inert:
flags, validation and what is written treat a slot that holds it as an empty slot.  A document is
compared with its bare form, which has every inert hook taken out.

A constraint is given the whole body of its entity, and with it the slots of the parts of the body.
That a slot of a part holds an inert hook is no content of the body, so the constraints of hooks
that are there already must not depend on it; those of hooks described by data do not.

## Main definitions

* `HookOf.isInert`: hooks without capabilities; `Slot.bare`: a slot without its inert hook.
* `Comid.bare`, `Corim.bare`: documents without their inert hooks.
* `SlotStep.AttachesInert`: steps that attach inert hooks to some empty slots.
* `Slot.JudgesContent`: slots whose constraint does not depend on inert hooks in the body's parts.

## Main results

* `Comid.bare_mapSlots`, `Corim.bare_mapSlots`: attaching inert hooks keeps the bare form.
* `Hook.judgesContent_described`: constraints described by data judge the content.
* `FlagsMap.get_inert`, `FlagsMap.put_inert`, `FlagsMap.holdsFlag_inert`: flags.
* `Comid.validate_bare`, `Corim.validate_bare`: a document is as valid as its bare form.
* `Comid.validate_mapSlots`, `Corim.validate_mapSlots`: and as valid as with inert hooks attached.
-/

namespace Rim

/-! ## Inert hooks -/

namespace HookOf

variable {B V : Type}

/-- Whether a hook lacks all capabilities. -/
def isInert (h : HookOf B V) : Bool := h.constraint.isNone && h.fields.isNone && h.flags.isNone

/-- An inert hook has no rule, no fields and no flags. -/
theorem isInert_iff {h : HookOf B V} :
    h.isInert = true ↔ h.constraint = none ∧ h.fields = none ∧ h.flags = none := by
  simp only [isInert, Bool.and_eq_true, Option.isNone_iff_eq_none, and_assoc]

end HookOf

namespace Hook

variable {B : Type} {h : Hook B}

theorem cells_of_isInert (hinert : h.isInert = true) : cells h = [] := by
  obtain ⟨-, hfields, -⟩ := HookOf.isInert_iff.1 hinert
  rw [cells, hfields]
  rfl

theorem owner?_of_isInert (hinert : h.isInert = true) (flag : Int64) : owner? h flag = none := by
  obtain ⟨-, -, hflags⟩ := HookOf.isInert_iff.1 hinert
  rw [owner?, hflags]
  rfl

theorem getFlag_of_isInert (hinert : h.isInert = true) (flag : Int64) : getFlag h flag = none := by
  rw [getFlag, owner?_of_isInert hinert]
  rfl

/-- An inert hook keeps no flag. -/
theorem putFlag_of_isInert (hinert : h.isInert = true) (flag : Int64) (value : Option Bool) :
    putFlag h flag value = h := by
  rw [putFlag, owner?_of_isInert hinert]

theorem holdsFlag_of_isInert (hinert : h.isInert = true) : holdsFlag h = false := by
  obtain ⟨-, -, hflags⟩ := HookOf.isInert_iff.1 hinert
  rw [holdsFlag, hflags]

end Hook

/-! ## Bare slots -/

namespace Slot

variable {B : Type}

/-- A slot without its inert hook. -/
def bare (s : Slot B) : Slot B := s.filter fun h => !h.isInert

/-- A slot with an inert hook is bare. -/
theorem bare_of_isInert {h : Hook B} (hinert : h.isInert = true) : bare (some h) = none := by
  simp [bare, hinert]

/-- A slot is bare, or it holds an inert hook and nothing is left of it. -/
theorem bare_eq_or (s : Slot B) :
    bare s = s ∨ ∃ h : Hook B, s = some h ∧ h.isInert = true ∧ bare s = none := by
  cases s with
  | none => exact .inl rfl
  | some h =>
    cases hinert : h.isInert with
    | true => exact .inr ⟨h, rfl, hinert, bare_of_isInert hinert⟩
    | false => exact .inl (by simp [bare, hinert])

theorem holdsFlag_bare (s : Slot B) : holdsFlag (bare s) = holdsFlag s := by
  rcases bare_eq_or s with hbare | ⟨h, rfl, hinert, hbare⟩
  · rw [hbare]
  · rw [hbare]
    exact (Hook.holdsFlag_of_isInert hinert).symm

/-- An inert hook holds no values, so none are lost without it. -/
theorem holdsValues_bare (s : Slot B) : holdsValues (bare s) = holdsValues s := by
  rcases bare_eq_or s with hbare | ⟨h, rfl, hinert, hbare⟩
  · rw [hbare]
  · obtain ⟨-, hfields, -⟩ := HookOf.isInert_iff.1 hinert
    rw [hbare]
    simp only [holdsValues, Hook.fieldValues, hfields]

end Slot

/-! ## Bare documents

The traversals below follow the parts of a document and leave no slot out. -/

/-- Flags without their inert hook. -/
def FlagsMap.bare (m : FlagsMap) : FlagsMap := { m with hook := Slot.bare m.hook }

/-- The content of measured values without inert hooks in its parts. -/
def MvalBody.bare (v : MvalBody) : MvalBody := { v with flags := v.flags.map FlagsMap.bare }

/-- Measured values without inert hooks. -/
def Mval.bare (v : Mval) : Mval := ⟨v.toMvalBody.bare, Slot.bare v.hook⟩

/-- A measurement without inert hooks. -/
def Measurement.bare (m : Measurement) : Measurement := { m with value := m.value.bare }

/-- A triple without inert hooks. -/
def ValueTriple.bare (t : ValueTriple) : ValueTriple :=
  { t with measurements := t.measurements.map Measurement.bare }

/-- The content of triples without inert hooks in its parts. -/
def TriplesBody.bare (t : TriplesBody) : TriplesBody :=
  { t with
    referenceValues := t.referenceValues.map ValueTriple.bare
    endorsedValues := t.endorsedValues.map ValueTriple.bare }

/-- Triples without inert hooks. -/
def Triples.bare (t : Triples) : Triples := ⟨t.toTriplesBody.bare, Slot.bare t.hook⟩

/-- An entity without its inert hook. -/
def EntityOf.bare (e : Entity) : Entity := { e with hook := Slot.bare e.hook }

/-- The content of a module identifier without inert hooks in its parts. -/
def ComidBody.bare (d : ComidBody) : ComidBody :=
  { d with entities := d.entities.map EntityOf.bare, triples := d.triples.bare }

/-- A module identifier without inert hooks. -/
def Comid.bare (d : Comid) : Comid := ⟨d.toComidBody.bare, Slot.bare d.hook⟩

/-- An entity of a manifest without its inert hook. -/
def CorimEntity.bare (e : CorimEntity) : CorimEntity := { e with hook := Slot.bare e.hook }

/-- The content of a manifest without inert hooks in its parts. -/
def CorimBody.bare (d : CorimBody) : CorimBody :=
  { d with entities := d.entities.map CorimEntity.bare }

/-- A manifest without inert hooks. -/
def Corim.bare (d : Corim) : Corim := ⟨d.toCorimBody.bare, Slot.bare d.hook⟩

/-- The content of an entity of a kind without inert hooks in its parts. -/
def EntityKind.bare : (k : EntityKind) → k.Body → k.Body
  | .comid, d => d.bare
  | .triples, t => t.bare
  | .mval, v => v.bare
  | .corim, d => d.bare
  | .comidEntity, e => e
  | .flags, m => m
  | .corimEntity, e => e
  | .other _, u => u

/-! ## Attaching inert hooks -/

/-- A step that attaches inert hooks to some empty slots and does nothing else. -/
def SlotStep.AttachesInert (step : SlotStep) : Prop :=
  ∀ path {B : Type} (s : Slot B),
    step path s = s ∨ (s = none ∧ ∃ h : Hook B, h.isInert = true ∧ step path s = some h)

section Attaching

variable {step : SlotStep}

/-- Attaching an inert hook makes no difference to the bare slot. -/
theorem SlotStep.AttachesInert.bare_eq (hstep : step.AttachesInert) (path : SlotPath) {B : Type}
    (s : Slot B) : Slot.bare (step path s) = Slot.bare s := by
  rcases hstep path s with hsame | ⟨rfl, h, hinert, hattached⟩
  · rw [hsame]
  · rw [hattached, Slot.bare_of_isInert hinert]
    rfl

/-- Inert hooks among the measurements of a triple make no difference to the bare triple. -/
theorem ValueTriple.bare_mapSlots (hstep : step.AttachesInert) (side : ValueSide) (i : Nat)
    (t : ValueTriple) : (t.mapSlots step side i).bare = t.bare := by
  unfold ValueTriple.mapSlots ValueTriple.bare
  dsimp only
  rw [map_mapIdx_eq_map fun j m => ?_]
  have hflags : (m.value.flags.map fun m : FlagsMap =>
      { m with hook := step (.flags side i j) m.hook }).map FlagsMap.bare =
        m.value.flags.map FlagsMap.bare := by
    cases m.value.flags with
    | none => rfl
    | some m =>
      simp only [Option.map_some, FlagsMap.bare, hstep.bare_eq]
  simp only [Measurement.bare, Mval.bare, MvalBody.bare, hflags, hstep.bare_eq]

theorem Triples.bare_mapSlots (hstep : step.AttachesInert) (t : Triples) :
    (t.mapSlots step).bare = t.bare := by
  unfold Triples.mapSlots Triples.bare TriplesBody.bare
  dsimp only
  rw [map_mapIdx_eq_map (ValueTriple.bare_mapSlots hstep .reference),
    map_mapIdx_eq_map (ValueTriple.bare_mapSlots hstep .endorsed), hstep.bare_eq]

/-- Attaching inert hooks to a module identifier keeps its bare form. -/
theorem Comid.bare_mapSlots (hstep : step.AttachesInert) (d : Comid) :
    (Slotted.mapSlots step d).bare = d.bare := by
  have hentity : ∀ (i : Nat) (e : Entity),
      EntityOf.bare { e with hook := step (.entity i) e.hook } = e.bare := by
    intro i e
    simp only [EntityOf.bare, hstep.bare_eq]
  unfold Slotted.mapSlots instSlottedComidDatum Comid.bare ComidBody.bare
  dsimp only
  rw [map_mapIdx_eq_map hentity, Triples.bare_mapSlots hstep, hstep.bare_eq]

/-- Attaching inert hooks to a manifest keeps its bare form. -/
theorem Corim.bare_mapSlots (hstep : step.AttachesInert) (d : Corim) :
    (Slotted.mapSlots step d).bare = d.bare := by
  have hentity : ∀ (i : Nat) (e : CorimEntity),
      CorimEntity.bare { e with hook := step (.entity i) e.hook } = e.bare := by
    intro i e
    simp only [CorimEntity.bare, hstep.bare_eq]
  unfold Slotted.mapSlots instSlottedCorimDatum Corim.bare CorimBody.bare
  dsimp only
  rw [map_mapIdx_eq_map hentity, hstep.bare_eq]

end Attaching

/-! ## Constraints that judge the content -/

/-- The constraint of a slot's hook, if there is one, does not depend on inert hooks in the parts
of the body. -/
def Slot.JudgesContent (k : EntityKind) (s : Slot k.Body) : Prop :=
  ∀ h ∈ s, ∀ rule ∈ h.constraint, ∀ body view, rule (k.bare body) view = rule body view

theorem Slot.judgesContent_none (k : EntityKind) : JudgesContent k none := nofun

theorem Slot.judgesContent_of_isInert {k : EntityKind} {h : Hook k.Body}
    (hinert : h.isInert = true) : JudgesContent k (some h) := by
  obtain ⟨hconstraint, -, -⟩ := HookOf.isInert_iff.1 hinert
  rintro h ⟨⟩ rule hrule
  rw [hconstraint] at hrule
  cases hrule

/-- The content that excuses an entity from a rule is still there without inert hooks. -/
theorem EntityKind.probe_bare (k : EntityKind) (body : k.Body) (view : HookView) :
    k.probe (k.bare body) view = k.probe body view := by
  cases k with
  | triples =>
    show (!(body.referenceValues.map ValueTriple.bare).isEmpty) = !body.referenceValues.isEmpty
    rw [List.isEmpty_map]
  | _ => rfl

/-- Constraints described by data judge the content. -/
theorem Hook.judgesContent_described (k : EntityKind) (rule : Option HookRule)
    (fields : Option (Schema FieldShape)) (flags : Option (List OwnedFlag)) :
    Slot.JudgesContent k (some (Hook.described k rule fields flags)) := by
  rintro h ⟨⟩ constraint hconstraint body view
  obtain ⟨r, -, rfl⟩ := Option.map_eq_some_iff.1 hconstraint
  unfold HookRule.constraint
  rw [k.probe_bare]

/-- All constraints within a module identifier judge the content. -/
def Comid.JudgesContent (d : Comid) : Prop := d.EverySlot fun _ => Slot.JudgesContent

/-- All constraints within a manifest judge the content. -/
def Corim.JudgesContent (d : Corim) : Prop := d.EverySlot Slot.JudgesContent

section Attaching

variable {step : SlotStep}

/-- A slot with an inert hook judges the content as before. -/
theorem SlotStep.AttachesInert.judgesContent (hstep : step.AttachesInert) (path : SlotPath)
    {k : EntityKind} {s : Slot k.Body} (h : s.JudgesContent k) :
    Slot.JudgesContent k (step path s) := by
  rcases hstep path s with hsame | ⟨-, hook, hinert, hattached⟩
  · rw [hsame]
    exact h
  · rw [hattached]
    exact Slot.judgesContent_of_isInert hinert

theorem ValueTriple.judgesContent_mapSlots (hstep : step.AttachesInert) {side : ValueSide} {i : Nat}
    {t : ValueTriple} (h : t.EverySlot Slot.JudgesContent) :
    (t.mapSlots step side i).EverySlot Slot.JudgesContent := by
  intro m hm
  obtain ⟨j, hj, rfl⟩ := List.mem_mapIdx.1 hm
  obtain ⟨hvalues, hflags⟩ := h _ (List.getElem_mem hj)
  refine ⟨hstep.judgesContent _ hvalues, fun attached hattached => ?_⟩
  obtain ⟨flags, hmem, rfl⟩ := Option.map_eq_some_iff.1 hattached
  exact hstep.judgesContent _ (hflags flags hmem)

/-- Inert hooks have no constraint that could depend on anything. -/
theorem Comid.judgesContent_mapSlots (hstep : step.AttachesInert) {d : Comid}
    (h : d.JudgesContent) : (Slotted.mapSlots step d).JudgesContent where
  own := hstep.judgesContent _ h.own
  entities e he := by
    obtain ⟨i, hi, rfl⟩ := List.mem_mapIdx.1 he
    exact hstep.judgesContent _ (h.entities _ (List.getElem_mem hi))
  triples :=
    { own := hstep.judgesContent _ h.triples.own
      reference v hv := by
        obtain ⟨i, hi, rfl⟩ := List.mem_mapIdx.1 hv
        exact ValueTriple.judgesContent_mapSlots hstep (h.triples.reference _ (List.getElem_mem hi))
      endorsed v hv := by
        obtain ⟨i, hi, rfl⟩ := List.mem_mapIdx.1 hv
        exact ValueTriple.judgesContent_mapSlots hstep
          (h.triples.endorsed _ (List.getElem_mem hi)) }

/-- Inert hooks at the slots of a manifest judge its content as before. -/
theorem Corim.judgesContent_mapSlots (hstep : step.AttachesInert) {d : Corim}
    (h : d.JudgesContent) : (Slotted.mapSlots step d).JudgesContent where
  own := hstep.judgesContent _ h.own
  entities e he := by
    obtain ⟨i, hi, rfl⟩ := List.mem_mapIdx.1 he
    exact hstep.judgesContent _ (h.entities _ (List.getElem_mem hi))

end Attaching

/-! ## Flags -/

namespace FlagsMap

variable {m : FlagsMap} {h : Hook FlagsBody}

/-- A map with an inert hook in its empty slot answers for the same flags. -/
theorem get_inert (hnone : m.hook = none) (hinert : h.isInert = true) (flag : Int64) :
    get { m with hook := some h } flag = m.get flag := by
  rw [get_eq, get_eq]
  cases FlagsBody.index? flag with
  | some i => rfl
  | none =>
    rw [hnone]
    exact Hook.getFlag_of_isInert hinert flag

/-- Writing a flag leaves the slot empty, and does not depend on whether an inert hook is attached
before or afterwards.  A built-in flag never reaches the hook. -/
theorem put_inert (hnone : m.hook = none) (hinert : h.isInert = true) (flag : Int64)
    (value : Option Bool) : (m.put flag value).hook = none ∧
      put { m with hook := some h } flag value = { m.put flag value with hook := some h } := by
  rw [put_eq, put_eq]
  cases FlagsBody.index? flag with
  | some i => exact ⟨hnone, rfl⟩
  | none =>
    refine ⟨by rw [hnone]; rfl, ?_⟩
    show FlagsMap.mk m.toFlagsBody (some (Hook.putFlag h flag value)) = _
    rw [Hook.putFlag_of_isInert hinert]

theorem holdsFlag_bare (m : FlagsMap) : m.bare.holdsFlag = m.holdsFlag := by
  rw [holdsFlag_eq, holdsFlag_eq, FlagsMap.bare, Slot.holdsFlag_bare]

theorem holdsFlag_inert (hnone : m.hook = none) (hinert : h.isInert = true) :
    holdsFlag { m with hook := some h } = m.holdsFlag := by
  rw [holdsFlag_eq, holdsFlag_eq, hnone]
  show (m.toFlagsBody.holdsFlag || Hook.holdsFlag h) = _
  rw [Hook.holdsFlag_of_isInert hinert]
  rfl

end FlagsMap

/-! ## Validation

Every step of a validation comes to the same for a record and its bare form. -/

/-- The constraint of a slot refuses a body exactly as that of the bare slot refuses the bare
body. -/
theorem Slot.validity_bare {k : EntityKind} {s : Slot k.Body} (h : s.JudgesContent k)
    (body : k.Body) : validity (bare s) (k.bare body) = validity s body := by
  unfold validity
  rcases bare_eq_or s with hbare | ⟨hook, rfl, hinert, hbare⟩
  · rw [hbare]
    cases s with
    | none => rfl
    | some hook =>
      unfold Slot.validate
      dsimp only
      cases hrule : hook.constraint with
      | none => rfl
      | some rule =>
        dsimp only
        rw [h hook rfl rule hrule]
  · obtain ⟨hconstraint, -, -⟩ := HookOf.isInert_iff.1 hinert
    rw [hbare]
    simp only [Slot.validate, hconstraint]

namespace Validate

variable {α : Type} [Validate α] {bare : α → α}

theorem field_congr {a b : α} (h : validate a = validate b) (name : String) :
    field name a = field name b :=
  congrArg (underField name) h

theorem fieldIfAny_map {o : Option α} (h : ∀ a ∈ o, validate (bare a) = validate a)
    (name : String) : fieldIfAny name (o.map bare) = fieldIfAny name o := by
  cases o with
  | none => rfl
  | some a =>
    exact field_congr (h a rfl) name

theorem itemsFrom_map {l : List α} (h : ∀ a ∈ l, validate (bare a) = validate a) (label : String)
    (index : Nat) : itemsFrom label index (l.map bare) = itemsFrom label index l := by
  induction l generalizing index with
  | nil => rfl
  | cons a rest ih =>
    obtain ⟨ha, hrest⟩ := List.forall_mem_cons.1 h
    rw [List.map_cons, itemsFrom, itemsFrom, ha, ih hrest]

/-- A list of items that are as valid without their hooks is so as a whole. -/
theorem items_map {l : List α} (h : ∀ a ∈ l, validate (bare a) = validate a)
    (name label : String) : items name label (l.map bare) = items name label l := by
  rw [items, items, itemsFrom_map h]

end Validate

section Records

open Validate

/-- An entity is as valid without an inert hook, if its constraint judges the content. -/
theorem EntityOf.validate_bare {e : Entity} (h : Slot.JudgesContent .comidEntity e.hook) :
    validate e.bare = validate e := by
  have hown : Slot.validity (Slot.bare e.hook) e.toEntityBody =
      Slot.validity e.hook e.toEntityBody := Slot.validity_bare h _
  show (validate e.identity >>= fun _ => nonEmpty "roles" e.roles >>= fun _ =>
    Slot.validity (Slot.bare e.hook) e.toEntityBody) = _
  rw [hown]
  rfl

theorem FlagsMap.validate_bare {m : FlagsMap} (h : Slot.JudgesContent .flags m.hook) :
    validate m.bare = validate m :=
  Slot.validity_bare h m.toFlagsBody

/-- Flags that only an inert hook could hold do not count as data. -/
theorem Mval.isVacant_bare (v : Mval) : v.bare.isVacant = v.isVacant := by
  have hflags : (v.flags.map FlagsMap.bare).any FlagsMap.holdsFlag =
      v.flags.any FlagsMap.holdsFlag := by
    cases v.flags with
    | none => rfl
    | some m => exact m.holdsFlag_bare
  unfold Mval.isVacant Mval.bare MvalBody.bare
  dsimp only
  rw [hflags, Slot.holdsValues_bare]

theorem Mval.validate_bare {v : Mval} (h : Slot.JudgesContent .mval v.hook)
    (hflags : ∀ m ∈ v.flags, Slot.JudgesContent .flags m.hook) : validate v.bare = validate v := by
  have hown : Slot.validity (Slot.bare v.hook) v.toMvalBody.bare =
      Slot.validity v.hook v.toMvalBody := Slot.validity_bare h _
  show (ensure (!v.bare.isVacant) .unsetValues >>= fun _ =>
    items "digests" "digest" v.digests >>= fun _ =>
    fieldIfAny "flags" (v.flags.map FlagsMap.bare) >>= fun _ =>
    fieldIfAny "ueid" v.ueid >>= fun _ =>
    fieldIfAny "uuid" v.uuid >>= fun _ =>
    Slot.validity (Slot.bare v.hook) v.toMvalBody.bare) = _
  rw [v.isVacant_bare, fieldIfAny_map fun m hm => FlagsMap.validate_bare (hflags m hm), hown]
  rfl

theorem ValueTriple.validate_bare {t : ValueTriple} (h : t.EverySlot Slot.JudgesContent) :
    validate t.bare = validate t := by
  have hmeasurement : ∀ m ∈ t.measurements, validate m.bare = validate m := by
    intro m hm
    obtain ⟨hvalues, hflags⟩ := h m hm
    show (fieldIfAny "key" m.key >>= fun _ => field "value" m.value.bare >>= fun _ =>
      items "authorized-by" "key" m.authorizedBy) = _
    rw [field_congr (Mval.validate_bare hvalues hflags)]
    rfl
  show (field "environment" t.environment >>= fun _ =>
    nonEmpty "measurements" (t.measurements.map Measurement.bare) >>= fun _ =>
    items "measurements" "measurement" (t.measurements.map Measurement.bare)) = _
  rw [items_map hmeasurement, nonEmpty, List.isEmpty_map]
  rfl

theorem Triples.validate_bare {t : Triples}
    (h : t.EverySlot fun _ => Slot.JudgesContent) : validate t.bare = validate t := by
  have hempty : t.bare.isEmpty = t.isEmpty := by
    unfold TriplesBody.isEmpty Triples.bare TriplesBody.bare
    dsimp only
    rw [List.isEmpty_map, List.isEmpty_map]
  have hown : Slot.validity (Slot.bare t.hook) t.toTriplesBody.bare =
      Slot.validity t.hook t.toTriplesBody := Slot.validity_bare h.own _
  show (ensure (!t.bare.isEmpty || Slot.holdsValues (Slot.bare t.hook)) .emptyTriples >>= fun _ =>
    items "reference-values" "triple" (t.referenceValues.map ValueTriple.bare) >>= fun _ =>
    items "endorsed-values" "triple" (t.endorsedValues.map ValueTriple.bare) >>= fun _ =>
    items "dev-identity-keys" "triple" t.devIdentityKeys >>= fun _ =>
    items "attester-verification-keys" "triple" t.attesterVerificationKeys >>= fun _ =>
    Slot.validity (Slot.bare t.hook) t.toTriplesBody.bare) = _
  rw [hempty, Slot.holdsValues_bare,
    items_map fun v hv => ValueTriple.validate_bare (h.reference v hv),
    items_map fun v hv => ValueTriple.validate_bare (h.endorsed v hv), hown]
  rfl

/-- A module identifier is as valid as its bare form, and if it is not then for the same reason. -/
theorem Comid.validate_bare {d : Comid} (h : d.JudgesContent) : validate d.bare = validate d := by
  have hown : Slot.validity (Slot.bare d.hook) d.toComidBody.bare =
      Slot.validity d.hook d.toComidBody := Slot.validity_bare h.own _
  show (field "tag-identity" d.tagIdentity >>= fun _ =>
    items "entities" "entity" (d.entities.map EntityOf.bare) >>= fun _ =>
    items "linked-tags" "linked tag" d.linkedTags >>= fun _ =>
    field "triples" d.triples.bare >>= fun _ =>
    Slot.validity (Slot.bare d.hook) d.toComidBody.bare) = _
  rw [items_map fun e he => EntityOf.validate_bare (h.entities e he),
    field_congr (Triples.validate_bare h.triples), hown]
  rfl

/-- A manifest is as valid as its bare form, and if it is not then for the same reason. -/
theorem Corim.validate_bare {d : Corim} (h : d.JudgesContent) : validate d.bare = validate d := by
  have hentity : ∀ e ∈ d.entities, validate e.bare = validate e := by
    intro e he
    have hown : Slot.validity (Slot.bare e.hook) e.toCorimEntityBody =
        Slot.validity e.hook e.toCorimEntityBody := Slot.validity_bare (h.entities e he) _
    show (validate e.identity >>= fun _ => nonEmpty "roles" e.roles >>= fun _ =>
      Slot.validity (Slot.bare e.hook) e.toCorimEntityBody) = _
    rw [hown]
    rfl
  have hown : Slot.validity (Slot.bare d.hook) d.toCorimBody.bare =
      Slot.validity d.hook d.toCorimBody := Slot.validity_bare h.own _
  show (field "corim-id" d.id >>= fun _ =>
    nonEmpty "tags" d.tags >>= fun _ =>
    items "tags" "tag" d.tags >>= fun _ =>
    fieldIfAny "profile" d.profile >>= fun _ =>
    items "entities" "entity" (d.entities.map CorimEntity.bare) >>= fun _ =>
    Slot.validity (Slot.bare d.hook) d.toCorimBody.bare) = _
  rw [items_map hentity, hown]
  rfl

/-- Attaching inert hooks changes nothing about the validity of a module identifier. -/
theorem Comid.validate_mapSlots {step : SlotStep} (hstep : step.AttachesInert) {d : Comid}
    (h : d.JudgesContent) : validate (Slotted.mapSlots step d) = validate d := by
  rw [← validate_bare h, ← validate_bare (judgesContent_mapSlots hstep h), bare_mapSlots hstep]

/-- Attaching inert hooks changes nothing about the validity of a manifest. -/
theorem Corim.validate_mapSlots {step : SlotStep} (hstep : step.AttachesInert) {d : Corim}
    (h : d.JudgesContent) : validate (Slotted.mapSlots step d) = validate d := by
  rw [← validate_bare h, ← validate_bare (judgesContent_mapSlots hstep h), bare_mapSlots hstep]

end Records

end Rim
