import Rim.Proofs.Document.Normal
import Rim.Proofs.Record.Reading
/-!
# Settled hooks

The fields of a hook travel like those of the entity they stand beside: an optional one with an
empty value says no more than one without a value, and an entity that is the value of a field has
its own fields normalized and those of its hook settled.  Settling changes the values of fields and
nothing else about a hook.

## Main definitions

* `Datum.settled`: the value of a field as reading would find it.
* `Cell.settled`, `Slot.settled`: fields and hooks with such values.
* `Comid.settled`, `Corim.settled`: normal documents with settled hooks.
* `Comid.EverySlot`, `Corim.EverySlot`: a property of the slots of a document at their positions.

## Main results

* `Comid.settled_eq_normalized`, `Corim.settled_eq_normalized`: documents without hooks.
* `Comid.EverySlot.exists_bound`, `Corim.EverySlot.exists_bound`: one bound for all slots.
* `Comid.hooks_settled`, `Corim.hooks_settled`: settling leaves the hooks where they are.
-/

namespace Rim

/-! ## Values of hook fields -/

/-- The body of an entity with its identity normalized and listed roles where there are such. -/
def EntityBody.normalized (b : EntityBody) : EntityBody :=
  ⟨b.identity.normalized, b.roles.map OpenCode.listed⟩

/-- The value that the absence of an optional field stands for, if any. -/
def FieldShape.implied? (shape : FieldShape) : Option Datum :=
  if shape.defaulted then shape.kind.absent? else none

theorem FieldShape.absent_of_optional {shape : FieldShape} (h : shape.spec.isOptional = true) :
    shape.absent = .ok shape.implied? := by
  unfold absent implied?
  cases (if shape.defaulted = true then shape.kind.absent? else none) with
  | some value => rfl
  | none => exact if_pos h

mutual

/-- The value of a field as reading would find it. -/
def Datum.settled : Datum → Datum
  | .entity ⟨body, hook⟩ => .entity ⟨body.normalized, Datum.settledSlot hook⟩
  | .list items => .list (Datum.settledList items)
  | value => value

/-- The items of a list, each as reading would find it. -/
def Datum.settledList : List Datum → List Datum
  | [] => []
  | item :: rest => item.settled :: Datum.settledList rest

/-- The slot of an entity with the fields of its hook settled. -/
def Datum.settledSlot : Option (HookOf EntityBody Datum) → Option (HookOf EntityBody Datum)
  | none => none
  | some ⟨typeName, constraint, fields, flags⟩ =>
    some ⟨typeName, constraint, Datum.settledFields fields, flags⟩

/-- The fields of a hook settled, if it has the capability. -/
def Datum.settledFields : Option (List (Cell Datum)) → Option (List (Cell Datum))
  | none => none
  | some cells => some (Datum.settledCells cells)

/-- Fields settled one after the other. -/
def Datum.settledCells : List (Cell Datum) → List (Cell Datum)
  | [] => []
  | ⟨shape, value⟩ :: rest => ⟨shape, Datum.settledValue shape value⟩ :: Datum.settledCells rest

/-- The value of a field settled; an optional field with an empty value is as good as absent. -/
def Datum.settledValue (shape : FieldShape) : Option Datum → Option Datum
  | none => shape.implied?
  | some value =>
    if shape.spec.isOptional && value.isEmpty then shape.implied? else some value.settled

end

/-- A field of a hook settled. -/
def Cell.settled (c : Cell Datum) : Cell Datum := ⟨c.shape, Datum.settledValue c.shape c.value⟩

/-- A hook with its fields settled. -/
def Hook.settled {B : Type} (h : Hook B) : Hook B :=
  { h with fields := h.fields.map (List.map Cell.settled) }

/-- A slot with its hook settled. -/
def Slot.settled {B : Type} (s : Slot B) : Slot B := s.map Hook.settled

/-! ## Documents -/

/-- An entity normalized, its hook settled. -/
def EntityOf.settled (e : Entity) : Entity := { e.normalized with hook := Slot.settled e.hook }

theorem Datum.settledList_eq (items : List Datum) :
    Datum.settledList items = items.map Datum.settled := by
  induction items with
  | nil => rw [Datum.settledList, List.map_nil]
  | cons item rest ih => rw [Datum.settledList, List.map_cons, ih]

theorem Datum.settledCells_eq (cells : List (Cell Datum)) :
    Datum.settledCells cells = cells.map Cell.settled := by
  induction cells with
  | nil => rw [Datum.settledCells, List.map_nil]
  | cons c rest ih => rw [Datum.settledCells, List.map_cons, ih, Cell.settled]

theorem Datum.settledSlot_eq (slot : Slot EntityBody) :
    Datum.settledSlot slot = Slot.settled slot := by
  cases slot with
  | none => rw [Datum.settledSlot, Slot.settled, Option.map_none]
  | some hook =>
    obtain ⟨typeName, constraint, fields, flags⟩ := hook
    rw [Datum.settledSlot]
    cases fields with
    | none => rw [Datum.settledFields]; rfl
    | some cells => rw [Datum.settledFields, Datum.settledCells_eq]; rfl

/-- An entity that is the value of a field settles as any other entity. -/
theorem Datum.settled_entity (e : Entity) : (Datum.entity e).settled = .entity e.settled := by
  obtain ⟨body, hook⟩ := e
  rw [Datum.settled, Datum.settledSlot_eq]
  rfl

/-- Flags with their hook settled. -/
def FlagsMap.settled (m : FlagsMap) : FlagsMap := { m with hook := Slot.settled m.hook }

/-- Measured values normalized, their hook and that of their flags settled. -/
def Mval.settled (v : Mval) : Mval :=
  { v.normalized with flags := v.flags.map FlagsMap.settled, hook := Slot.settled v.hook }

/-- A measurement with its values settled. -/
def Measurement.settled (m : Measurement) : Measurement := { m with value := m.value.settled }

/-- A triple normalized, its hooks settled. -/
def ValueTriple.settled (t : ValueTriple) : ValueTriple where
  environment := t.environment.normalized
  measurements := t.measurements.map Measurement.settled

/-- Triples normalized, their hooks settled. -/
def Triples.settled (t : Triples) : Triples :=
  { t.normalized with
    referenceValues := t.referenceValues.map ValueTriple.settled
    endorsedValues := t.endorsedValues.map ValueTriple.settled
    hook := Slot.settled t.hook }

/-- A module identifier normalized, its hooks settled. -/
def Comid.settled (d : Comid) : Comid :=
  { d.normalized with
    entities := d.entities.map EntityOf.settled
    triples := d.triples.settled
    hook := Slot.settled d.hook }

/-- An entity of a manifest normalized, its hook settled. -/
def CorimEntity.settled (e : CorimEntity) : CorimEntity :=
  { e.normalized with hook := Slot.settled e.hook }

/-- A manifest normalized, its hooks settled. -/
def Corim.settled (d : Corim) : Corim :=
  { d.normalized with
    entities := d.entities.map CorimEntity.settled
    hook := Slot.settled d.hook }

theorem Measurement.settled_eq_normalized {m : Measurement} (h : m.Hookless) :
    m.settled = m.normalized := by
  obtain ⟨key, ⟨⟨digests, flags, rawValue, serialNumber, ueid, uuid, name⟩, hook⟩, keys⟩ := m
  obtain rfl : hook = none := h.1
  cases flags with
  | none => rfl
  | some flags =>
    obtain ⟨body, hook⟩ := flags
    obtain rfl : hook = none := h.2 _ rfl
    rfl

theorem ValueTriple.settled_eq_normalized {t : ValueTriple} (h : t.Hookless) :
    t.settled = t.normalized := by
  unfold settled normalized
  rw [List.map_congr_left fun m hm => Measurement.settled_eq_normalized (h m hm)]

/-- Triples without hooks settle to their normal form. -/
theorem Triples.settled_eq_normalized {t : Triples} (h : t.hooks = []) :
    t.settled = t.normalized := by
  obtain ⟨hslot, hreference, hendorsed⟩ := Triples.hooks_eq_nil_iff.1 h
  obtain ⟨body, hook⟩ := t
  obtain rfl : hook = none := hslot
  unfold settled normalized
  rw [List.map_congr_left fun v hv => ValueTriple.settled_eq_normalized (hreference v hv),
    List.map_congr_left fun v hv => ValueTriple.settled_eq_normalized (hendorsed v hv)]
  rfl

/-- A module identifier without hooks settles as it is normalized. -/
theorem Comid.settled_eq_normalized {d : Comid} (h : Slotted.hooks d = []) :
    d.settled = d.normalized := by
  obtain ⟨hslot, hentities, htriples⟩ := Comid.hooks_eq_nil_iff.1 h
  have hentity : ∀ e ∈ d.entities, e.settled = e.normalized := by
    intro e he
    obtain ⟨body, hook⟩ := e
    obtain rfl : hook = none := hentities _ he
    rfl
  obtain ⟨body, hook⟩ := d
  obtain rfl : hook = none := hslot
  unfold settled normalized
  rw [List.map_congr_left hentity, Triples.settled_eq_normalized htriples]
  rfl

/-- A manifest without hooks settles as it is normalized. -/
theorem Corim.settled_eq_normalized {d : Corim} (h : Slotted.hooks d = []) :
    d.settled = d.normalized := by
  obtain ⟨hslot, hentities⟩ := Corim.hooks_eq_nil_iff.1 h
  have hentity : ∀ e ∈ d.entities, e.settled = e.normalized := by
    intro e he
    obtain ⟨body, hook⟩ := e
    obtain rfl : hook = none := hentities _ he
    rfl
  obtain ⟨body, hook⟩ := d
  obtain rfl : hook = none := hslot
  unfold settled normalized
  rw [List.map_congr_left hentity]
  rfl

/-! ## Slots at their positions

The endorsed values are the one part of a document where other stand-ins are in force. -/

/-- A property of the slots among the measured values of a triple. -/
def ValueTriple.EverySlot (P : (k : EntityKind) → Slot k.Body → Prop) (t : ValueTriple) : Prop :=
  ∀ m ∈ t.measurements, P .mval m.value.hook ∧ ∀ flags ∈ m.value.flags, P .flags flags.hook

/-- A property of all slots of triples, which may depend on the stand-ins in force. -/
structure Triples.EverySlot (P : List StandIn → (k : EntityKind) → Slot k.Body → Prop)
    (t : Triples) : Prop where
  own : P [] .triples t.hook
  reference : ∀ v ∈ t.referenceValues, v.EverySlot (P [])
  endorsed : ∀ v ∈ t.endorsedValues, v.EverySlot (P StandIn.endorsed)

/-- A property of all slots of a module identifier, which may depend on the stand-ins in force. -/
structure Comid.EverySlot (P : List StandIn → (k : EntityKind) → Slot k.Body → Prop) (d : Comid) :
    Prop where
  own : P [] .comid d.hook
  entities : ∀ e ∈ d.entities, P [] .comidEntity e.hook
  triples : d.triples.EverySlot P

/-- A property of all slots of a manifest. -/
structure Corim.EverySlot (P : (k : EntityKind) → Slot k.Body → Prop) (d : Corim) : Prop where
  own : P .corim d.hook
  entities : ∀ e ∈ d.entities, P .corimEntity e.hook

section

variable {P Q : List StandIn → (k : EntityKind) → Slot k.Body → Prop}

theorem ValueTriple.EverySlot.imp {P Q : (k : EntityKind) → Slot k.Body → Prop} {t : ValueTriple}
    (h : t.EverySlot P) (himp : ∀ k slot, P k slot → Q k slot) : t.EverySlot Q := fun m hm =>
  ⟨himp _ _ (h m hm).1, fun flags hflags => himp _ _ ((h m hm).2 flags hflags)⟩

/-- What follows from a property of each slot holds of all slots. -/
theorem Comid.EverySlot.imp {d : Comid} (h : d.EverySlot P)
    (himp : ∀ standIns k slot, P standIns k slot → Q standIns k slot) : d.EverySlot Q where
  own := himp _ _ _ h.own
  entities e he := himp _ _ _ (h.entities e he)
  triples :=
    { own := himp _ _ _ h.triples.own
      reference v hv := (h.triples.reference v hv).imp (himp _)
      endorsed v hv := (h.triples.endorsed v hv).imp (himp _) }

theorem Corim.EverySlot.imp {P Q : (k : EntityKind) → Slot k.Body → Prop} {d : Corim}
    (h : d.EverySlot P) (himp : ∀ k slot, P k slot → Q k slot) : d.EverySlot Q where
  own := himp _ _ h.own
  entities e he := himp _ _ (h.entities e he)

/-- What holds of empty slots holds of all slots of a module identifier without hooks. -/
theorem Comid.everySlot_of_hookless (hempty : ∀ standIns k, P standIns k none) {d : Comid}
    (h : Slotted.hooks d = []) : d.EverySlot P := by
  obtain ⟨hslot, hentities, htriples⟩ := Comid.hooks_eq_nil_iff.1 h
  obtain ⟨htriplesSlot, hreference, hendorsed⟩ := Triples.hooks_eq_nil_iff.1 htriples
  have hvalues : ∀ standIns (t : ValueTriple), t.Hookless → t.EverySlot (P standIns) := by
    intro standIns t ht m hm
    obtain ⟨hvalue, hflags⟩ := ht m hm
    refine ⟨hvalue ▸ hempty _ _, fun flags hmem => ?_⟩
    rw [hflags flags hmem]
    exact hempty _ _
  refine ⟨hslot ▸ hempty _ _, fun e he => ?_, htriplesSlot ▸ hempty _ _,
    fun v hv => hvalues _ v (hreference v hv), fun v hv => hvalues _ v (hendorsed v hv)⟩
  rw [hentities e he]
  exact hempty _ _

/-- What holds of empty slots holds of all slots of a manifest without hooks. -/
theorem Corim.everySlot_of_hookless {P : (k : EntityKind) → Slot k.Body → Prop}
    (hempty : ∀ k, P k none) {d : Corim} (h : Slotted.hooks d = []) : d.EverySlot P := by
  obtain ⟨hslot, hentities⟩ := Corim.hooks_eq_nil_iff.1 h
  refine ⟨hslot ▸ hempty _, fun e he => ?_⟩
  rw [hentities e he]
  exact hempty _

end

/-! What holds of each slot from some bound on holds of all slots from one bound on, since a
document has finitely many. -/

section

variable {P : Nat → List StandIn → (k : EntityKind) → Slot k.Body → Prop}

theorem ValueTriple.EverySlot.exists_bound {P : Nat → (k : EntityKind) → Slot k.Body → Prop}
    (hmono : ∀ k slot n m, n ≤ m → P n k slot → P m k slot) {t : ValueTriple}
    (h : t.EverySlot fun k slot => ∃ n, P n k slot) : ∃ n, t.EverySlot (P n) := by
  refine Rim.exists_bound (fun m n n' hn hm => ?_) fun m hm => ?_
  · exact ⟨hmono _ _ _ _ hn hm.1, fun flags hflags => hmono _ _ _ _ hn (hm.2 flags hflags)⟩
  · obtain ⟨⟨n, hvalue⟩, hflags⟩ := h m hm
    obtain ⟨n', hflags⟩ := Rim.exists_bound (fun flags => hmono .flags flags.hook)
      fun flags hmem => hflags flags (Option.mem_toList.1 hmem)
    refine ⟨max n n', hmono _ _ _ _ (Nat.le_max_left n n') hvalue, fun flags hmem => ?_⟩
    exact hmono _ _ _ _ (Nat.le_max_right n n') (hflags flags (Option.mem_toList.2 hmem))

/-- One bound will do for all slots of a document. -/
theorem Comid.EverySlot.exists_bound
    (hmono : ∀ standIns k slot n m, n ≤ m → P n standIns k slot → P m standIns k slot) {d : Comid}
    (h : d.EverySlot fun standIns k slot => ∃ n, P n standIns k slot) : ∃ n, d.EverySlot (P n) := by
  have hvalues : ∀ standIns (l : List ValueTriple),
      (∀ v ∈ l, v.EverySlot fun k slot => ∃ n, P n standIns k slot) →
        ∃ n, ∀ v ∈ l, v.EverySlot (P n standIns) := fun standIns l hl =>
    Rim.exists_bound (fun v n m hm hv => hv.imp fun k slot => hmono _ k slot n m hm)
      fun v hv => (hl v hv).exists_bound fun k slot => hmono _ k slot
  obtain ⟨n₁, hown⟩ := h.own
  obtain ⟨n₂, hentities⟩ := Rim.exists_bound (fun e : Entity => hmono [] .comidEntity e.hook)
    h.entities
  obtain ⟨n₃, htriples⟩ := h.triples.own
  obtain ⟨n₄, hreference⟩ := hvalues _ _ h.triples.reference
  obtain ⟨n₅, hendorsed⟩ := hvalues _ _ h.triples.endorsed
  refine ⟨n₁ + n₂ + n₃ + n₄ + n₅, hmono _ _ _ _ _ (by omega) hown,
    fun e he => hmono _ _ _ _ _ (by omega) (hentities e he),
    hmono _ _ _ _ _ (by omega) htriples, fun v hv => (hreference v hv).imp fun k slot => ?_,
    fun v hv => (hendorsed v hv).imp fun k slot => ?_⟩
  · exact hmono _ k slot _ _ (by omega)
  · exact hmono _ k slot _ _ (by omega)

theorem Corim.EverySlot.exists_bound {P : Nat → (k : EntityKind) → Slot k.Body → Prop}
    (hmono : ∀ k slot n m, n ≤ m → P n k slot → P m k slot) {d : Corim}
    (h : d.EverySlot fun k slot => ∃ n, P n k slot) : ∃ n, d.EverySlot (P n) := by
  obtain ⟨n₁, hown⟩ := h.own
  obtain ⟨n₂, hentities⟩ := Rim.exists_bound (fun e : CorimEntity => hmono .corimEntity e.hook)
    h.entities
  exact ⟨n₁ + n₂, hmono _ _ _ _ (by omega) hown,
    fun e he => hmono _ _ _ _ (by omega) (hentities e he)⟩

end

/-! ## Hooks of settled documents

Settling a document leaves its hooks where they are. -/

/-- An attached hook with its fields settled. -/
def PlacedHook.settled (h : PlacedHook) : PlacedHook := ⟨h.path, Hook.settled h.hook⟩

theorem PlacedHook.ofSlot_settled {B : Type} (path : SlotPath) (slot : Slot B) :
    ofSlot path slot.settled = (ofSlot path slot).map settled := by
  cases slot <;> rfl

/-- Settling the measurements of a triple leaves their hooks where they are. -/
theorem ValueTriple.hooks_settled (side : ValueSide) (i : Nat) (t : ValueTriple) :
    t.settled.hooks side i = (t.hooks side i).map PlacedHook.settled := by
  refine flatten_mapIdx_map (fun j m => ?_) t.measurements
  have hflags : m.settled.value.flags.bind (·.hook) =
      Slot.settled (m.value.flags.bind (·.hook)) := by
    show (m.value.flags.map FlagsMap.settled).bind _ = _
    cases m.value.flags <;> rfl
  rw [List.map_append, ← PlacedHook.ofSlot_settled, ← PlacedHook.ofSlot_settled, hflags]
  rfl

/-- Settling triples leaves their hooks where they are. -/
theorem Triples.hooks_settled (t : Triples) :
    t.settled.hooks = t.hooks.map PlacedHook.settled := by
  unfold hooks
  rw [List.map_append, List.map_append, ← PlacedHook.ofSlot_settled,
    ← flatten_mapIdx_map (ValueTriple.hooks_settled .reference),
    ← flatten_mapIdx_map (ValueTriple.hooks_settled .endorsed)]
  rfl

/-- A settled module identifier has the hooks it had, settled. -/
theorem Comid.hooks_settled (d : Comid) :
    Slotted.hooks d.settled = (Slotted.hooks d).map PlacedHook.settled := by
  have hentities : (d.entities.mapIdx fun i e => PlacedHook.ofSlot (.entity i) e.hook).flatten.map
      PlacedHook.settled = ((d.entities.map EntityOf.settled).mapIdx fun i e =>
        PlacedHook.ofSlot (.entity i) e.hook).flatten :=
    (flatten_mapIdx_map (fun i e => PlacedHook.ofSlot_settled (.entity i) e.hook) d.entities).symm
  have hdocument : Slotted.hooks d = PlacedHook.ofSlot .comid d.hook ++
      (d.entities.mapIdx fun i e => PlacedHook.ofSlot (.entity i) e.hook).flatten ++
      d.triples.hooks := rfl
  rw [hdocument, List.map_append, List.map_append, hentities, ← PlacedHook.ofSlot_settled,
    ← Triples.hooks_settled]
  rfl

/-- A settled manifest has the hooks it had, settled. -/
theorem Corim.hooks_settled (d : Corim) :
    Slotted.hooks d.settled = (Slotted.hooks d).map PlacedHook.settled := by
  have hentities : (d.entities.mapIdx fun i e => PlacedHook.ofSlot (.entity i) e.hook).flatten.map
      PlacedHook.settled = ((d.entities.map CorimEntity.settled).mapIdx fun i e =>
        PlacedHook.ofSlot (.entity i) e.hook).flatten :=
    (flatten_mapIdx_map (fun i e => PlacedHook.ofSlot_settled (.entity i) e.hook) d.entities).symm
  have hdocument : Slotted.hooks d = PlacedHook.ofSlot .corim d.hook ++
      (d.entities.mapIdx fun i e => PlacedHook.ofSlot (.entity i) e.hook).flatten := rfl
  rw [hdocument, List.map_append, hentities, ← PlacedHook.ofSlot_settled]
  rfl

end Rim
