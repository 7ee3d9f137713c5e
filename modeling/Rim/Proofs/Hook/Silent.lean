import Rim.Document.Equality
import Rim.Proofs.Hook.Values
import Rim.Proofs.Record.Empty
/-!
# Hooks that hold no values

Whether a hook holds values is asked of its text form, in which an optional field without content is
left out, and a field that cannot be written counts as a value.  Which fields are left out is the
same in both formats, so a hook holds none exactly if it writes nothing in either.

What a field does write always says something: it is never a record without entries.

## Main results

* `Slot.holdsValues_eq_false_iff`: a slot holds no values exactly if it writes nothing.
* `Slot.value_ne_emptyRecord`: no field of a hook is written as an empty record.
-/

namespace Rim

variable {f : Format}

/-! ## Fields without values -/

/-- A field without a value that says anything writes nothing, whichever the format. -/
theorem Cell.put?_eq_none_iff {c : Cell Datum} :
    c.put? f = none ↔ ∀ x ∈ c.value, (c.shape.spec.isOptional && x.isEmpty) = true := by
  obtain ⟨shape, value⟩ := c
  cases value with
  | none => simp [put?]
  | some x => simp [put?, HookValue.isEmpty]

/-- A slot that holds no values writes nothing.  The question is asked of the text form, where
fields that fail count as values. -/
theorem Slot.puts_of_holdsValues {B : Type} {slot : Slot B} (h : slot.holdsValues = false) :
    Slot.puts f slot = [] := by
  cases slot with
  | none => rfl
  | some hook =>
    obtain ⟨typeName, constraint, fields, flags⟩ := hook
    cases fields with
    | none => rfl
    | some cells =>
      have htext : cells.filterMap (Cell.put? .json) = [] := by
        unfold Slot.holdsValues Hook.fieldValues at h
        dsimp only at h
        cases hw : writeAll "extension" [] (cells.filterMap (Cell.put? .json)) with
        | error e =>
          rw [hw] at h
          cases h
        | ok written =>
          obtain ⟨more, hmore, hwritten, -⟩ := writeAll_eq_ok_iff.1 hw
          rw [hw, hwritten] at h
          cases more with
          | nil => exact hmore
          | cons e more => cases h
      refine List.filterMap_eq_nil_iff.2 fun c hc => ?_
      exact Cell.put?_eq_none_iff.2
        (Cell.put?_eq_none_iff.1 (List.filterMap_eq_nil_iff.1 htext c hc))

/-- A slot holds no values exactly if it writes nothing, whichever the format. -/
theorem Slot.holdsValues_eq_false_iff {B : Type} {slot : Slot B} :
    slot.holdsValues = false ↔ Slot.puts f slot = [] := by
  constructor
  · exact Slot.puts_of_holdsValues
  · intro h
    cases slot with
    | none => rfl
    | some hook =>
      obtain ⟨typeName, constraint, fields, flags⟩ := hook
      cases fields with
      | none => rfl
      | some cells =>
        have hnone : ∀ c ∈ cells, c.put? f = none := List.filterMap_eq_nil_iff.1 h
        have htext : cells.filterMap (Cell.put? .json) = [] := by
          refine List.filterMap_eq_nil_iff.2 fun c hc => ?_
          exact Cell.put?_eq_none_iff.2 (Cell.put?_eq_none_iff.1 (hnone c hc))
        unfold Slot.holdsValues Hook.fieldValues
        dsimp only
        rw [htext]
        rfl

/-! ## Values of hook fields -/

/-- An entity has a name, so it is no empty record. -/
theorem EntityOf.encode_ne_emptyRecord {e : Entity} :
    FieldCodec.entity.encode f e ≠ .ok f.emptyRecord := by
  intro h
  have hputs : entityShape.puts f e ++ Slot.puts f e.hook = [] :=
    (RecordShape.encodeWith_eq_emptyRecord_iff rfl).1 h
  cases hputs

theorem FieldCodec.encodeChoice_ne_emptyRecord {T : Type} [TypeChoice T] {x : T} :
    FieldCodec.encodeChoice x f ≠ .ok f.emptyRecord := by
  intro h
  cases f with
  | cbor =>
    obtain ⟨payload, -, h⟩ := exists_of_bind_eq_ok h
    cases h
  | json =>
    obtain ⟨payload, -, h⟩ := exists_of_bind_eq_ok h
    cases h

/-- No value is written as an empty record. -/
theorem Datum.encode_ne_emptyRecord {x : Datum} : Datum.encode f x ≠ .ok f.emptyRecord := by
  intro h
  cases x with
  | entity e =>
    rw [Datum.encode_entity] at h
    exact EntityOf.encode_ne_emptyRecord h
  | classId x =>
    rw [Datum.encode] at h
    exact FieldCodec.encodeChoice_ne_emptyRecord h
  | list items =>
    rw [Datum.encode] at h
    obtain ⟨vs, -, hvs⟩ := exists_of_map_eq_ok h
    cases f <;> cases hvs
  | tagId id =>
    rw [Datum.encode] at h
    cases id <;> cases f <;> cases h
  | _ =>
    rw [Datum.encode] at h
    cases f <;> cases h

/-- What a field of a hook writes is no empty record. -/
theorem Cell.value_ne_emptyRecord {c : Cell Datum} {p : Put f} (h : c.put? f = some p) :
    p.value ≠ .ok f.emptyRecord := by
  obtain ⟨shape, value⟩ := c
  cases value with
  | none => cases h
  | some x =>
    change Datum.put? shape.spec x (Datum.encode f x) = _ at h
    unfold Datum.put? at h
    split at h
    · cases h
    · obtain rfl := Option.some.inj h
      exact Datum.encode_ne_emptyRecord

theorem Slot.value_ne_emptyRecord {B : Type} {slot : Slot B} {p : Put f}
    (hp : p ∈ Slot.puts f slot) : p.value ≠ .ok f.emptyRecord := by
  cases slot with
  | none => cases hp
  | some hook =>
    obtain ⟨c, -, hput⟩ := List.mem_filterMap.1 hp
    exact Cell.value_ne_emptyRecord hput

end Rim
