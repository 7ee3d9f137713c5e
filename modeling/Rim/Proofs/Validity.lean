import Rim.Validity.Corim
/-!
# What validity means

A validation succeeds exactly if each of its steps does, so a record is valid exactly if a list of
conditions holds: its own content says something, and what it holds is valid.

## Main results

* `Validate.items_eq_ok_iff` and its like: when a step succeeds.
* `Mval.validate_eq_ok_iff`, `Comid.validate_eq_ok_iff` and their like: when a record is valid.
-/

namespace Rim

/-! ## Steps -/

namespace Validate

variable {α : Type}

/-- Two steps succeed if both do. -/
theorem bind_eq_ok_iff {a : Validity} {b : Unit → Validity} :
    (a >>= b) = .ok () ↔ a = .ok () ∧ b () = .ok () := by
  cases a with
  | ok u => exact ⟨fun h => ⟨rfl, h⟩, fun h => h.2⟩
  | error e =>
    constructor
    · intro h
      cases h
    · rintro ⟨h, -⟩
      cases h

theorem ensure_eq_ok_iff {condition : Bool} {fault : Fault} :
    ensure condition fault = .ok () ↔ condition = true := by
  cases condition <;> simp [ensure]

theorem underField_eq_ok_iff {name : String} {v : Validity} :
    underField name v = .ok () ↔ v = .ok () := by
  cases v <;> simp [underField]

theorem underIndex_eq_ok_iff {label : String} {index : Nat} {v : Validity} :
    underIndex label index v = .ok () ↔ v = .ok () := by
  cases v <;> simp [underIndex]

theorem ofChoice_eq_ok_iff {r : Except VariantError Unit} : ofChoice r = .ok () ↔ r = .ok () := by
  cases r <;> simp [ofChoice]

theorem field_eq_ok_iff [Validate α] {name : String} {a : α} :
    field name a = .ok () ↔ validate a = .ok () :=
  underField_eq_ok_iff

theorem fieldIfAny_eq_ok_iff [Validate α] {name : String} {o : Option α} :
    fieldIfAny name o = .ok () ↔ ∀ a ∈ o, validate a = .ok () := by
  cases o with
  | none => simp [fieldIfAny]
  | some a =>
    rw [fieldIfAny, field_eq_ok_iff]
    simp

theorem itemsFrom_eq_ok_iff [Validate α] {label : String} {index : Nat} {as : List α} :
    itemsFrom label index as = .ok () ↔ ∀ a ∈ as, validate a = .ok () := by
  induction as generalizing index with
  | nil => simp [itemsFrom]
  | cons a rest ih =>
    rw [itemsFrom, bind_eq_ok_iff, underIndex_eq_ok_iff, ih, List.forall_mem_cons]

/-- A list is valid if its items are. -/
theorem items_eq_ok_iff [Validate α] {name label : String} {as : List α} :
    items name label as = .ok () ↔ ∀ a ∈ as, validate a = .ok () :=
  underField_eq_ok_iff.trans itemsFrom_eq_ok_iff

/-- A list that must have items has some. -/
theorem nonEmpty_eq_ok_iff {label : String} {as : List α} :
    nonEmpty label as = .ok () ↔ as ≠ [] := by
  rw [nonEmpty, ensure_eq_ok_iff, Bool.not_eq_true', List.isEmpty_eq_false_iff]

end Validate

/-! ## Records

The steps of each record in their order. -/

section Records

open Validate

theorem TypeChoice.validity_eq_ok_iff {T : Type} [TypeChoice T] {x : T} :
    TypeChoice.validity x = .ok () ↔ TypeChoice.check x = .ok () :=
  ofChoice_eq_ok_iff

/-- An identifier is valid if it is set and held as it should be. -/
theorem TagId.validate_eq_ok_iff {id : TagId} :
    validate id = .ok () ↔ id.isSet = true ∧ id.isMisheld = false := by
  refine bind_eq_ok_iff.trans (and_congr ensure_eq_ok_iff (ensure_eq_ok_iff.trans ?_))
  rw [Bool.not_eq_true']

/-- An identity is valid if it is named and its registration URI, if it has one, is absolute. -/
theorem EntityIdentity.validate_eq_ok_iff {i : EntityIdentity} :
    validate i = .ok () ↔
      i.name.isEmpty = false ∧ ∀ uri ∈ i.regId, Uri.isAbsolute uri = true := by
  refine bind_eq_ok_iff.trans (and_congr (ensure_eq_ok_iff.trans (by rw [Bool.not_eq_true'])) ?_)
  cases i.regId with
  | none => simp
  | some uri =>
    show underField "regid" (ensure (Uri.isAbsolute uri) (.relativeUri uri)) = .ok () ↔ _
    rw [underField_eq_ok_iff, ensure_eq_ok_iff]
    simp

/-- An entity is valid if it is named, has a role and satisfies its constraint. -/
theorem EntityOf.validate_eq_ok_iff {e : Entity} :
    validate e = .ok () ↔ validate e.identity = .ok () ∧ e.roles ≠ [] ∧
      Slot.validity e.hook e.toEntityBody = .ok () :=
  bind_eq_ok_iff.trans (and_congr .rfl (bind_eq_ok_iff.trans (and_congr nonEmpty_eq_ok_iff .rfl)))

theorem TagIdentity.validate_eq_ok_iff {t : TagIdentity} :
    validate t = .ok () ↔ validate t.tagId = .ok () :=
  field_eq_ok_iff

/-- A linked tag is valid if its target and the relation to it are. -/
theorem LinkedTag.validate_eq_ok_iff {t : LinkedTag} :
    validate t = .ok () ↔ validate t.target = .ok () ∧ t.rel.validity = .ok () :=
  bind_eq_ok_iff.trans (and_congr field_eq_ok_iff underField_eq_ok_iff)

/-- A class is valid if it says something and its identifier is valid. -/
theorem EnvClass.validate_eq_ok_iff {c : EnvClass} :
    validate c = .ok () ↔ c.isEmpty = false ∧ ∀ x ∈ c.classId, validate x = .ok () :=
  bind_eq_ok_iff.trans
    (and_congr (ensure_eq_ok_iff.trans (by rw [Bool.not_eq_true'])) fieldIfAny_eq_ok_iff)

/-- An environment is valid if it says something and what it says is valid. -/
theorem Environment.validate_eq_ok_iff {e : Environment} :
    validate e = .ok () ↔ e.isEmpty = false ∧ (∀ c ∈ e.envClass, validate c = .ok ()) ∧
      (∀ x ∈ e.instanceId, validate x = .ok ()) ∧ ∀ x ∈ e.group, validate x = .ok () := by
  refine bind_eq_ok_iff.trans (and_congr (ensure_eq_ok_iff.trans (by rw [Bool.not_eq_true'])) ?_)
  refine bind_eq_ok_iff.trans (and_congr fieldIfAny_eq_ok_iff ?_)
  exact bind_eq_ok_iff.trans (and_congr fieldIfAny_eq_ok_iff fieldIfAny_eq_ok_iff)

/-- Measured values are valid if there are any, all of them valid, and satisfy their constraint. -/
theorem Mval.validate_eq_ok_iff {v : Mval} :
    validate v = .ok () ↔ v.isVacant = false ∧ (∀ d ∈ v.digests, validate d = .ok ()) ∧
      (∀ m ∈ v.flags, validate m = .ok ()) ∧ (∀ u ∈ v.ueid, validate u = .ok ()) ∧
      (∀ u ∈ v.uuid, validate u = .ok ()) ∧ Slot.validity v.hook v.toMvalBody = .ok () := by
  refine bind_eq_ok_iff.trans (and_congr (ensure_eq_ok_iff.trans (by rw [Bool.not_eq_true'])) ?_)
  refine bind_eq_ok_iff.trans (and_congr items_eq_ok_iff ?_)
  refine bind_eq_ok_iff.trans (and_congr fieldIfAny_eq_ok_iff ?_)
  refine bind_eq_ok_iff.trans (and_congr fieldIfAny_eq_ok_iff ?_)
  exact bind_eq_ok_iff.trans (and_congr fieldIfAny_eq_ok_iff .rfl)

theorem Measurement.validate_eq_ok_iff {m : Measurement} :
    validate m = .ok () ↔ (∀ x ∈ m.key, validate x = .ok ()) ∧ validate m.value = .ok () ∧
      ∀ x ∈ m.authorizedBy, validate x = .ok () := by
  refine bind_eq_ok_iff.trans (and_congr fieldIfAny_eq_ok_iff ?_)
  exact bind_eq_ok_iff.trans (and_congr field_eq_ok_iff items_eq_ok_iff)

/-- A triple of values is valid if its environment is and it has measurements, all of them valid. -/
theorem ValueTriple.validate_eq_ok_iff {t : ValueTriple} :
    validate t = .ok () ↔ validate t.environment = .ok () ∧ t.measurements ≠ [] ∧
      ∀ m ∈ t.measurements, validate m = .ok () := by
  refine bind_eq_ok_iff.trans (and_congr field_eq_ok_iff ?_)
  exact bind_eq_ok_iff.trans (and_congr nonEmpty_eq_ok_iff items_eq_ok_iff)

theorem KeyTriple.validate_eq_ok_iff {t : KeyTriple} :
    validate t = .ok () ↔ validate t.environment = .ok () ∧ t.verificationKeys ≠ [] ∧
      ∀ k ∈ t.verificationKeys, validate k = .ok () := by
  refine bind_eq_ok_iff.trans (and_congr field_eq_ok_iff ?_)
  exact bind_eq_ok_iff.trans (and_congr nonEmpty_eq_ok_iff items_eq_ok_iff)

/-- Triples are valid if there are any, all of them valid, and satisfy their constraint. -/
theorem Triples.validate_eq_ok_iff {t : Triples} :
    validate t = .ok () ↔ (!t.isEmpty || Slot.holdsValues t.hook) = true ∧
      (∀ v ∈ t.referenceValues, validate v = .ok ()) ∧
      (∀ v ∈ t.endorsedValues, validate v = .ok ()) ∧
      (∀ k ∈ t.devIdentityKeys, validate k = .ok ()) ∧
      (∀ k ∈ t.attesterVerificationKeys, validate k = .ok ()) ∧
      Slot.validity t.hook t.toTriplesBody = .ok () := by
  refine bind_eq_ok_iff.trans (and_congr ensure_eq_ok_iff ?_)
  refine bind_eq_ok_iff.trans (and_congr items_eq_ok_iff ?_)
  refine bind_eq_ok_iff.trans (and_congr items_eq_ok_iff ?_)
  refine bind_eq_ok_iff.trans (and_congr items_eq_ok_iff ?_)
  exact bind_eq_ok_iff.trans (and_congr items_eq_ok_iff .rfl)

/-- A module identifier is valid if its parts are and it satisfies its constraint. -/
theorem Comid.validate_eq_ok_iff {d : Comid} :
    validate d = .ok () ↔ validate d.tagIdentity = .ok () ∧
      (∀ e ∈ d.entities, validate e = .ok ()) ∧ (∀ t ∈ d.linkedTags, validate t = .ok ()) ∧
      validate d.triples = .ok () ∧ Slot.validity d.hook d.toComidBody = .ok () := by
  refine bind_eq_ok_iff.trans (and_congr field_eq_ok_iff ?_)
  refine bind_eq_ok_iff.trans (and_congr items_eq_ok_iff ?_)
  refine bind_eq_ok_iff.trans (and_congr items_eq_ok_iff ?_)
  exact bind_eq_ok_iff.trans (and_congr field_eq_ok_iff .rfl)

/-- A manifest is valid if it has tags, its parts are valid and it satisfies its constraint. -/
theorem Corim.validate_eq_ok_iff {d : Corim} :
    validate d = .ok () ↔ validate d.id = .ok () ∧ d.tags ≠ [] ∧
      (∀ t ∈ d.tags, validate t = .ok ()) ∧ (∀ p ∈ d.profile, validate p = .ok ()) ∧
      (∀ e ∈ d.entities, validate e = .ok ()) ∧ Slot.validity d.hook d.toCorimBody = .ok () := by
  refine bind_eq_ok_iff.trans (and_congr field_eq_ok_iff ?_)
  refine bind_eq_ok_iff.trans (and_congr nonEmpty_eq_ok_iff ?_)
  refine bind_eq_ok_iff.trans (and_congr items_eq_ok_iff ?_)
  refine bind_eq_ok_iff.trans (and_congr fieldIfAny_eq_ok_iff ?_)
  exact bind_eq_ok_iff.trans (and_congr items_eq_ok_iff .rfl)

end Records

end Rim
