import Rim.Document.Equality
import Rim.Proofs.Hook.Told
/-!
# Slots that agree

Two slots are compared by the types of their hooks and by what these write in the text form.  So a
slot agrees with itself exactly if its hook can be written in the text form, and among slots that
can, agreement is an equivalence, whatever values their fields hold.  It says what the slots write
in the binary form too if the text form tells these values.

## Main definitions

* `Slot.IsWritable`: slots whose hooks are written in the text form.
* `Slot.Mistaken`: slots that agree and differ in the binary form.

## Main results

* `Slot.agrees_self_iff`, `Slot.agrees_comm`, `Slot.agrees_trans`: agreement as an equivalence.
* `Slot.puts_eq_of_agrees`: slots with told values that agree write the same in both forms.
-/

namespace Rim

variable {B V : Type} [HookValue V]

/-! ## What a hook has to compare -/

/-- A slot whose hook is written in the text form, each field with a value and no two of one key or
name. -/
def Slot.IsWritable (s : Slot B V) : Prop :=
  ∃ w, writeAll "extension" [] (Slot.puts .json s) = .ok w

section

variable {h : Hook B V}

/-- The values of a hook are the members that its fields write. -/
theorem Hook.fieldValues_of_cells {cells : List (Cell V)} (hfields : h.fields = some cells) :
    Hook.fieldValues h = (writeAll "extension" [] (Slot.puts .json (some h))).map fun w =>
      some (.object (WrittenField.members w)) := by
  have hcells : Slot.puts .json (some h) = cells.filterMap (Cell.put? .json) := by
    rw [Slot.puts, Hook.cells, hfields]
    rfl
  rw [fieldValues, hfields, hcells]
  rfl

/-- A hook without fields has no values to compare. -/
theorem Hook.fieldValues_of_none (hfields : h.fields = none) : Hook.fieldValues h = .ok none := by
  rw [fieldValues, hfields]

theorem Slot.puts_of_fields_none (hfields : h.fields = none) (f : Format) :
    Slot.puts f (some h) = [] := by
  rw [puts, Hook.cells, hfields]
  rfl

/-- A hook has values to compare exactly if it is written. -/
theorem Slot.isWritable_some_iff :
    Slot.IsWritable (some h) ↔ ∃ values, Hook.fieldValues h = .ok values := by
  cases hfields : h.fields with
  | none =>
    refine ⟨fun _ => ⟨none, Hook.fieldValues_of_none hfields⟩, fun _ => ⟨[], ?_⟩⟩
    rw [Slot.puts_of_fields_none hfields]
    rfl
  | some cells =>
    rw [Hook.fieldValues_of_cells hfields, Slot.IsWritable]
    cases writeAll "extension" [] (Slot.puts .json (some h)) with
    | error e => exact iff_of_false nofun nofun
    | ok w => exact iff_of_true ⟨w, rfl⟩ ⟨_, rfl⟩

/-- A hook without values to compare writes nothing. -/
theorem Slot.puts_of_fieldValues_none (hvalues : Hook.fieldValues h = .ok none) (f : Format) :
    Slot.puts f (some h) = [] := by
  cases hfields : h.fields with
  | none => exact Slot.puts_of_fields_none hfields f
  | some cells =>
    rw [Hook.fieldValues_of_cells hfields] at hvalues
    obtain ⟨_, -, hnone⟩ := exists_of_map_eq_ok hvalues
    cases hnone

/-- The values of a hook are the members that it writes. -/
theorem Slot.exists_of_fieldValues_some {values : Json}
    (hvalues : Hook.fieldValues h = .ok (some values)) :
    ∃ es : Written .json, Slot.puts .json (some h) = es.map Put.ofEntry ∧
      values = .object (WrittenField.members es) := by
  cases hfields : h.fields with
  | none =>
    rw [Hook.fieldValues_of_none hfields] at hvalues
    cases hvalues
  | some cells =>
    rw [Hook.fieldValues_of_cells hfields] at hvalues
    obtain ⟨es, hw, hobject⟩ := exists_of_map_eq_ok hvalues
    obtain ⟨_, hputs, rfl, -, -⟩ := writeAll_eq_ok_iff.1 hw
    exact ⟨_, hputs, (Option.some.inj hobject).symm⟩

end

/-! ## Agreement as an equivalence -/

namespace Slot

variable {a b c : Slot B V} {g h : Hook B V}

/-- Values agree if both could be written and their text forms agree. -/
theorem agreeValues_iff {x y : Coded (Option Json)} :
    agreeValues x y = true ↔ ∃ o o', x = .ok o ∧ y = .ok o' ∧ Option.Rel Json.Agree o o' := by
  constructor
  · intro hagree
    match x, y, hagree with
    | .ok none, .ok none, _ => exact ⟨none, none, rfl, rfl, .none⟩
    | .ok (some v), .ok (some w), hagree =>
      exact ⟨some v, some w, rfl, rfl, .some hagree⟩
  · rintro ⟨o, o', rfl, rfl, hrel⟩
    cases hrel with
    | none => rfl
    | some hagree => exact hagree

/-- Slots agree if their hooks are of one type and what these write agrees. -/
theorem agrees_some_iff : agrees (some g) (some h) = true ↔ g.typeName = h.typeName ∧
    ∃ o o', Hook.fieldValues g = .ok o ∧ Hook.fieldValues h = .ok o' ∧
      Option.Rel Json.Agree o o' := by
  rw [agrees, Bool.and_eq_true_iff, beq_iff_eq, agreeValues_iff]

/-- A slot agrees with itself exactly if its hook can be written in the text form. -/
theorem agrees_self_iff : a.agrees a = true ↔ a.IsWritable := by
  cases a with
  | none => exact ⟨fun _ => ⟨[], rfl⟩, fun _ => rfl⟩
  | some h =>
    rw [agrees_some_iff, isWritable_some_iff]
    constructor
    · rintro ⟨-, o, -, ho, -⟩
      exact ⟨o, ho⟩
    · rintro ⟨o, ho⟩
      exact ⟨rfl, o, o, ho, ho, rel_same Json.Agree.refl o⟩

/-- Agreement is symmetric. -/
theorem agrees_comm (a b : Slot B V) : a.agrees b = b.agrees a := by
  have hflip : ∀ {a b : Slot B V}, a.agrees b = true → b.agrees a = true := by
    intro a b hagree
    match a, b, hagree with
    | none, none, _ => rfl
    | some g, some h, hagree =>
      obtain ⟨htype, o, o', ho, ho', hrel⟩ := agrees_some_iff.1 hagree
      have hrel' := rel_flip (fun _ _ => Json.Agree.symm) hrel
      exact agrees_some_iff.2 ⟨htype.symm, o', o, ho', ho, hrel'⟩
  rw [Bool.eq_iff_iff]
  exact ⟨hflip, hflip⟩

/-- Agreement is transitive. -/
theorem agrees_trans (hab : a.agrees b = true) (hbc : b.agrees c = true) : a.agrees c = true := by
  match a, b, c, hab, hbc with
  | none, none, none, _, _ => rfl
  | some f, some g, some h, hab, hbc =>
    obtain ⟨htype, o, o₁, ho, ho₁, hrel⟩ := agrees_some_iff.1 hab
    obtain ⟨htype', o₂, o', ho₂, ho', hrel'⟩ := agrees_some_iff.1 hbc
    obtain rfl : o₁ = o₂ := Except.ok.inj (ho₁.symm.trans ho₂)
    exact agrees_some_iff.2 ⟨htype.trans htype', o, o', ho, ho',
      rel_trans (fun _ _ _ h h' => h.trans h') hrel hrel'⟩

/-- Slots that agree are written in the text form, both of them. -/
theorem isWritable_of_agrees (hagree : a.agrees b = true) : a.IsWritable ∧ b.IsWritable := by
  have hback : b.agrees a = true := by rw [agrees_comm, hagree]
  exact ⟨agrees_self_iff.1 (agrees_trans hagree hback),
    agrees_self_iff.1 (agrees_trans hback hagree)⟩

end Slot

/-! ## Slots with told values -/

variable {types : HookTypes} {outside : ToldVariants}

/-- Slots with told values that agree write the same in both forms, field for field: hooks of one
type declare the same fields, so these are compared one by one. -/
theorem Slot.puts_eq_of_agrees {a b : Slot B V} (ha : a.Told types outside)
    (hb : b.Told types outside) (hagree : a.agrees b = true) (f : Format) :
    Slot.puts f a = Slot.puts f b := by
  match a, b, ha, hb, hagree with
  | none, none, _, _, _ => rfl
  | some g, some h, ha, hb, hagree =>
    obtain ⟨htype, o, o', ho, ho', hrel⟩ := agrees_some_iff.1 hagree
    cases hrel with
    | none => rw [puts_of_fieldValues_none ho f, puts_of_fieldValues_none ho' f]
    | some hagree =>
      obtain ⟨es, hes, rfl⟩ := exists_of_fieldValues_some ho
      obtain ⟨es', hes', rfl⟩ := exists_of_fieldValues_some ho'
      have hg := ha.declares g rfl
      have hh := hb.declares h rfl
      have htold := Slot.told_written hg (htype ▸ hh) fun d hd x hx y hy =>
        (ha.values g rfl d hd x hx).textTells (hb.values h rfl d (htype ▸ hd) y hy)
      have hnames : ((Slot.written (some g)).map (·.spec.name)).Nodup := by
        have hspecs := congrArg (List.map FieldSpec.name) (Slot.map_spec_writtenOr hg)
        rw [List.map_map, List.map_map] at hspecs
        exact hspecs ▸ types.names g.typeName
      rw [puts_eq] at hes hes' ⊢
      rw [puts_eq]
      exact WrittenField.filterMap_put?_eq htold hnames hes hes' hagree f

/-- Two slots agree, but do not write the same in the binary form. -/
def Slot.Mistaken (a b : Slot B V) : Prop :=
  a.agrees b = true ∧ Slot.puts .cbor a ≠ Slot.puts .cbor b

end Rim
