import Rim.Hook.Bundle
import Rim.Proofs.Validity
/-!
# The order of validation

A validation goes through a tree of records.  Each record has its own checks and the parts it holds
inspected in some order, and the constraint of its hook comes last.  So whatever order the checks
and the parts of a record have, a constraint is asked only when nothing is wrong with its record or
below it, and a constraint that refuses is what the whole validation reports unless something else
was wrong before.

The trees are written down for every record type beside the validators, and each is shown to run as
the validator does.  What holds of all trees then holds of all validators.

## Main definitions

* `Inspection`: a record as its validation sees it; `Inspection.run` for the validation.
* `Inspection.Has`: the records within a record, with their places.
* `Inspection.ChecksHold`, `Inspection.verdict`: a record's own checks, and what its constraint
  says.
* `Inspectable`: records whose validator runs through a tree.
* `Inspection.Explains`: what a tree says about the outcome of a validation.
* `Comid.HasSlot`, `Corim.HasSlot`: the slots of the documents with the bodies they belong to.

## Main results

* `Inspection.run_eq_ok_iff_forall`: valid is what holds at every record.
* `Inspection.run_eq_extension`: where the error of a constraint comes from.
* `Slot.validate_of_constraint`: a slot says what the constraint of its hook says.
* `Comid.HasSlot.asks`, `Corim.HasSlot.asks`: no slot is left out of a tree.
* `Comid.HasSlot.accepted`, `Corim.HasSlot.accepted`: valid documents satisfy every constraint.
* `constraints_come_last`: all of it for the documents.
-/

namespace Rim

/-! ## Places

The wrappers of an error, outermost first, are the way from the document to the record. -/

/-- One step from a record to a part of it. -/
inductive Wrapper where
  | field (name : String)
  | item (label : String) (index : Nat)
  deriving DecidableEq, Repr

/-- An error seen from one step further out. -/
def Wrapper.wrap : Wrapper → ValidityError → ValidityError
  | field name, e => .field name e
  | item label index, e => .item label index e

namespace ValidityError

/-- An error seen from where its record is a part at some place. -/
def wrapped (place : List Wrapper) (e : ValidityError) : ValidityError := place.foldr Wrapper.wrap e

@[simp] theorem wrapped_nil (e : ValidityError) : e.wrapped [] = e := rfl

@[simp] theorem wrapped_cons (w : Wrapper) (place : List Wrapper) (e : ValidityError) :
    e.wrapped (w :: place) = w.wrap (e.wrapped place) := rfl

/-- An error is wrapped place by place. -/
theorem wrapped_append (place place' : List Wrapper) (e : ValidityError) :
    e.wrapped (place ++ place') = (e.wrapped place').wrapped place :=
  List.foldr_append

/-- Wrapping an error leaves its root cause. -/
theorem innermost_wrapped (place : List Wrapper) (e : ValidityError) :
    (e.wrapped place).innermost = e.innermost := by
  induction place with
  | nil => rfl
  | cons w place ih =>
    rw [wrapped_cons]
    cases w <;> exact ih

/-- The errors of kind extension are those whose root cause is the error of a constraint. -/
theorem kind_eq_extension_iff {e : ValidityError} :
    e.kind = .extension ↔ ∃ o, e.innermost = .extension o := by
  induction e with
  | field name source ih => exact ih
  | item label index source ih => exact ih
  | extension o => exact ⟨fun _ => ⟨o, rfl⟩, fun _ => rfl⟩
  | invalid fault =>
    constructor
    · intro h
      cases h
    · rintro ⟨o, ⟨⟩⟩
  | choice cause =>
    constructor
    · intro h
      cases cause <;> cases h
    · rintro ⟨o, ⟨⟩⟩

end ValidityError

/-- An outcome seen from where the record is a part at some place. -/
def Validate.under (place : List Wrapper) : Validity → Validity
  | .ok () => .ok ()
  | .error e => .error (e.wrapped place)

/-! ## Constraints -/

namespace Slot

variable {B : Type} {h : Hook B} {body : B}

/-- What a slot says of a body is what the constraint of its hook says, asked about the body and
what the hook holds. -/
theorem validate_of_constraint {rule : B → HookView → Except Objection Unit}
    (hrule : h.constraint = some rule) :
    Slot.validate (some h) body = rule body (Hook.view h) := by
  simp only [validate, hrule]

/-- A hook without a constraint accepts every body. -/
theorem validate_of_no_constraint (hrule : h.constraint = none) :
    Slot.validate (some h) body = .ok () := by
  simp only [validate, hrule]

/-- A slot accepts a body if the constraint of its hook does. -/
theorem validate_eq_ok_iff {s : Slot B} : Slot.validate s body = .ok () ↔
    ∀ h ∈ s, ∀ rule ∈ h.constraint, rule body (Hook.view h) = .ok () := by
  constructor
  · rintro hok h rfl rule hrule
    rw [← validate_of_constraint hrule, hok]
  · intro hrules
    cases s with
    | none => rfl
    | some h =>
      cases hrule : h.constraint with
      | none => exact validate_of_no_constraint hrule
      | some rule => rw [validate_of_constraint hrule, hrules h rfl rule hrule]

end Slot

/-! ## Trees of records -/

/-- A record as its validation sees it: checks of its own and parts it holds, in turn, and at the
end the constraint of its hook, if it is a record with a slot. -/
inductive Inspection where
  | done
  | constraint {k : EntityKind} (slot : Slot k.Body) (body : k.Body)
  | ensure (condition : Bool) (fault : Fault) (rest : Inspection)
  | choice (outcome : Except VariantError Unit) (rest : Inspection)
  | part (place : List Wrapper) (inner rest : Inspection)

namespace Inspection

/-- The validation of a record, which ends at the first step that fails. -/
def run : Inspection → Validity
  | done => .ok ()
  | constraint slot body => Slot.validity slot body
  | ensure condition fault rest => do
    Validate.ensure condition fault
    rest.run
  | choice outcome rest => do
    Validate.ofChoice outcome
    rest.run
  | part place inner rest => do
    Validate.under place inner.run
    rest.run

/-- The parts of a record with their places in it. -/
def parts : Inspection → List (List Wrapper × Inspection)
  | done | constraint _ _ => []
  | ensure _ _ rest | choice _ rest => rest.parts
  | part place inner rest => (place, inner) :: rest.parts

/-- A record's own checks hold. -/
def ChecksHold : Inspection → Prop
  | done | constraint _ _ => True
  | ensure condition _ rest => condition = true ∧ rest.ChecksHold
  | choice outcome rest => outcome = .ok () ∧ rest.ChecksHold
  | part _ _ rest => rest.ChecksHold

/-- What the constraint attached to a record says of it. -/
def verdict : Inspection → Except Objection Unit
  | done => .ok ()
  | constraint slot body => Slot.validate slot body
  | ensure _ _ rest | choice _ rest | part _ _ rest => rest.verdict

/-- A record is, or has within it, another one at some place. -/
inductive Has : Inspection → List Wrapper → Inspection → Prop
  | self (r : Inspection) : Has r [] r
  | part {r inner n : Inspection} {place place' : List Wrapper} :
    (place, inner) ∈ r.parts → Has inner place' n → Has r (place ++ place') n

/-- One record is below another. -/
def Below (m n : Inspection) : Prop := ∃ p ∈ n.parts, ∃ place, p.2.Has place m

/-- Nothing is wrong with a record itself: its own checks hold, and its constraint accepts it. -/
structure Sound (r : Inspection) : Prop where
  checks : r.ChecksHold
  accepted : r.verdict = .ok ()

/-- The constraint of a record refuses it, and nothing else is wrong with it or below it. -/
structure RefusedBy (r : Inspection) (o : Objection) : Prop where
  checks : r.ChecksHold
  below : ∀ m : Inspection, m.Below r → m.Sound
  refused : r.verdict = .error o

/-- Somewhere in a tree a slot is asked about a body. -/
def Asks (r : Inspection) {k : EntityKind} (slot : Slot k.Body) (body : k.Body) : Prop :=
  ∃ place n, r.Has place n ∧ n.verdict = Slot.validate slot body

/-- What a tree says about the outcome of a validation: which records must be sound, and where the
error of a constraint comes from. -/
structure Explains (r : Inspection) (outcome : Validity) : Prop where
  ok_iff : outcome = .ok () ↔ ∀ place n, r.Has place n → n.Sound
  extension : ∀ e o, outcome = .error e → e.innermost = .extension o →
    e.kind = .extension ∧ ∃ place n, r.Has place n ∧ n.RefusedBy o ∧
      e = ValidityError.wrapped place (.extension o)

variable {r m n : Inspection}

theorem ofExtension_eq_ok_iff {v : Except Objection Unit} :
    Validate.ofExtension v = .ok () ↔ v = .ok () := by
  cases v <;> simp [Validate.ofExtension]

/-- Where a record is a part makes no difference to whether it is valid. -/
theorem under_eq_ok_iff {place : List Wrapper} {v : Validity} :
    Validate.under place v = .ok () ↔ v = .ok () := by
  cases v <;> simp [Validate.under]

/-- A validation succeeds if the record is sound and the validation of each part succeeds. -/
theorem run_eq_ok_iff :
    r.run = .ok () ↔ r.Sound ∧ ∀ p ∈ r.parts, p.2.run = .ok () := by
  induction r with
  | done => exact ⟨fun _ => ⟨⟨trivial, rfl⟩, List.forall_mem_nil _⟩, fun _ => rfl⟩
  | constraint slot body =>
    rw [run, Slot.validity, ofExtension_eq_ok_iff]
    constructor
    · intro h
      exact ⟨⟨trivial, h⟩, List.forall_mem_nil _⟩
    · intro h
      exact h.1.accepted
  | ensure condition fault rest ih =>
    rw [run, Validate.bind_eq_ok_iff, Validate.ensure_eq_ok_iff, ih]
    constructor
    · rintro ⟨hcondition, hrest, hparts⟩
      exact ⟨⟨⟨hcondition, hrest.checks⟩, hrest.accepted⟩, hparts⟩
    · rintro ⟨h, hparts⟩
      exact ⟨h.checks.1, ⟨h.checks.2, h.accepted⟩, hparts⟩
  | choice outcome rest ih =>
    rw [run, Validate.bind_eq_ok_iff, Validate.ofChoice_eq_ok_iff, ih]
    constructor
    · rintro ⟨houtcome, hrest, hparts⟩
      exact ⟨⟨⟨houtcome, hrest.checks⟩, hrest.accepted⟩, hparts⟩
    · rintro ⟨h, hparts⟩
      exact ⟨h.checks.1, ⟨h.checks.2, h.accepted⟩, hparts⟩
  | part place inner rest ihInner ihRest =>
    rw [run, Validate.bind_eq_ok_iff, under_eq_ok_iff, ihRest, parts, List.forall_mem_cons]
    constructor
    · rintro ⟨hinner, hrest, hparts⟩
      exact ⟨⟨hrest.checks, hrest.accepted⟩, hinner, hparts⟩
    · rintro ⟨h, hinner, hparts⟩
      exact ⟨hinner, ⟨h.checks, h.accepted⟩, hparts⟩

/-- A validation succeeds if the record is sound and everything in its parts is.  This is not said
of all that the record has, since what remains of a record after some steps is none of those. -/
theorem run_eq_ok_of_sound (hr : r.Sound)
    (hparts : ∀ p ∈ r.parts, ∀ place n, p.2.Has place n → n.Sound) : r.run = .ok () := by
  rw [run_eq_ok_iff]
  refine ⟨hr, ?_⟩
  induction r with
  | done => exact List.forall_mem_nil _
  | constraint slot body => exact List.forall_mem_nil _
  | ensure condition fault rest ih => exact ih ⟨hr.checks.2, hr.accepted⟩ hparts
  | choice outcome rest ih => exact ih ⟨hr.checks.2, hr.accepted⟩ hparts
  | part place inner rest ihInner ihRest =>
    obtain ⟨hinner, hrest⟩ := List.forall_mem_cons.1 hparts
    have hsound : inner.Sound := hinner [] inner (.self inner)
    have hinnerParts : ∀ p ∈ inner.parts, ∀ place n, p.2.Has place n → n.Sound := by
      intro p hp place n hn
      exact hinner _ n (.part hp hn)
    rw [parts, List.forall_mem_cons]
    exact ⟨run_eq_ok_iff.2 ⟨hsound, ihInner hsound hinnerParts⟩,
      ihRest ⟨hr.checks, hr.accepted⟩ hrest⟩

/-- A validation succeeds exactly if every record is sound. -/
theorem run_eq_ok_iff_forall : r.run = .ok () ↔ ∀ place n, r.Has place n → n.Sound := by
  constructor
  · intro h place n hn
    induction hn with
    | self r => exact (run_eq_ok_iff.1 h).1
    | part hp _ ih => exact ih ((run_eq_ok_iff.1 h).2 _ hp)
  · intro h
    apply run_eq_ok_of_sound (h [] r (.self r))
    intro p hp place n hn
    exact h _ n (.part hp hn)

/-- The parts of a record are sound throughout if their validations succeed. -/
theorem sound_of_below (h : ∀ p ∈ r.parts, p.2.run = .ok ()) (hm : m.Below r) : m.Sound := by
  obtain ⟨p, hp, place, hplace⟩ := hm
  exact run_eq_ok_iff_forall.1 (h p hp) place m hplace

/-- An error whose root cause is the error of a constraint comes from the constraint of the record
itself, which is otherwise sound, or from within one of its parts. -/
theorem run_eq_extension {e : ValidityError} {o : Objection} (h : r.run = .error e)
    (ho : e.innermost = .extension o) :
    (r.ChecksHold ∧ (∀ p ∈ r.parts, p.2.run = .ok ()) ∧ r.verdict = .error o ∧
        e = .extension o) ∨
      ∃ p ∈ r.parts, ∃ place n, p.2.Has place n ∧ n.RefusedBy o ∧
        e = ValidityError.wrapped (p.1 ++ place) (.extension o) := by
  induction r generalizing e with
  | done => cases h
  | constraint slot body =>
    left
    cases hv : Slot.validate slot body with
    | ok u =>
      rw [run, Slot.validity, hv] at h
      cases h
    | error o' =>
      rw [run, Slot.validity, hv] at h
      cases h
      cases ho
      exact ⟨trivial, List.forall_mem_nil _, hv, rfl⟩
  | ensure condition fault rest ih =>
    cases condition with
    | false =>
      cases h
      cases ho
    | true =>
      obtain ⟨hchecks, hrest⟩ | hpart := ih h ho
      · exact .inl ⟨⟨rfl, hchecks⟩, hrest⟩
      · exact .inr hpart
  | choice outcome rest ih =>
    cases outcome with
    | error cause =>
      cases h
      cases ho
    | ok u =>
      obtain ⟨hchecks, hrest⟩ | hpart := ih h ho
      · exact .inl ⟨⟨rfl, hchecks⟩, hrest⟩
      · exact .inr hpart
  | part place inner rest ihInner ihRest =>
    cases hinner : inner.run with
    | error e' =>
      rw [run, hinner] at h
      obtain rfl : e'.wrapped place = e := Except.error.inj h
      rw [ValidityError.innermost_wrapped] at ho
      refine .inr ⟨(place, inner), List.mem_cons_self, ?_⟩
      obtain ⟨hchecks, hparts, hverdict, rfl⟩ | ⟨p, hp, place', n, hn, hrefused, rfl⟩ :=
        ihInner hinner ho
      · refine ⟨[], inner, .self inner,
          ⟨hchecks, fun m hm => sound_of_below hparts hm, hverdict⟩, ?_⟩
        rw [List.append_nil]
      · refine ⟨p.1 ++ place', n, .part hp hn, hrefused, ?_⟩
        exact (ValidityError.wrapped_append _ _ _).symm
    | ok u =>
      rw [run, hinner] at h
      obtain ⟨hchecks, hparts, hverdict⟩ | ⟨p, hp, hpart⟩ := ihRest h ho
      · exact .inl ⟨hchecks, List.forall_mem_cons.2 ⟨hinner, hparts⟩, hverdict⟩
      · exact .inr ⟨p, List.mem_cons_of_mem _ hp, hpart⟩

/-- A tree explains its own validation. -/
theorem explains_run (r : Inspection) : r.Explains r.run where
  ok_iff := run_eq_ok_iff_forall
  extension e o h ho := by
    refine ⟨ValidityError.kind_eq_extension_iff.2 ⟨o, ho⟩, ?_⟩
    obtain ⟨hchecks, hparts, hverdict, rfl⟩ | ⟨p, hp, place, n, hn, hrefused, rfl⟩ :=
      run_eq_extension h ho
    · exact ⟨[], r, .self r, ⟨hchecks, fun m hm => sound_of_below hparts hm, hverdict⟩, rfl⟩
    · exact ⟨p.1 ++ place, n, .part hp hn, hrefused, rfl⟩

/-! ## Steps -/

/-- The part under a field, if it has one. -/
def ifAny {α : Type} (name : String) (inspection : α → Inspection) :
    Option α → Inspection → Inspection
  | some a, rest => part [.field name] (inspection a) rest
  | none, rest => rest

/-- The items of a list under a field in turn, the first at an index. -/
def itemsFrom {α : Type} (name label : String) (inspection : α → Inspection) :
    Nat → List α → Inspection → Inspection
  | _, [], rest => rest
  | i, a :: as, rest =>
    part [.field name, .item label i] (inspection a)
      (itemsFrom name label inspection (i + 1) as rest)

end Inspection

/-- Records whose validator runs through a tree. -/
class Inspectable (α : Type) [Validate α] where
  inspection : α → Inspection
  run_inspection : ∀ a, (inspection a).run = Validate.validate a

namespace Inspection

variable {α : Type} [Validate α] [Inspectable α]

open Inspectable (inspection run_inspection)

/-- A value of a type choice or a payload, which has one check and no parts. -/
def ofCheck (outcome : Except VariantError Unit) : Inspection := choice outcome done

theorem run_ofCheck (outcome : Except VariantError Unit) :
    (ofCheck outcome).run = Validate.ofChoice outcome := by
  cases outcome <;> rfl

theorem under_field (name : String) (a : α) :
    Validate.under [.field name] (inspection a).run = Validate.field name a := by
  rw [run_inspection, Validate.field]
  cases Validate.validate a <;> rfl

theorem run_ifAny (name : String) (o : Option α) (rest : Inspection) :
    (ifAny name inspection o rest).run = (do Validate.fieldIfAny name o; rest.run) := by
  cases o with
  | none => rfl
  | some a => rw [ifAny, run, under_field, Validate.fieldIfAny]

theorem underField_bind (name : String) (v w : Validity) :
    Validate.underField name (do v; w) =
      (do Validate.underField name v; Validate.underField name w) := by
  cases v <;> rfl

/-- The items of a list are inspected as their validation goes, from an index on. -/
theorem run_itemsFrom (name label : String) (i : Nat) (as : List α) (rest : Inspection) :
    (itemsFrom name label inspection i as rest).run =
      (do Validate.underField name (Validate.itemsFrom label i as); rest.run) := by
  induction as generalizing i with
  | nil => rfl
  | cons a as ih =>
    rw [itemsFrom, run, ih, run_inspection, Validate.itemsFrom, underField_bind]
    cases Validate.validate a <;> rfl

/-- The items of a list are inspected as their validation goes. -/
theorem run_items (name label : String) (as : List α) (rest : Inspection) :
    (itemsFrom name label inspection 0 as rest).run =
      (do Validate.items name label as; rest.run) :=
  run_itemsFrom name label 0 as rest

section Parts

variable {α : Type} {name label : String} {inspection : α → Inspection} {i : Nat} {as : List α}
  {o : Option α} {rest : Inspection}

/-- A part that may be absent is not the constraint of the record. -/
@[simp] theorem verdict_ifAny : (ifAny name inspection o rest).verdict = rest.verdict := by
  cases o <;> rfl

@[simp] theorem verdict_itemsFrom :
    (itemsFrom name label inspection i as rest).verdict = rest.verdict := by
  induction as generalizing i with
  | nil => rfl
  | cons a as ih => exact ih

theorem mem_parts_ifAny {p : List Wrapper × Inspection} :
    p ∈ (ifAny name inspection o rest).parts ↔
      (∃ a, o = some a ∧ p = ([.field name], inspection a)) ∨ p ∈ rest.parts := by
  cases o with
  | none => simp [ifAny]
  | some a => simp [ifAny, parts]

theorem mem_parts_itemsFrom {p : List Wrapper × Inspection} :
    p ∈ (itemsFrom name label inspection i as rest).parts ↔
      (∃ j a, as[j]? = some a ∧ p = ([.field name, .item label (i + j)], inspection a)) ∨
        p ∈ rest.parts := by
  induction as generalizing i with
  | nil => simp [itemsFrom]
  | cons a as ih =>
    rw [itemsFrom, parts, List.mem_cons, ih, ← or_assoc]
    apply or_congr_left
    constructor
    · rintro (rfl | ⟨j, b, hb, rfl⟩)
      · exact ⟨0, a, rfl, rfl⟩
      · exact ⟨j + 1, b, hb, by rw [Nat.add_right_comm, Nat.add_assoc]⟩
    · rintro ⟨_ | j, b, hb, rfl⟩
      · obtain rfl : a = b := Option.some.inj hb
        exact .inl rfl
      · exact .inr ⟨j, b, hb, by rw [Nat.add_right_comm, Nat.add_assoc]⟩

end Parts

theorem under_nil (v : Validity) : Validate.under [] v = v := by
  cases v <;> rfl

theorem bind_accept (v : Validity) : (do v; .ok ()) = v := by
  cases v <;> rfl

end Inspection

/-! ## Values

Type choices and payloads have one check each. -/

section Values

open Inspection

instance : Inspectable ClassId := ⟨fun x => ofCheck (TypeChoice.check x), fun _ => run_ofCheck _⟩

instance : Inspectable InstanceId := ⟨fun x => ofCheck (TypeChoice.check x), fun _ => run_ofCheck _⟩

instance : Inspectable GroupId := ⟨fun x => ofCheck (TypeChoice.check x), fun _ => run_ofCheck _⟩

instance : Inspectable Mkey := ⟨fun x => ofCheck (TypeChoice.check x), fun _ => run_ofCheck _⟩

instance : Inspectable CryptoKey := ⟨fun x => ofCheck (TypeChoice.check x), fun _ => run_ofCheck _⟩

instance : Inspectable ConciseTag := ⟨fun x => ofCheck (TypeChoice.check x), fun _ => run_ofCheck _⟩

instance : Inspectable ProfileId := ⟨fun x => ofCheck (TypeChoice.check x), fun _ => run_ofCheck _⟩

instance : Inspectable Ueid := ⟨fun u => ofCheck (Ueid.payload.check u), fun _ => run_ofCheck _⟩

instance : Inspectable Uuid := ⟨fun u => ofCheck (Uuid.payload.check u), fun _ => run_ofCheck _⟩

instance : Inspectable Digest := ⟨fun d => ofCheck d.check, fun _ => run_ofCheck _⟩

instance : Inspectable TagId where
  inspection id := ensure id.isSet .emptyTagId (ensure (!id.isMisheld) .misheldTagId done)
  run_inspection id := by
    simp only [run, bind_accept]
    rfl

end Values

/-! ## Records

Each tree lists the steps of the validator of its record in their order. -/

section Records

open Inspection Inspectable

instance : Inspectable EntityIdentity where
  inspection i :=
    ensure (!i.name.isEmpty) .emptyName <|
    ifAny "regid" (fun uri => ensure (Uri.isAbsolute uri) (.relativeUri uri) done) i.regId done
  run_inspection i := by
    obtain ⟨name, _ | uri⟩ := i
    · rfl
    · simp only [run, ifAny, bind_accept]
      rfl

instance : Inspectable Entity where
  inspection e :=
    .part [] (inspection e.identity) <|
    ensure (!e.roles.isEmpty) (.noItems "roles") <|
    constraint (k := .comidEntity) e.hook e.toEntityBody
  run_inspection e := by
    simp only [run, run_inspection, under_nil]
    rfl

instance : Inspectable CorimEntity where
  inspection e :=
    .part [] (inspection e.identity) <|
    ensure (!e.roles.isEmpty) (.noItems "roles") <|
    constraint (k := .corimEntity) e.hook e.toCorimEntityBody
  run_inspection e := by
    simp only [run, run_inspection, under_nil]
    rfl

instance : Inspectable TagIdentity where
  inspection t := .part [.field "id"] (inspection t.tagId) done
  run_inspection t := by
    simp only [run, under_field, bind_accept]
    rfl

instance : Inspectable LinkedTag where
  inspection t :=
    .part [.field "target"] (inspection t.target) <|
    .part [.field "rel"] (match t.rel with
      | .other code => ensure false (.unknownRelation code) done
      | _ => done) done
  run_inspection t := by
    simp only [run, under_field, bind_accept]
    obtain ⟨target, rel⟩ := t
    cases rel <;> rfl

instance : Inspectable EnvClass where
  inspection c :=
    ensure (!c.isEmpty) .emptyClass <|
    ifAny "class-id" inspection c.classId done
  run_inspection c := by
    simp only [run, run_ifAny, bind_accept]
    rfl

instance : Inspectable Environment where
  inspection e :=
    ensure (!e.isEmpty) .emptyEnvironment <|
    ifAny "class" inspection e.envClass <|
    ifAny "instance" inspection e.instanceId <|
    ifAny "group" inspection e.group done
  run_inspection e := by
    simp only [run, run_ifAny, bind_accept]
    rfl

instance : Inspectable FlagsMap where
  inspection m := constraint (k := .flags) m.hook m.toFlagsBody
  run_inspection _ := rfl

instance : Inspectable Mval where
  inspection v :=
    ensure (!v.isVacant) .unsetValues <|
    itemsFrom "digests" "digest" inspection 0 v.digests <|
    ifAny "flags" inspection v.flags <|
    ifAny "ueid" inspection v.ueid <|
    ifAny "uuid" inspection v.uuid <|
    constraint (k := .mval) v.hook v.toMvalBody
  run_inspection v := by
    simp only [run, run_items, run_ifAny]
    rfl

instance : Inspectable Measurement where
  inspection m :=
    ifAny "key" inspection m.key <|
    .part [.field "value"] (inspection m.value) <|
    itemsFrom "authorized-by" "key" inspection 0 m.authorizedBy done
  run_inspection m := by
    simp only [run, run_ifAny, under_field, run_items, bind_accept]
    rfl

instance : Inspectable ValueTriple where
  inspection t :=
    .part [.field "environment"] (inspection t.environment) <|
    ensure (!t.measurements.isEmpty) (.noItems "measurements") <|
    itemsFrom "measurements" "measurement" inspection 0 t.measurements done
  run_inspection t := by
    simp only [run, under_field, run_items, bind_accept]
    rfl

instance : Inspectable KeyTriple where
  inspection t :=
    .part [.field "environment"] (inspection t.environment) <|
    ensure (!t.verificationKeys.isEmpty) (.noItems "verification keys") <|
    itemsFrom "verification-keys" "key" inspection 0 t.verificationKeys done
  run_inspection t := by
    simp only [run, under_field, run_items, bind_accept]
    rfl

instance : Inspectable Triples where
  inspection t :=
    ensure (!t.isEmpty || Slot.holdsValues t.hook) .emptyTriples <|
    itemsFrom "reference-values" "triple" inspection 0 t.referenceValues <|
    itemsFrom "endorsed-values" "triple" inspection 0 t.endorsedValues <|
    itemsFrom "dev-identity-keys" "triple" inspection 0 t.devIdentityKeys <|
    itemsFrom "attester-verification-keys" "triple" inspection 0 t.attesterVerificationKeys <|
    constraint (k := .triples) t.hook t.toTriplesBody
  run_inspection t := by
    simp only [run, run_items]
    rfl

instance : Inspectable Comid where
  inspection d :=
    .part [.field "tag-identity"] (inspection d.tagIdentity) <|
    itemsFrom "entities" "entity" inspection 0 d.entities <|
    itemsFrom "linked-tags" "linked tag" inspection 0 d.linkedTags <|
    .part [.field "triples"] (inspection d.triples) <|
    constraint (k := .comid) d.hook d.toComidBody
  run_inspection d := by
    simp only [run, under_field, run_items]
    rfl

instance : Inspectable Corim where
  inspection d :=
    .part [.field "corim-id"] (inspection d.id) <|
    ensure (!d.tags.isEmpty) (.noItems "tags") <|
    itemsFrom "tags" "tag" inspection 0 d.tags <|
    ifAny "profile" inspection d.profile <|
    itemsFrom "entities" "entity" inspection 0 d.entities <|
    constraint (k := .corim) d.hook d.toCorimBody
  run_inspection d := by
    simp only [run, under_field, run_items, run_ifAny]
    rfl

end Records

/-! ## Every slot is asked

No slot of a document is left out of its tree. -/

/-- The slots among the measured values of a triple, with the bodies they are attached to. -/
inductive ValueTriple.HasSlot (t : ValueTriple) : (k : EntityKind) → Slot k.Body → k.Body → Prop
  | values {m : Measurement} : m ∈ t.measurements →
    HasSlot t .mval m.value.hook m.value.toMvalBody
  | flags {m : Measurement} {flags : FlagsMap} : m ∈ t.measurements → m.value.flags = some flags →
    HasSlot t .flags flags.hook flags.toFlagsBody

/-- The slots of a module identifier, with the bodies they are attached to. -/
inductive Comid.HasSlot (d : Comid) : (k : EntityKind) → Slot k.Body → k.Body → Prop
  | own : HasSlot d .comid d.hook d.toComidBody
  | entity {e : Entity} : e ∈ d.entities → HasSlot d .comidEntity e.hook e.toEntityBody
  | triples : HasSlot d .triples d.triples.hook d.triples.toTriplesBody
  | reference {t : ValueTriple} {k : EntityKind} {slot : Slot k.Body} {body : k.Body} :
    t ∈ d.triples.referenceValues → t.HasSlot k slot body → HasSlot d k slot body
  | endorsed {t : ValueTriple} {k : EntityKind} {slot : Slot k.Body} {body : k.Body} :
    t ∈ d.triples.endorsedValues → t.HasSlot k slot body → HasSlot d k slot body

/-- The slots of a manifest, with the bodies they are attached to. -/
inductive Corim.HasSlot (d : Corim) : (k : EntityKind) → Slot k.Body → k.Body → Prop
  | own : HasSlot d .corim d.hook d.toCorimBody
  | entity {e : CorimEntity} : e ∈ d.entities →
    HasSlot d .corimEntity e.hook e.toCorimEntityBody

section Slots

open Inspection Inspectable

variable {k : EntityKind} {slot : Slot k.Body} {body : k.Body}

/-- A record asks its own slot. -/
theorem Inspection.Asks.self {r : Inspection} (h : r.verdict = Slot.validate slot body) :
    r.Asks slot body :=
  ⟨[], r, .self r, h⟩

/-- What a part of a record asks, the record asks. -/
theorem Inspection.Asks.part {r inner : Inspection} {place : List Wrapper}
    (hpart : (place, inner) ∈ r.parts) (h : inner.Asks slot body) : r.Asks slot body := by
  obtain ⟨place', n, hn, hverdict⟩ := h
  exact ⟨place ++ place', n, .part hpart hn, hverdict⟩

/-- What an item of a list asks, the record asks whose field comes next. -/
theorem Inspection.Asks.item {α : Type} {name label : String} {see : α → Inspection} {as : List α}
    {r rest : Inspection} {a : α} (ha : a ∈ as) (h : (see a).Asks slot body)
    (hr : ∀ p ∈ (itemsFrom name label see 0 as rest).parts, p ∈ r.parts) : r.Asks slot body := by
  obtain ⟨j, hj⟩ := List.getElem?_of_mem ha
  exact .part (hr _ (mem_parts_itemsFrom.2 (.inl ⟨j, a, hj, rfl⟩))) h

theorem Measurement.part_value (m : Measurement) :
    ([.field "value"], inspection m.value) ∈ (inspection m).parts :=
  mem_parts_ifAny.2 (.inr List.mem_cons_self)

theorem Measurement.asks_values (m : Measurement) :
    (inspection m).Asks (k := .mval) m.value.hook m.value.toMvalBody :=
  .part m.part_value (.self (by simp [inspection, verdict]))

theorem Measurement.asks_flags {m : Measurement} {flags : FlagsMap}
    (h : m.value.flags = some flags) :
    (inspection m).Asks (k := .flags) flags.hook flags.toFlagsBody := by
  have hpart : ([.field "flags"], inspection flags) ∈ (inspection m.value).parts :=
    mem_parts_itemsFrom.2 (.inr (mem_parts_ifAny.2 (.inl ⟨flags, h, rfl⟩)))
  exact .part m.part_value (.part hpart (.self rfl))

theorem ValueTriple.HasSlot.asks {t : ValueTriple} (h : t.HasSlot k slot body) :
    (inspection t).Asks slot body := by
  cases h with
  | values hm => exact .item hm (Measurement.asks_values _) fun p hp => List.mem_cons_of_mem _ hp
  | flags hm hflags =>
    exact .item hm (Measurement.asks_flags hflags) fun p hp => List.mem_cons_of_mem _ hp

theorem Triples.asks_reference {t : Triples} {v : ValueTriple} (hv : v ∈ t.referenceValues)
    (h : v.HasSlot k slot body) : (inspection t).Asks slot body :=
  .item hv h.asks fun _ hp => hp

theorem Triples.asks_endorsed {t : Triples} {v : ValueTriple} (hv : v ∈ t.endorsedValues)
    (h : v.HasSlot k slot body) : (inspection t).Asks slot body :=
  .item hv h.asks fun _ hp => mem_parts_itemsFrom.2 (.inr hp)

theorem Comid.part_triples (d : Comid) :
    ([.field "triples"], inspection d.triples) ∈ (inspection d).parts :=
  List.mem_cons_of_mem _
    (mem_parts_itemsFrom.2 (.inr (mem_parts_itemsFrom.2 (.inr List.mem_cons_self))))

/-- The tree of a module identifier asks each of its slots. -/
theorem Comid.HasSlot.asks {d : Comid} (h : d.HasSlot k slot body) :
    (inspection d).Asks slot body := by
  cases h with
  | own => exact .self (by simp [inspection, verdict])
  | entity he => exact .item he (.self rfl) fun p hp => List.mem_cons_of_mem _ hp
  | triples => exact .part d.part_triples (.self (by simp [inspection, verdict]))
  | reference ht hslot => exact .part d.part_triples (Triples.asks_reference ht hslot)
  | endorsed ht hslot => exact .part d.part_triples (Triples.asks_endorsed ht hslot)

/-- The tree of a manifest asks each of its slots. -/
theorem Corim.HasSlot.asks {d : Corim} (h : d.HasSlot k slot body) :
    (inspection d).Asks slot body := by
  cases h with
  | own => exact .self (by simp [inspection, verdict])
  | @entity e he =>
    obtain ⟨j, hj⟩ := List.getElem?_of_mem he
    have hpart : ([.field "entities", .item "entity" (0 + j)], inspection e) ∈
        (inspection d).parts := by
      refine List.mem_cons_of_mem _ (mem_parts_itemsFrom.2 (.inr (mem_parts_ifAny.2 (.inr ?_))))
      exact mem_parts_itemsFrom.2 (.inl ⟨j, e, hj, rfl⟩)
    exact .part hpart (.self rfl)

end Slots

/-! ## The documents -/

/-- The tree of a record explains what its validator says. -/
theorem Inspectable.explains {α : Type} [Validate α] [Inspectable α] (a : α) :
    (inspection a).Explains (Validate.validate a) := by
  rw [← run_inspection]
  exact Inspection.explains_run _

/-- In a valid document every constraint accepts the body that its hook is attached to. -/
theorem Comid.HasSlot.accepted {d : Comid} {k : EntityKind} {slot : Slot k.Body} {body : k.Body}
    (h : d.HasSlot k slot body) (hvalid : Validate.validate d = .ok ()) :
    ∀ hook ∈ slot, ∀ rule ∈ hook.constraint, rule body (Hook.view hook) = .ok () := by
  obtain ⟨place, n, hn, hverdict⟩ := h.asks
  have hsound := (Inspectable.explains d).ok_iff.1 hvalid place n hn
  exact Slot.validate_eq_ok_iff.1 (hverdict ▸ hsound.accepted)

theorem Corim.HasSlot.accepted {d : Corim} {k : EntityKind} {slot : Slot k.Body} {body : k.Body}
    (h : d.HasSlot k slot body) (hvalid : Validate.validate d = .ok ()) :
    ∀ hook ∈ slot, ∀ rule ∈ hook.constraint, rule body (Hook.view hook) = .ok () := by
  obtain ⟨place, n, hn, hverdict⟩ := h.asks
  have hsound := (Inspectable.explains d).ok_iff.1 hvalid place n hn
  exact Slot.validate_eq_ok_iff.1 (hverdict ▸ hsound.accepted)

/-- A document is valid exactly if all checks of all its records hold and every attached constraint
accepts; the error of a constraint is reported as it is, and only when nothing else is wrong with
its record or below it. -/
theorem constraints_come_last :
    (∀ d : Comid, (Inspectable.inspection d).Explains (Validate.validate d) ∧
      ∀ k slot body, d.HasSlot k slot body → (Inspectable.inspection d).Asks slot body) ∧
    ∀ d : Corim, (Inspectable.inspection d).Explains (Validate.validate d) ∧
      ∀ k slot body, d.HasSlot k slot body → (Inspectable.inspection d).Asks slot body := by
  constructor
  · intro d
    exact ⟨Inspectable.explains d, fun _ _ _ h => h.asks⟩
  · intro d
    exact ⟨Inspectable.explains d, fun _ _ _ h => h.asks⟩

/-- A hook that refuses whatever it is attached to. -/
def refusing {B : Type} (message : String) : Hook B where
  typeName := "refusing"
  constraint := some fun _ _ => .error ⟨message⟩

/-- A module identifier whose constraint and that of its triples both refuse. -/
def refusedComid : Comid where
  tagIdentity := { tagId := .text "t" }
  triples := {
    devIdentityKeys := [{
      environment := { envClass := some { vendor := some "ACME" } }
      verificationKeys := [.coseKey ⟨[1]⟩] }]
    hook := some (refusing "no triples") }
  hook := some (refusing "no module")

/-- What the triples' constraint says is reported, and that of the module identifier is not
asked. -/
theorem constraints_come_last_refusedComid :
    Validate.validate refusedComid = .error (.field "triples" (.extension ⟨"no triples"⟩)) ∧
      ∃ place n, (Inspectable.inspection refusedComid).Has place n ∧
        n.RefusedBy ⟨"no triples"⟩ ∧
        ValidityError.field "triples" (.extension ⟨"no triples"⟩) =
          ValidityError.wrapped place (.extension ⟨"no triples"⟩) := by
  have hvalidate : Validate.validate refusedComid =
      .error (.field "triples" (.extension ⟨"no triples"⟩)) := rfl
  obtain ⟨hexplains, -⟩ := constraints_come_last.1 refusedComid
  exact ⟨hvalidate, (hexplains.extension _ _ hvalidate rfl).2⟩

end Rim
