import Rim.Hook.Bundle
/-!
# Hooks of whole documents

A bundle of hooks goes to a document part by part: to the document itself, then to the parts it
holds, in their order.  The first part that refuses its hook ends this, and what was attached until
then stays.

## Main definitions

* `Attached`: an entity after this, with the refusal that ended it.
* `Attachable`: the entities that carry hooks or hold entities that do.
* `Comid.attach`, `Corim.attach`: the parts of the two kinds of documents.
-/

namespace Rim

/-! ## Turns

A part that refuses leaves the parts before it with their hooks and the parts after it without. -/

/-- An entity after hooks went to its parts in turn, with the refusal that ended this, if any. -/
structure Attached (E : Type) where
  entity : E
  refusal : Option HookRefusal := none

namespace Attached

variable {E P : Type}

/-- The outcome of attaching one hook. -/
def ofExcept (e : E) : Except HookRefusal E → Attached E
  | .ok e' => ⟨e', none⟩
  | .error refusal => ⟨e, some refusal⟩

@[simp] theorem ofExcept_ok (e e' : E) : ofExcept e (.ok e') = ⟨e', none⟩ := rfl

@[simp] theorem ofExcept_error (e : E) (refusal : HookRefusal) :
    ofExcept e (.error refusal) = ⟨e, some refusal⟩ := rfl

/-- The next parts have their turn unless an earlier one refused. -/
def andThen (a : Attached E) (step : E → Attached E) : Attached E :=
  match a.refusal with
  | some _ => a
  | none => step a.entity

@[simp] theorem andThen_of_none (e : E) (step : E → Attached E) :
    andThen ⟨e, none⟩ step = step e := rfl

/-- An entity in which one part is replaced by what attaching made of it. -/
def map (f : P → E) (a : Attached P) : Attached E := ⟨f a.entity, a.refusal⟩

@[simp] theorem entity_map (f : P → E) (a : Attached P) : (a.map f).entity = f a.entity := rfl

@[simp] theorem refusal_map (f : P → E) (a : Attached P) : (a.map f).refusal = a.refusal := rfl

/-- The items of a list in turn. -/
def items (step : P → Attached P) : List P → Attached (List P)
  | [] => ⟨[], none⟩
  | p :: rest =>
    let a := step p
    match a.refusal with
    -- The items after the one that refused keep what they had.
    | some refusal => ⟨a.entity :: rest, some refusal⟩
    | none => (items step rest).map (a.entity :: ·)

/-- The entity, if no part refused its hook. -/
def toExcept (a : Attached E) : Except HookRefusal E :=
  match a.refusal with
  | some refusal => .error refusal
  | none => .ok a.entity

@[simp] theorem toExcept_ofExcept (e : E) (r : Except HookRefusal E) :
    (ofExcept e r).toExcept = r := by
  cases r <;> rfl

end Attached

/-! ## The parts of documents

The order of the parts decides which refusal is reported, and what is attached before it. -/

/-- Entities that carry hooks or hold entities that do. -/
class Attachable (E : Type) where
  attach : HookSource → E → Attached E

/-- The hook of an entity's own position. -/
def HookSource.attachOwn {E : Type} [Hookable E] (h : HookSource) (e : E) : Attached E :=
  Attached.ofExcept e (h.attach e)

instance : Attachable Entity where
  attach := HookSource.attachOwn

instance : Attachable FlagsMap where
  attach := HookSource.attachOwn

/-- Measured values, then their flags. -/
def Mval.attach (hooks : HookSource) (v : Mval) : Attached Mval :=
  (hooks.attachOwn v).andThen fun v =>
    match v.flags with
    | some flags => (hooks.attachOwn flags).map fun a => { v with flags := some a }
    | none => ⟨v, none⟩

instance : Attachable Mval where
  attach := Mval.attach

instance : Attachable Measurement where
  attach hooks m := (Mval.attach hooks m.value).map fun a => { m with value := a }

instance : Attachable ValueTriple where
  attach hooks t :=
    (Attached.items (Attachable.attach hooks) t.measurements).map fun a =>
      { t with measurements := a }

/-- Triples, then the reference values, then the endorsed values, which have hooks of their
own. -/
def Triples.attach (hooks : HookSource) (t : Triples) : Attached Triples :=
  (hooks.attachOwn t).andThen fun t =>
    ((Attached.items (Attachable.attach hooks) t.referenceValues).map fun a =>
      { t with referenceValues := a }).andThen fun t =>
    (Attached.items (Attachable.attach (hooks.withStandIns StandIn.endorsed)) t.endorsedValues).map
      fun a => { t with endorsedValues := a }

instance : Attachable Triples where
  attach := Triples.attach

/-- A module identifier, then its entities, then its triples. -/
def Comid.attach (hooks : HookSource) (d : Comid) : Attached Comid :=
  (hooks.attachOwn d).andThen fun d =>
    ((Attached.items (Attachable.attach hooks) d.entities).map fun a =>
      { d with entities := a }).andThen fun d =>
    (Triples.attach hooks d.triples).map fun a => { d with triples := a }

instance : Attachable Comid where
  attach := Comid.attach

instance : Attachable CorimEntity where
  attach := HookSource.attachOwn

/-- A manifest, then its entities. -/
def Corim.attach (hooks : HookSource) (d : Corim) : Attached Corim :=
  (hooks.attachOwn d).andThen fun d =>
    (Attached.items (Attachable.attach hooks) d.entities).map fun a => { d with entities := a }

instance : Attachable Corim where
  attach := Corim.attach

/-- An entity with all hooks of a context attached, if the context has hooks. -/
def Context.attach {E : Type} [Attachable E] (cx : Context) (e : E) : Except HookRefusal E :=
  match cx.hooks with
  | some hooks => (Attachable.attach hooks e).toExcept
  | none => .ok e

end Rim
