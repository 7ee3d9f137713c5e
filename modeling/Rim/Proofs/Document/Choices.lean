import Rim.Document.Equality
import Rim.Proofs.Choice.Told
/-!
# The choices of documents

Two own variants that are equal are the same, and so are equal variants of some types from outside.
Then equality tells every part of a document that holds no slot.

## Main definitions

* `OutsideVariants`: variants registered from outside that equality tells.
* `TypeChoice.EqOwn`: families whose choices are told by equality.
* `Comid.EveryChoice`, `Corim.EveryChoice`: a property of the choices of a document.

## Main results

* `TypeChoice.eq_of_beq_option`, `TypeChoice.eq_of_beq_list`: equal choices are the same.
* `Environment.eq_of_beq`, `KeyTriple.eq_of_beq`: so are equal parts that hold them.
-/

namespace Rim

/-! ## Lists and options -/

section

variable {α : Type} [BEq α]

/-- What is made of the items of equal lists is the same if it is for equal items. -/
theorem map_eq_of_beq {β : Type} {f : α → β} {xs ys : List α}
    (heq : ∀ x ∈ xs, ∀ y ∈ ys, (x == y) = true → f x = f y) (h : (xs == ys) = true) :
    xs.map f = ys.map f := by
  induction xs generalizing ys with
  | nil =>
    cases ys with
    | nil => rfl
    | cons _ _ => cases h
  | cons x xs ih =>
    cases ys with
    | nil => cases h
    | cons y ys =>
      obtain ⟨hfirst, hrest⟩ := Bool.and_eq_true_iff.1 h
      rw [List.map_cons, List.map_cons, heq x List.mem_cons_self y List.mem_cons_self hfirst,
        ih (fun x hx y hy => heq x (List.mem_cons_of_mem _ hx) y (List.mem_cons_of_mem _ hy)) hrest]

theorem map_eq_of_beq_option {β : Type} {f : α → β} {x y : Option α}
    (heq : ∀ a ∈ x, ∀ b ∈ y, (a == b) = true → f a = f b) (h : (x == y) = true) :
    x.map f = y.map f := by
  cases x with
  | none =>
    cases y with
    | none => rfl
    | some _ => cases h
  | some a =>
    cases y with
    | none => cases h
    | some b => exact congrArg some (heq a rfl b rfl h)

theorem eq_of_beq_list {xs ys : List α} (heq : ∀ x ∈ xs, ∀ y ∈ ys, (x == y) = true → x = y)
    (h : (xs == ys) = true) : xs = ys := by
  have hmap : xs.map id = ys.map id := map_eq_of_beq heq h
  rwa [List.map_id, List.map_id] at hmap

theorem eq_of_beq_option {x y : Option α} (heq : ∀ a ∈ x, ∀ b ∈ y, (a == b) = true → a = b)
    (h : (x == y) = true) : x = y := by
  have hmap : x.map id = y.map id := map_eq_of_beq_option heq h
  rwa [Option.map_id_apply, Option.map_id_apply] at hmap

end

/-! ## Choices

Two own variants that are equal are the same.  What it means for variants registered from outside to
be equal is for their types to say. -/

/-- Variants registered from outside of which any two are the same if they are equal. -/
structure OutsideVariants where
  holds : Variant → Prop
  eq_of_agrees : ∀ v w, holds v → holds w → v.agrees w = true → v = w

/-- Equality tells the choices of a family that hold own variants, or some from outside. -/
class TypeChoice.EqOwn (T : Type) [TypeChoice T] [BEq T] : Prop where
  eq_of_beq : ∀ (outside : OutsideVariants) (x y : T), IsAmong outside.holds x →
    IsAmong outside.holds y → (x == y) = true → x = y

variable {outside : OutsideVariants}

namespace TypeChoice

instance : EqOwn ClassId where
  eq_of_beq outside x y hx hy h := by
    cases x <;> cases y <;> first
      | exact congrArg _ (LawfulBEq.eq_of_beq h)
      | cases h
      | exact congrArg _ (outside.eq_of_agrees _ _ (hx rfl) (hy rfl) h)

instance : EqOwn InstanceId where
  eq_of_beq outside x y hx hy h := by
    cases x <;> cases y <;> first
      | exact congrArg _ (LawfulBEq.eq_of_beq h)
      | cases h
      | exact congrArg _ (outside.eq_of_agrees _ _ (hx rfl) (hy rfl) h)

instance : EqOwn GroupId where
  eq_of_beq outside x y hx hy h := by
    cases x <;> cases y <;> first
      | exact congrArg _ (LawfulBEq.eq_of_beq h)
      | cases h
      | exact congrArg _ (outside.eq_of_agrees _ _ (hx rfl) (hy rfl) h)

instance : EqOwn Mkey where
  eq_of_beq outside x y hx hy h := by
    cases x <;> cases y <;> first
      | exact congrArg _ (LawfulBEq.eq_of_beq h)
      | cases h
      | exact congrArg _ (outside.eq_of_agrees _ _ (hx rfl) (hy rfl) h)

instance : EqOwn CryptoKey where
  eq_of_beq outside x y hx hy h := by
    cases x <;> cases y <;> first
      | exact congrArg _ (LawfulBEq.eq_of_beq h)
      | cases h
      | exact congrArg _ (outside.eq_of_agrees _ _ (hx rfl) (hy rfl) h)

instance : EqOwn ConciseTag where
  eq_of_beq outside x y hx hy h := by
    cases x <;> cases y <;> first
      | exact congrArg _ (LawfulBEq.eq_of_beq h)
      | cases h
      | exact congrArg _ (outside.eq_of_agrees _ _ (hx rfl) (hy rfl) h)

instance : EqOwn ProfileId where
  eq_of_beq outside x y hx hy h := by
    cases x <;> cases y <;> first
      | exact congrArg _ (LawfulBEq.eq_of_beq h)
      | cases h
      | exact congrArg _ (outside.eq_of_agrees _ _ (hx rfl) (hy rfl) h)

variable {T : Type} [TypeChoice T] [BEq T] [EqOwn T]

theorem eq_of_beq_option {x y : Option T} (hx : ∀ a ∈ x, IsAmong outside.holds a)
    (hy : ∀ b ∈ y, IsAmong outside.holds b) (h : (x == y) = true) : x = y :=
  Rim.eq_of_beq_option
    (fun a ha b hb => EqOwn.eq_of_beq outside a b (hx a ha) (hy b hb)) h

theorem eq_of_beq_list {xs ys : List T} (hxs : ∀ x ∈ xs, IsAmong outside.holds x)
    (hys : ∀ y ∈ ys, IsAmong outside.holds y) (h : (xs == ys) = true) : xs = ys :=
  Rim.eq_of_beq_list (fun x hx y hy => EqOwn.eq_of_beq outside x y (hxs x hx) (hys y hy)) h

end TypeChoice

/-! ### Choices of documents

A property of choices of all families may be had by every choice of a part of a document. -/

section

variable {V : Type} (p : ∀ {T : Type} [TypeChoice T], T → Prop)

/-- The class is named by a choice with the property, if it is. -/
def EnvClass.EveryChoice (c : EnvClass) : Prop := ∀ x ∈ c.classId, p x

/-- The environment is told by choices with the property. -/
def Environment.EveryChoice (e : Environment) : Prop :=
  (∀ c ∈ e.envClass, c.EveryChoice p) ∧ (∀ x ∈ e.instanceId, p x) ∧ ∀ x ∈ e.group, p x

/-- The key of a measurement and those authorized to vouch for it have the property. -/
def Measurement.EveryChoice (m : Measurement V) : Prop :=
  (∀ x ∈ m.key, p x) ∧ ∀ x ∈ m.authorizedBy, p x

/-- The choices of a triple of values have the property. -/
def ValueTriple.EveryChoice (t : ValueTriple V) : Prop :=
  t.environment.EveryChoice p ∧ ∀ m ∈ t.measurements, m.EveryChoice p

/-- The choices of a triple of keys have the property. -/
def KeyTriple.EveryChoice (t : KeyTriple) : Prop :=
  t.environment.EveryChoice p ∧ ∀ x ∈ t.verificationKeys, p x

/-- The choices of triples of all sorts have the property. -/
def Triples.EveryChoice (t : Triples V) : Prop :=
  (∀ v ∈ t.referenceValues, v.EveryChoice p) ∧ (∀ v ∈ t.endorsedValues, v.EveryChoice p) ∧
    (∀ k ∈ t.devIdentityKeys, k.EveryChoice p) ∧
      ∀ k ∈ t.attesterVerificationKeys, k.EveryChoice p

/-- The choices of a module identifier have the property. -/
def Comid.EveryChoice (d : Comid V) : Prop := d.triples.EveryChoice p

/-- The tags and the profile of a manifest have the property. -/
def Corim.EveryChoice (d : Corim V) : Prop := (∀ t ∈ d.tags, p t) ∧ ∀ x ∈ d.profile, p x

end

/-- Equal classes are the same.  Derived equality is the conjunction over the fields in their order.
-/
theorem EnvClass.eq_of_beq {c c' : EnvClass} (hc : c.EveryChoice (TypeChoice.IsAmong outside.holds))
    (hc' : c'.EveryChoice (TypeChoice.IsAmong outside.holds)) (h : (c == c') = true) : c = c' := by
  obtain ⟨classId, vendor, model, layer, index⟩ := c
  obtain ⟨classId', vendor', model', layer', index'⟩ := c'
  change (classId == classId' && (vendor == vendor' && (model == model' &&
    (layer == layer' && index == index')))) = true at h
  simp only [Bool.and_eq_true, beq_iff_eq] at h
  obtain ⟨hclass, rfl, rfl, rfl, rfl⟩ := h
  obtain rfl := TypeChoice.eq_of_beq_option hc hc' hclass
  rfl

/-- Equal environments are the same. -/
theorem Environment.eq_of_beq {e e' : Environment}
    (he : e.EveryChoice (TypeChoice.IsAmong outside.holds))
    (he' : e'.EveryChoice (TypeChoice.IsAmong outside.holds)) (h : (e == e') = true) : e = e' := by
  obtain ⟨envClass, instanceId, group⟩ := e
  obtain ⟨envClass', instanceId', group'⟩ := e'
  obtain ⟨hclass, hinstance, hgroup⟩ := he
  obtain ⟨hclass', hinstance', hgroup'⟩ := he'
  obtain ⟨h₁, h⟩ := Bool.and_eq_true_iff.1 h
  obtain ⟨h₂, h₃⟩ := Bool.and_eq_true_iff.1 h
  obtain rfl := eq_of_beq_option
    (fun c hc c' hc' => EnvClass.eq_of_beq (hclass c hc) (hclass' c' hc')) h₁
  obtain rfl := TypeChoice.eq_of_beq_option hinstance hinstance' h₂
  obtain rfl := TypeChoice.eq_of_beq_option hgroup hgroup' h₃
  rfl

theorem KeyTriple.eq_of_beq {t t' : KeyTriple}
    (ht : t.EveryChoice (TypeChoice.IsAmong outside.holds))
    (ht' : t'.EveryChoice (TypeChoice.IsAmong outside.holds)) (h : (t == t') = true) : t = t' := by
  obtain ⟨environment, keys⟩ := t
  obtain ⟨environment', keys'⟩ := t'
  obtain ⟨h₁, h₂⟩ := Bool.and_eq_true_iff.1 h
  obtain rfl := Environment.eq_of_beq ht.1 ht'.1 h₁
  obtain rfl := TypeChoice.eq_of_beq_list ht.2 ht'.2 h₂
  rfl

end Rim
