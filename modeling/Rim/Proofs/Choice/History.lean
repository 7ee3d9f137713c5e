import Mathlib.Data.List.Induction
import Rim.Proofs.Choice.Coherent
/-!
# Histories of the catalogs

Whatever is registered and unregistered with the families, in any order and with any failures in
between, each catalog stays a pair of indexes that undo one another.  The first part of the module
is about one call on one catalog, the second about one call on the catalogs of all families, and the
third about lists of calls.

## Main definitions

* `CatalogCall`, `FamilyCall`: a call on one catalog, and on the catalog of one family.
* `CatalogsOver.after`: the catalogs after some calls.
* `Stands`: what some calls registered last and did not unregister since.

## Main results

* `CatalogCall.coherent_next`, `CatalogsOver.coherent_after`: calls keep the catalogs coherent.
* `CatalogCall.mem_next_iff`, `CatalogsOver.mem_after_iff`: the entries are what stands.
* `FamilyCall.step_comm`, `CatalogsOver.after_perm`: registrations may come in any order.
* `CatalogsOver.independent_bijections`: all of it together.
-/

namespace Rim

/-! ## One call

A call that fails leaves the catalog as it was.  Every registration, whichever form it has, offers
one entry that does not depend on the catalog, and inserts it. -/

/-- A call on the catalog of one family. -/
inductive CatalogCall (T : Type) : Type 1 where
  | register (name : String) (tag : UInt64) (build : Builder T)
  | registerBuilder (tag : UInt64) (build : Builder T)
  | registerPayload {α : Type} (p : PayloadType α) (wrap : α → T)
  | registerForeign {α : Type} (p : PayloadType α)
  | unregister (name : String)

/-- What a call answers if it succeeds. -/
inductive CallAnswer where
  | registered
  | learned (name : String)
  | removed (found : Bool)

namespace CatalogCall

variable {T : Type} [TypeChoice T]

/-- The catalog after a call, and the answer. -/
def run (c : CatalogCall T) (g : Catalog T) : Except VariantError (Catalog T × CallAnswer) :=
  match c with
  | register name tag build => (g.register name tag build).map (·, .registered)
  | registerBuilder tag build => (g.registerBuilder tag build).map fun p => (p.1, .learned p.2)
  | registerPayload p wrap => (g.registerPayload p wrap).map fun p => (p.1, .learned p.2)
  | registerForeign p => (g.registerForeign p).map fun p => (p.1, .learned p.2)
  | unregister name => .ok ((g.unregister name).1, .removed (g.unregister name).2)

/-- The catalog a call leaves behind, whether it succeeds or not. -/
def next (c : CatalogCall T) (g : Catalog T) : Catalog T :=
  match c.run g with
  | .ok (g', _) => g'
  | .error _ => g

/-- The builder that a call registers, if it is a registration. -/
def builder? : CatalogCall T → Option (Builder T)
  | register _ _ build => some build
  | registerBuilder _ build => some build
  | registerPayload p wrap => some fun input => (p.ofInput input).map wrap
  | registerForeign p =>
    some fun input => (p.ofInput input).map fun a => TypeChoice.ofVariant (p.variant a)
  | unregister _ => none

/-- A call succeeds in registering a builder under the name and the tag its sentinel reports. -/
structure Registers (c : CatalogCall T) (g : Catalog T) (e : CatalogEntry T) : Prop where
  builder : c.builder? = some e.build
  reported : Catalog.reported e.build = .ok (e.name, e.tag)
  succeeds : (c.run g).isOk

variable {c d : CatalogCall T} {g g' g'' : Catalog T} {e : CatalogEntry T} {build : Builder T}

/-- A registration fails on every catalog or offers every catalog one and the same entry.  The three
forms that learn the name are one form with different builders. -/
theorem run_registration (hc : c.builder? = some build) :
    (∃ err, ∀ g, c.run g = .error err) ∨
      ∃ e a, e.build = build ∧ Catalog.reported build = .ok (e.name, e.tag) ∧
        ∀ g, c.run g = (g.insert e).map (·, a) := by
  have hlearn : ∀ tag (build : Builder T),
      (∃ err, ∀ g, (registerBuilder tag build).run g = .error err) ∨
        ∃ e a, e.build = build ∧ Catalog.reported build = .ok (e.name, e.tag) ∧
          ∀ g, (registerBuilder tag build).run g = (g.insert e).map (·, a) := by
    intro tag build
    cases hfound : Catalog.reported build with
    | error err =>
      exact .inl ⟨err, fun g => by simp only [run, Catalog.registerBuilder, hfound]; rfl⟩
    | ok found =>
      obtain ⟨name, tag'⟩ := found
      by_cases htag : tag' = tag
      · subst htag
        refine .inr ⟨⟨name, tag', build⟩, .learned name, rfl, rfl, fun g => ?_⟩
        simp only [run, Catalog.registerBuilder, hfound, bind, Except.bind, if_true]
        cases g.insert ⟨name, tag', build⟩ <;> rfl
      · refine .inl ⟨.inconsistent (TypeChoice.family T) (name, tag) (name, tag'), fun g => ?_⟩
        simp only [run, Catalog.registerBuilder, hfound, bind, Except.bind, htag, if_false]
        rfl
  cases c with
  | register name tag build' =>
    obtain rfl : build' = build := Option.some.inj hc
    cases hfound : Catalog.reported build' with
    | error err => exact .inl ⟨err, fun g => by simp only [run, Catalog.register, hfound]; rfl⟩
    | ok found =>
      by_cases hpair : found = (name, tag)
      · subst hpair
        refine .inr ⟨⟨name, tag, build'⟩, .registered, rfl, rfl, fun g => ?_⟩
        simp only [run, Catalog.register, hfound, bind, Except.bind, if_true]
      · refine .inl ⟨.inconsistent (TypeChoice.family T) (name, tag) found, fun g => ?_⟩
        simp only [run, Catalog.register, hfound, bind, Except.bind, hpair, if_false]
        rfl
  | registerBuilder tag build' =>
    obtain rfl : build' = build := Option.some.inj hc
    exact hlearn tag build'
  | registerPayload p wrap =>
    obtain rfl := Option.some.inj hc
    exact hlearn p.tag _
  | registerForeign p =>
    obtain rfl := Option.some.inj hc
    exact hlearn p.tag _
  | unregister name => cases hc

/-- What is registered has been inserted. -/
theorem Registers.insert (h : c.Registers g e) : ∃ a, c.run g = (g.insert e).map (·, a) := by
  have hok := h.succeeds
  obtain ⟨err, hrun⟩ | ⟨e', a, hbuild, hfound, hrun⟩ := run_registration h.builder
  · rw [hrun] at hok
    cases hok
  · obtain ⟨hname, htag⟩ := Prod.mk.inj (Except.ok.inj (h.reported.symm.trans hfound))
    obtain rfl : e = e' := by
      cases e
      cases e'
      simp_all
    exact ⟨a, hrun g⟩

/-- Only a free name is registered. -/
theorem Registers.name_free (h : c.Registers g e) : g.hasName e.name = false := by
  obtain ⟨a, hrun⟩ := h.insert
  have hok := h.succeeds
  cases hinsert : g.insert e with
  | error err =>
    rw [hrun, hinsert] at hok
    cases hok
  | ok g' => exact (Catalog.insert_eq_ok_iff.1 hinsert).1

/-- What a call leaves behind: the catalog as it was, the catalog with one new entry, or the catalog
without the entry of a name. -/
theorem next_cases (c : CatalogCall T) (g : Catalog T) :
    (c.next g = g ∧ (∀ e, ¬ c.Registers g e) ∧ ∀ name, c ≠ .unregister name) ∨
      (∃ e, c.Registers g e ∧ g.insert e = .ok (c.next g)) ∨
      ∃ name, c = .unregister name ∧ c.next g = (g.unregister name).1 := by
  cases hbuilder : c.builder? with
  | none =>
    cases c with
    | unregister name => exact .inr (.inr ⟨name, rfl, rfl⟩)
    | _ => cases hbuilder
  | some build =>
    have hne : ∀ name, c ≠ .unregister name := by
      rintro name rfl
      cases hbuilder
    obtain ⟨err, hrun⟩ | ⟨e, a, rfl, hfound, hrun⟩ := run_registration hbuilder
    · refine .inl ⟨by rw [next, hrun], fun e he => ?_, hne⟩
      have hok := he.succeeds
      rw [hrun] at hok
      cases hok
    · cases hinsert : g.insert e with
      | error err =>
        refine .inl ⟨by rw [next, hrun, hinsert]; rfl, fun e' he => ?_, hne⟩
        have hok := he.succeeds
        rw [hrun, hinsert] at hok
        cases hok
      | ok g' =>
        have hnext : c.next g = g' := by
          rw [next, hrun, hinsert]
          rfl
        refine .inr (.inl ⟨e, ⟨hbuilder, hfound, ?_⟩, by rw [hnext, hinsert]⟩)
        rw [hrun, hinsert]
        rfl

/-- Calls keep a catalog coherent. -/
theorem coherent_next (h : g.Coherent) (c : CatalogCall T) : (c.next g).Coherent := by
  obtain ⟨hnext, -⟩ | ⟨e, -, hinsert⟩ | ⟨name, -, hnext⟩ := c.next_cases g
  · rwa [hnext]
  · exact h.insert hinsert
  · rw [hnext]
    exact h.unregister name

/-- A call registers one entry at most. -/
theorem Registers.eq (h : c.Registers g e) {e' : CatalogEntry T} (h' : c.Registers g e') :
    e = e' := by
  have hbuild : e.build = e'.build := Option.some.inj (h.builder.symm.trans h'.builder)
  have hreported := h.reported
  rw [hbuild, h'.reported] at hreported
  obtain ⟨hname, htag⟩ := Prod.mk.inj (Except.ok.inj hreported)
  cases e
  cases e'
  simp_all

/-- The entries after a call are the one it registers and those it does not unregister. -/
theorem mem_next_iff (h : g.Coherent) (c : CatalogCall T) :
    e ∈ (c.next g).byTag ↔ c.Registers g e ∨ e ∈ g.byTag ∧ c ≠ .unregister e.name := by
  obtain ⟨hnext, hnone, hne⟩ | ⟨e', he', hinsert⟩ | ⟨name, rfl, hnext⟩ := c.next_cases g
  · simp [hnext, hnone, hne]
  · have hne : ∀ name, c ≠ .unregister name := by
      rintro name rfl
      cases he'.builder
    have hiff : c.Registers g e ↔ e = e' := by
      constructor
      · exact fun he => he.eq he'
      · rintro rfl
        exact he'
    rw [(Catalog.insert_eq_ok_iff.1 hinsert).2.2]
    simp [hiff, hne]
  · have hnone : ¬ (unregister name).Registers g e := fun he => by cases he.builder
    have hne : (unregister name : CatalogCall T) ≠ unregister e.name ↔ e.name ≠ name := by
      simp [ne_comm]
    rw [hnext, h.byTag_unregister, List.mem_filter, bne_iff_ne, hne]
    simp only [hnone, false_or]

/-- Two registrations that succeed one after the other succeed in the other order too, with the
same answers, and leave the same catalog behind. -/
theorem run_comm {a b : CallAnswer} (hc : c.builder?.isSome) (hd : d.builder?.isSome)
    (hrun : c.run g = .ok (g', a)) (hrun' : d.run g' = .ok (g'', b)) :
    ∃ s, d.run g = .ok (s, b) ∧ c.run s = .ok (g'', a) := by
  obtain ⟨build, hc⟩ := Option.isSome_iff_exists.1 hc
  obtain ⟨build', hd⟩ := Option.isSome_iff_exists.1 hd
  obtain ⟨err, hcrun⟩ | ⟨e, a', -, -, hcrun⟩ := run_registration hc
  · rw [hcrun] at hrun
    cases hrun
  obtain ⟨err, hdrun⟩ | ⟨e', b', -, -, hdrun⟩ := run_registration hd
  · rw [hdrun] at hrun'
    cases hrun'
  rw [hcrun] at hrun
  rw [hdrun] at hrun'
  obtain ⟨s, hinsert, hs⟩ := exists_of_map_eq_ok hrun
  obtain ⟨s', hinsert', hs'⟩ := exists_of_map_eq_ok hrun'
  obtain ⟨rfl, rfl⟩ := Prod.mk.inj hs
  obtain ⟨rfl, rfl⟩ := Prod.mk.inj hs'
  obtain ⟨t, ht, ht'⟩ := Catalog.insert_comm hinsert hinsert'
  refine ⟨t, ?_, ?_⟩
  · rw [hdrun, ht]
    rfl
  · rw [hcrun, ht']
    rfl

end CatalogCall

/-! ## The catalogs of all families

A call on one family changes the catalog of that family only, so a history of all families is a
history of each. -/

variable {ι : Type} {V : ι → Type}

/-- A call on the catalog of one family among several. -/
structure FamilyCall {ι : Type} (V : ι → Type) where
  family : ι
  call : CatalogCall (V family)

variable [DecidableEq ι]

namespace CatalogsOver

variable {r : CatalogsOver V} {f f' : ι}

@[simp] theorem familyOrNew_set_self (r : CatalogsOver V) (f : ι) (g : Catalog (V f)) :
    (r.set f g).familyOrNew f = g := by
  simp [familyOrNew]

theorem familyOrNew_set_of_ne (r : CatalogsOver V) (h : f ≠ f') (g : Catalog (V f)) :
    (r.set f g).familyOrNew f' = r.familyOrNew f' := by
  rw [familyOrNew, get?_set_of_ne r h, familyOrNew]

theorem set_set (r : CatalogsOver V) (f : ι) (g g' : Catalog (V f)) :
    (r.set f g).set f g' = r.set f g' := by
  ext1
  funext k
  by_cases hk : f = k <;> simp [set, hk]

theorem set_comm (r : CatalogsOver V) (h : f ≠ f') (g : Catalog (V f)) (g' : Catalog (V f')) :
    (r.set f g).set f' g' = (r.set f' g').set f g := by
  ext1
  funext k
  by_cases hk : f = k
  · subst hk
    simp [set, h.symm]
  · simp [set, hk]

end CatalogsOver

variable [∀ f, TypeChoice (V f)]

namespace FamilyCall

/-- The catalogs after a call, and its outcome. -/
def step (c : FamilyCall V) (r : CatalogsOver V) :
    CatalogsOver V × Except VariantError CallAnswer :=
  r.modify c.family c.call.run

variable {c d : FamilyCall V} {r : CatalogsOver V} {f : ι}

/-- A call leaves its family as it would be left alone. -/
theorem step_fst (c : FamilyCall V) (r : CatalogsOver V) :
    (c.step r).1 = r.set c.family (c.call.next (r.familyOrNew c.family)) := by
  unfold step CatalogsOver.modify CatalogCall.next
  dsimp only
  cases c.call.run (r.familyOrNew c.family) <;> rfl

/-- A call answers what it would answer to its family alone. -/
theorem step_snd (c : FamilyCall V) (r : CatalogsOver V) :
    (c.step r).2 = (c.call.run (r.familyOrNew c.family)).map (·.2) := by
  unfold step CatalogsOver.modify
  dsimp only
  cases c.call.run (r.familyOrNew c.family) <;> rfl

theorem familyOrNew_step_self (c : CatalogCall (V f)) (r : CatalogsOver V) :
    (step ⟨f, c⟩ r).1.familyOrNew f = c.next (r.familyOrNew f) := by
  rw [step_fst, CatalogsOver.familyOrNew_set_self]

/-- A call on one family does not change another. -/
theorem get?_step_of_ne (h : c.family ≠ f) : (c.step r).1.get? f = r.get? f := by
  rw [step_fst, CatalogsOver.get?_set_of_ne r h]

/-- A call on one family leaves every other family. -/
theorem familyOrNew_step_of_ne (h : c.family ≠ f) :
    (c.step r).1.familyOrNew f = r.familyOrNew f := by
  rw [CatalogsOver.familyOrNew, get?_step_of_ne h, CatalogsOver.familyOrNew]

/-- A call that fails leaves the entries of every family as they were. -/
theorem familyOrNew_step_of_error {e : VariantError} (h : (c.step r).2 = .error e) (f : ι) :
    (c.step r).1.familyOrNew f = r.familyOrNew f := by
  by_cases hf : c.family = f
  · subst hf
    rw [step_snd] at h
    rw [step_fst, CatalogsOver.familyOrNew_set_self, CatalogCall.next]
    cases hrun : c.call.run (r.familyOrNew c.family) with
    | error e => rfl
    | ok p =>
      rw [hrun] at h
      cases h
  · exact familyOrNew_step_of_ne hf

/-- Calls keep the catalogs coherent. -/
theorem coherent_step (h : ∀ f, (r.familyOrNew f).Coherent) (c : FamilyCall V) (f : ι) :
    ((c.step r).1.familyOrNew f).Coherent := by
  obtain ⟨f', c⟩ := c
  by_cases hf : f' = f
  · subst hf
    rw [familyOrNew_step_self]
    exact c.coherent_next (h f')
  · rw [familyOrNew_step_of_ne hf]
    exact h f

theorem step_of_run {g : Catalog (V c.family)} {a : CallAnswer}
    (h : c.call.run (r.familyOrNew c.family) = .ok (g, a)) :
    c.step r = (r.set c.family g, .ok a) := by
  apply Prod.ext
  · rw [step_fst, CatalogCall.next, h]
  · rw [step_snd, h]
    rfl

theorem exists_run_of_isOk (h : (c.step r).2.isOk) :
    ∃ g a, c.call.run (r.familyOrNew c.family) = .ok (g, a) := by
  rw [step_snd] at h
  cases hrun : c.call.run (r.familyOrNew c.family) with
  | ok p => exact ⟨p.1, p.2, rfl⟩
  | error e =>
    rw [hrun] at h
    cases h

/-- Two registrations that succeed one after the other succeed in the other order too, and leave
the same catalogs behind. -/
theorem step_comm (hc : c.call.builder?.isSome) (hd : d.call.builder?.isSome)
    (hok : (c.step r).2.isOk) (hok' : (d.step (c.step r).1).2.isOk) :
    (d.step r).2.isOk ∧ (c.step (d.step r).1).2.isOk ∧
      (c.step (d.step r).1).1 = (d.step (c.step r).1).1 := by
  obtain ⟨f, c⟩ := c
  obtain ⟨f', d⟩ := d
  obtain ⟨g, a, hrun⟩ := exists_run_of_isOk hok
  rw [step_of_run hrun] at hok' ⊢
  obtain ⟨g', b, hrun'⟩ := exists_run_of_isOk hok'
  rw [step_of_run hrun']
  dsimp only at hrun hrun' ⊢
  by_cases hf : f = f'
  · -- In one family, the second registration works on what the first one left.
    subst hf
    rw [CatalogsOver.familyOrNew_set_self] at hrun'
    obtain ⟨s, hs, hs'⟩ := CatalogCall.run_comm hc hd hrun hrun'
    rw [step_of_run hs]
    have hback : (⟨f, c⟩ : FamilyCall V).call.run ((r.set f s).familyOrNew f) = .ok (g', a) := by
      rwa [CatalogsOver.familyOrNew_set_self]
    rw [step_of_run hback]
    exact ⟨rfl, rfl, by rw [CatalogsOver.set_set, CatalogsOver.set_set]⟩
  · -- In two families, neither registration sees the other.
    rw [CatalogsOver.familyOrNew_set_of_ne r hf] at hrun'
    rw [step_of_run hrun']
    have hback : (⟨f, c⟩ : FamilyCall V).call.run ((r.set f' g').familyOrNew f) = .ok (g, a) := by
      rwa [CatalogsOver.familyOrNew_set_of_ne r (Ne.symm hf)]
    rw [step_of_run hback]
    exact ⟨rfl, rfl, (CatalogsOver.set_comm r hf g g').symm⟩

end FamilyCall

/-! ## Histories

A history starts from no catalogs at all. -/

namespace CatalogsOver

variable {r : CatalogsOver V} {calls calls' : List (FamilyCall V)} {f : ι}

/-- The catalogs after some calls, whatever their outcomes. -/
def after (r : CatalogsOver V) (calls : List (FamilyCall V)) : CatalogsOver V :=
  calls.foldl (fun r c => (c.step r).1) r

/-- Every one of some calls succeeds. -/
def Succeed : CatalogsOver V → List (FamilyCall V) → Prop
  | _, [] => True
  | r, c :: rest => (c.step r).2.isOk ∧ Succeed (c.step r).1 rest

/-- A call is made on what the calls before it left. -/
theorem after_append (r : CatalogsOver V) (calls : List (FamilyCall V)) (c : FamilyCall V) :
    r.after (calls ++ [c]) = (c.step (r.after calls)).1 := by
  rw [after, List.foldl_append]
  rfl

/-- Calls keep the catalogs coherent. -/
theorem coherent_after (calls : List (FamilyCall V)) (f : ι) :
    ((empty.after calls).familyOrNew f).Coherent := by
  induction calls using List.reverseRecOn generalizing f with
  | nil => exact Catalog.coherent_empty
  | append_singleton calls c ih =>
    rw [after_append]
    exact FamilyCall.coherent_step ih c f

/-- Registrations that succeed one after the other succeed in any order, and leave the same
catalogs behind. -/
theorem after_perm (h : calls.Perm calls') (hreg : ∀ c ∈ calls, c.call.builder?.isSome)
    (hok : r.Succeed calls) : r.Succeed calls' ∧ r.after calls' = r.after calls := by
  induction h generalizing r with
  | nil => exact ⟨hok, rfl⟩
  | cons c _ ih =>
    obtain ⟨-, hrest⟩ := List.forall_mem_cons.1 hreg
    obtain ⟨hok', hafter⟩ := ih hrest hok.2
    exact ⟨⟨hok.1, hok'⟩, hafter⟩
  | swap c d rest =>
    obtain ⟨hd, hrest⟩ := List.forall_mem_cons.1 hreg
    obtain ⟨hc, -⟩ := List.forall_mem_cons.1 hrest
    obtain ⟨hokd, hokc, hokrest⟩ := hok
    obtain ⟨hokc', hokd', hsame⟩ := FamilyCall.step_comm hd hc hokd hokc
    refine ⟨⟨hokc', hokd', ?_⟩, ?_⟩
    · rw [hsame]
      exact hokrest
    · rw [after, after, List.foldl_cons, List.foldl_cons, hsame]
      rfl
  | trans h₁ h₂ ih₁ ih₂ =>
    obtain ⟨hok₁, hafter₁⟩ := ih₁ hreg hok
    obtain ⟨hok₂, hafter₂⟩ := ih₂ (fun c hc => hreg c (h₁.mem_iff.2 hc)) hok₁
    exact ⟨hok₂, hafter₂.trans hafter₁⟩

end CatalogsOver

/-- An entry of a family is what some calls registered last under its name and tag, and did not
unregister since. -/
def Stands (calls : List (FamilyCall V)) (f : ι) (e : CatalogEntry (V f)) : Prop :=
  ∃ before c later, calls = before ++ ⟨f, c⟩ :: later ∧
    c.Registers ((CatalogsOver.empty.after before).familyOrNew f) e ∧
    ∀ mid c' rest, later = mid ++ ⟨f, c'⟩ :: rest →
      c' ≠ .unregister e.name ∧
      ∀ build, ¬ c'.Registers ((CatalogsOver.empty.after (before ++ ⟨f, c⟩ :: mid)).familyOrNew f)
        ⟨e.name, e.tag, build⟩

/-- What stands after a call was registered by it, or stood before and was not unregistered. -/
theorem stands_append {calls : List (FamilyCall V)} {c : FamilyCall V} {f : ι}
    {e : CatalogEntry (V f)} :
    Stands (calls ++ [c]) f e ↔
      (∃ c', c = ⟨f, c'⟩ ∧ c'.Registers ((CatalogsOver.empty.after calls).familyOrNew f) e) ∨
        Stands calls f e ∧ ∀ c', c = ⟨f, c'⟩ → c' ≠ .unregister e.name ∧
          ∀ build, ¬ c'.Registers ((CatalogsOver.empty.after calls).familyOrNew f)
            ⟨e.name, e.tag, build⟩ := by
  constructor
  · rintro ⟨before, c₀, later, hcalls, hreg, hlater⟩
    rcases List.eq_nil_or_concat later with rfl | ⟨later, x, rfl⟩
    · obtain ⟨rfl, hlast⟩ := List.append_inj' hcalls rfl
      exact .inl ⟨c₀, List.singleton_inj.1 hlast, hreg⟩
    · rw [List.concat_eq_append, ← List.cons_append, ← List.append_assoc] at hcalls
      obtain ⟨rfl, hlast⟩ := List.append_inj' hcalls rfl
      obtain rfl := List.singleton_inj.1 hlast
      rw [List.concat_eq_append] at hlater
      refine .inr ⟨⟨before, c₀, later, rfl, hreg, fun mid c' rest hsplit => ?_⟩, ?_⟩
      · exact hlater mid c' (rest ++ [c]) (by rw [hsplit]; simp)
      · rintro c' rfl
        exact hlater later c' [] rfl
  · rintro (⟨c', rfl, hreg⟩ | ⟨⟨before, c₀, later, rfl, hreg, hlater⟩, hlast⟩)
    · exact ⟨calls, c', [], rfl, hreg, fun mid c' rest hsplit => by simp at hsplit⟩
    · refine ⟨before, c₀, later ++ [c], by simp, hreg, fun mid c' rest hsplit => ?_⟩
      rcases List.eq_nil_or_concat rest with rfl | ⟨rest, x, rfl⟩
      · obtain ⟨rfl, hc⟩ := List.append_inj' hsplit rfl
        exact hlast c' (List.singleton_inj.1 hc)
      · rw [List.concat_eq_append, ← List.cons_append, ← List.append_assoc] at hsplit
        exact hlater mid c' rest (List.append_inj' hsplit rfl).1

/-- The entries after some calls are what stands. -/
theorem CatalogsOver.mem_after_iff {calls : List (FamilyCall V)} {f : ι} {e : CatalogEntry (V f)} :
    e ∈ ((empty.after calls).familyOrNew f).byTag ↔ Stands calls f e := by
  induction calls using List.reverseRecOn with
  | nil =>
    constructor
    · intro he
      cases he
    · rintro ⟨before, c, later, hcalls, -⟩
      simp at hcalls
  | append_singleton calls c ih =>
    obtain ⟨f', c⟩ := c
    have hcoherent := coherent_after calls f
    rw [after_append, stands_append, ← ih]
    by_cases hf : f' = f
    · subst hf
      rw [FamilyCall.familyOrNew_step_self, CatalogCall.mem_next_iff hcoherent]
      constructor
      · rintro (hreg | ⟨he, hne⟩)
        · exact .inl ⟨c, rfl, hreg⟩
        · refine .inr ⟨he, ?_⟩
          rintro c' ⟨⟩
          refine ⟨hne, fun build hreg => ?_⟩
          have hfree := hreg.name_free
          rw [hcoherent.hasName_of_mem he] at hfree
          cases hfree
      · rintro (⟨c', ⟨⟩, hreg⟩ | ⟨he, hlast⟩)
        · exact .inl hreg
        · exact .inr ⟨he, (hlast c rfl).1⟩
    · rw [FamilyCall.familyOrNew_step_of_ne hf]
      constructor
      · intro he
        refine .inr ⟨he, ?_⟩
        rintro c' ⟨⟩
        exact absurd rfl hf
      · rintro (⟨c', ⟨⟩, -⟩ | ⟨he, -⟩)
        · exact absurd rfl hf
        · exact he

/-! ## What holds after any history -/

/-- A name and a tag that were freed can be registered again. -/
theorem Catalog.run_register_of_free {T : Type} [TypeChoice T] {g : Catalog T} {name : String}
    {tag : UInt64} {build : Builder T} (hname : g.hasName name = false)
    (htag : g.hasTag tag = false) (hreported : reported build = .ok (name, tag)) :
    ((CatalogCall.register name tag build).run g).isOk := by
  obtain ⟨g', hg'⟩ : ∃ g', g.insert ⟨name, tag, build⟩ = .ok g' :=
    ⟨_, insert_eq_ok_iff.2 ⟨hname, htag, rfl⟩⟩
  simp only [CatalogCall.run, register, hreported, bind, Except.bind, if_true, hg']
  rfl

/-- The catalogs of the families are independent pairs of indexes that undo one another, after any
calls with any outcomes. -/
theorem CatalogsOver.independent_bijections (calls : List (FamilyCall V)) :
    let r := empty.after calls
    (∀ f, (r.familyOrNew f).Bijective) ∧
    -- A call that fails changes no entry, and a call on one family changes no other family.
    (∀ c e, (FamilyCall.step c r).2 = .error e →
      ∀ f, (c.step r).1.familyOrNew f = r.familyOrNew f) ∧
    (∀ (c : FamilyCall V) f, c.family ≠ f → (c.step r).1.get? f = r.get? f) ∧
    -- What is registered is what was registered last and not unregistered since, and its builder
    -- is run for the name as for the tag.
    (∀ f name tag, (r.familyOrNew f).tagOf? name = some tag ↔
      ∃ build, Stands calls f ⟨name, tag, build⟩) ∧
    (∀ f name tag build, Stands calls f ⟨name, tag, build⟩ → ∀ input,
      (r.familyOrNew f).buildNamed name input = build input ∧
        (r.familyOrNew f).buildTagged tag input = build input) ∧
    -- Unregistering frees the name and the tag for any builder.
    (∀ f name tag, (r.familyOrNew f).tagOf? name = some tag →
      let r' := (FamilyCall.step ⟨f, .unregister name⟩ r).1
      (r'.familyOrNew f).hasName name = false ∧ (r'.familyOrNew f).hasTag tag = false ∧
        ∀ build, Catalog.reported build = .ok (name, tag) →
          (FamilyCall.step ⟨f, .register name tag build⟩ r').2.isOk) ∧
    -- Registrations that all succeed do so in any order.
    (∀ calls', calls.Perm calls' → (∀ c ∈ calls, c.call.builder?.isSome) → empty.Succeed calls →
      empty.Succeed calls' ∧ empty.after calls' = r) := by
  intro r
  have hcoherent : ∀ f, (r.familyOrNew f).Coherent := coherent_after calls
  refine ⟨fun f => (hcoherent f).bijective, fun c e => FamilyCall.familyOrNew_step_of_error,
    fun c f => FamilyCall.get?_step_of_ne, fun f name tag => ?_, ?_, ?_,
    fun calls' => after_perm⟩
  · rw [(hcoherent f).tagOf?_eq_some_iff]
    constructor
    · rintro ⟨e, he, rfl, rfl⟩
      exact ⟨e.build, mem_after_iff.1 he⟩
    · rintro ⟨build, hstands⟩
      exact ⟨_, mem_after_iff.2 hstands, rfl, rfl⟩
  · intro f name tag build hstands
    exact (hcoherent f).build_of_mem (mem_after_iff.2 hstands)
  · intro f name tag hfound r'
    obtain ⟨hname, htag⟩ := (hcoherent f).free_unregister hfound
    have hr' : r'.familyOrNew f = ((r.familyOrNew f).unregister name).1 :=
      FamilyCall.familyOrNew_step_self (.unregister name) r
    rw [hr']
    refine ⟨hname, htag, fun build hreported => ?_⟩
    have hok := Catalog.run_register_of_free hname htag hreported
    rw [FamilyCall.step_snd, hr']
    cases hrun :
        (CatalogCall.register name tag build).run ((r.familyOrNew f).unregister name).1 with
    | ok p => rfl
    | error e =>
      rw [hrun] at hok
      cases hok

/-- Two of the class identifiers are registered. -/
def twoClassIds : List (FamilyCall Family.Value) :=
  [⟨.classId, .registerPayload Oid.payload ClassId.oid⟩,
    ⟨.classId, .registerPayload Uuid.payload ClassId.uuid⟩]

theorem stands_twoClassIds : Stands twoClassIds .classId
    ⟨"uuid", 37, fun input => (Uuid.payload.ofInput input).map ClassId.uuid⟩ :=
  ⟨twoClassIds.take 1, .registerPayload Uuid.payload ClassId.uuid, [], rfl, ⟨rfl, rfl, rfl⟩,
    fun _ _ _ hsplit => by simp at hsplit⟩

/-- A second registration of a class identifier fails and changes nothing, another family's calls
do not reach it, it is resolved until it is unregistered, and the order did not matter. -/
theorem independent_bijections_twoClassIds :
    let r := CatalogsOver.empty.after twoClassIds
    let r' := (FamilyCall.step ⟨.classId, .unregister "uuid"⟩ r).1
    (∀ f, (FamilyCall.step ⟨.classId, .registerPayload Oid.payload ClassId.oid⟩ r).1.familyOrNew f =
      r.familyOrNew f) ∧
    (FamilyCall.step ⟨.mkey, .unregister "uuid"⟩ r).1.get? .classId = r.get? .classId ∧
    (∀ input, (r.familyOrNew .classId).buildNamed "uuid" input =
      (r.familyOrNew .classId).buildTagged 37 input) ∧
    (r'.familyOrNew .classId).hasName "uuid" = false ∧
    (FamilyCall.step ⟨.classId, .register "uuid" 37
      fun input => (Uuid.payload.ofInput input).map ClassId.uuid⟩ r').2.isOk ∧
    CatalogsOver.empty.after twoClassIds.reverse = r := by
  intro r r'
  obtain ⟨-, hfailed, hother, -, hbuild, hfree, horder⟩ :=
    CatalogsOver.independent_bijections twoClassIds
  obtain ⟨hname, -, hagain⟩ := hfree .classId "uuid" 37 rfl
  refine ⟨hfailed _ (.nameTaken "class id" "oid") rfl, hother _ _ (by decide),
    fun input => ?_, hname, hagain _ rfl,
    (horder _ (List.reverse_perm _).symm (by decide) ⟨rfl, rfl, trivial⟩).2⟩
  obtain ⟨hnamed, htagged⟩ := hbuild _ _ _ _ stands_twoClassIds input
  exact hnamed.trans htagged.symm

end Rim
