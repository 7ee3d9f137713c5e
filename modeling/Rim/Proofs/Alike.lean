import Mathlib.Data.List.Forall2
import Rim.Session
/-!
# Results that are alike

Two runs are alike if both succeed, with results that correspond, or both fail, with errors of one
kind under the same fields.  Runs that are alike at each step are alike as a whole, so a function of
many steps is compared with itself on two inputs one step at a time.

## Main definitions

* `Located`: errors that have a kind and name the fields that lead to them.
* `Alike`: two results are alike.

## Main results

* `Alike.bind`, `Alike.map`: what is done step by step keeps results alike.
* `Alike.encodeItems`: so does what is done item by item.
-/

namespace Rim

variable {ε α β γ δ : Type}

/-! ## Errors -/

/-- The names of the fields an error of a session is wrapped with. -/
def Error.path : Error → List String
  | record cause => cause.path
  | _ => []

/-- Errors that have a kind and name the fields that lead to them, from the outside in. -/
class Located (ε : Type) where
  kind : ε → ErrorKind
  path : ε → List String

instance : Located VariantError := ⟨VariantError.kind, fun _ => []⟩

instance : Located WireError := ⟨WireError.kind, fun _ => []⟩

instance : Located RecordError := ⟨RecordError.kind, RecordError.path⟩

instance : Located Error := ⟨Error.kind, Error.path⟩

/-! ## Results -/

/-- Both results are successes that correspond, or both are errors of one kind at one place. -/
inductive Alike [Located ε] (r : α → β → Prop) : Except ε α → Except ε β → Prop where
  | ok {a : α} {b : β} (h : r a b) : Alike r (.ok a) (.ok b)
  | error {e e' : ε} (kind : Located.kind e = Located.kind e')
    (path : Located.path e = Located.path e') : Alike r (.error e) (.error e')

namespace Alike

section

variable [Located ε] {r : α → β → Prop} {q : γ → δ → Prop} {x : Except ε α} {y : Except ε β}

/-- A result is like itself. -/
theorem same (x : Except ε α) : Alike Eq x x := by
  cases x with
  | ok a => exact .ok rfl
  | error e => exact .error rfl rfl

/-- Where one of two runs succeeds, the other one does too. -/
theorem eq_ok {x y : Except ε α} {a : α} (h : Alike Eq x y) (hx : x = .ok a) : y = .ok a := by
  subst hx
  obtain ⟨rfl⟩ := h
  rfl

theorem mono {r' : α → β → Prop} (h : Alike r x y) (hr : ∀ a b, r a b → r' a b) :
    Alike r' x y := by
  cases h with
  | ok h => exact .ok (hr _ _ h)
  | error hkind hpath => exact .error hkind hpath

/-- What is done with results that correspond may use all that relates them. -/
theorem bind {next : α → Except ε γ} {next' : β → Except ε δ} (h : Alike r x y)
    (hnext : ∀ a b, r a b → Alike q (next a) (next' b)) :
    Alike q (x.bind next) (y.bind next') := by
  cases h with
  | ok hr => exact hnext _ _ hr
  | error hkind hpath => exact .error hkind hpath

/-- What is done with one and the same result. -/
theorem bind_eq {x y : Except ε α} {next next' : α → Except ε γ} {q : γ → γ → Prop}
    (h : Alike Eq x y) (hnext : ∀ a, Alike q (next a) (next' a)) :
    Alike q (x.bind next) (y.bind next') := by
  refine h.bind ?_
  rintro a _ rfl
  exact hnext a

theorem map {g : α → γ} {g' : β → δ} (h : Alike r x y) (hg : ∀ a b, r a b → q (g a) (g' b)) :
    Alike q (x.map g) (y.map g') := by
  cases h with
  | ok hr => exact .ok (hg _ _ hr)
  | error hkind hpath => exact .error hkind hpath

/-- Results that are alike up to what is made of them give alike results. -/
theorem map_eq {x y : Except ε α} (h : Alike Eq x y) (g : α → γ) :
    Alike Eq (x.map g) (y.map g) :=
  h.map fun _ _ => congrArg g

end

section

variable {r : α → β → Prop} {x : Coded α} {y : Coded β}

theorem underField (h : Alike r x y) (name : String) :
    Alike r (Coded.underField name x) (Coded.underField name y) := by
  cases h with
  | ok hr => exact .ok hr
  | error hkind hpath => exact .error hkind (congrArg (name :: ·) hpath)

theorem underIndex (h : Alike r x y) (index : Nat) :
    Alike r (Coded.underIndex index x) (Coded.underIndex index y) := by
  cases h with
  | ok hr => exact .ok hr
  | error hkind hpath => exact .error hkind hpath

theorem ofChoice {x : Except VariantError α} {y : Except VariantError β} (h : Alike r x y) :
    Alike r (Coded.ofChoice x) (Coded.ofChoice y) := by
  cases h with
  | ok hr => exact .ok hr
  | error hkind _ => exact .error hkind rfl

theorem ofWire {x : Except WireError α} {y : Except WireError β} (h : Alike r x y) :
    Alike r (Coded.ofWire x) (Coded.ofWire y) := by
  cases h with
  | ok hr => exact .ok hr
  | error hkind _ => exact .error hkind rfl

/-- The errors of records are told by a session as they are. -/
theorem lift (h : Alike r x y) :
    Alike r (Error.lift .record x) (Error.lift .record y) := by
  cases h with
  | ok hr => exact .ok hr
  | error hkind hpath => exact .error hkind hpath

/-- Items that correspond one by one, each at the same index, are encoded alike. -/
theorem encodeItems {one : α → Coded γ} {one' : β → Coded γ}
    (hone : ∀ a b, r a b → Alike Eq (one a) (one' b)) {items : List α} {items' : List β}
    (h : List.Forall₂ r items items') (index : Nat) :
    Alike Eq (Rim.encodeItems one index items) (Rim.encodeItems one' index items') := by
  induction h generalizing index with
  | nil => exact same _
  | cons hfirst _ ih =>
    refine ((hone _ _ hfirst).underIndex index).bind_eq fun v => ?_
    exact (ih (index + 1)).bind_eq fun vs => same _

end

end Alike

end Rim
