import Rim.Hook.Attached
import Rim.Profile.Basic
import Rim.Sorted
/-!
# Registered profiles

Profiles are known by the text of their names.  A registration either succeeds whole or leaves the
index as it was.

## Main definitions

* `ProfileIndex`: profiles in ascending order of their names' texts.
* `ProfileIndex.add`, `ProfileIndex.remove`: adding and removing a profile.
* `ProfileIndex.named?`, `ProfileIndex.get`: finding one.
* `Buildable`, `ProfileIndex.build`: a fresh document with a profile's hooks.
-/

namespace Rim

/-! ## The index

Two names of different variants but with one text are one name here. -/

/-- Profiles in ascending order of their names' texts. -/
structure ProfileIndex where
  profiles : List Profile := []

namespace ProfileIndex

/-- The index without profiles. -/
def empty : ProfileIndex := {}

/-- The profile of a name's text. -/
def find? (r : ProfileIndex) (text : String) : Option Profile :=
  r.profiles.find? (·.id.text == text)

/-- Whether a profile of a name is registered. -/
def contains (r : ProfileIndex) (id : ProfileId) : Bool := (r.find? id.text).isSome

@[simp] theorem contains_empty (id : ProfileId) : empty.contains id = false := rfl

theorem contains_eq_any (r : ProfileIndex) (id : ProfileId) :
    r.contains id = r.profiles.any (·.id.text == id.text) := by
  rw [Bool.eq_iff_iff, List.any_eq_true]
  exact List.find?_isSome

/-- The profile of a name. -/
def get (r : ProfileIndex) (id : ProfileId) : Except ProfileError Profile :=
  match r.find? id.text with
  | some p => .ok p
  | none => .error (.unknown id.text)

/-- The profile of an optional name; no name and an unknown name both have none. -/
def named? (r : ProfileIndex) (id : Option ProfileId) : Option Profile :=
  id.bind fun id => r.find? id.text

@[simp] theorem named?_none (r : ProfileIndex) : r.named? none = none := rfl

@[simp] theorem named?_some (r : ProfileIndex) (id : ProfileId) :
    r.named? (some id) = r.find? id.text := rfl

/-- How many profiles are registered. -/
def size (r : ProfileIndex) : Nat := r.profiles.length

/-- A bundle registered under a name that is free. -/
def add (r : ProfileIndex) (id : ProfileId) (bundle : Bundle) :
    Except ProfileError ProfileIndex :=
  if r.contains id then .error (.taken id.text)
  else (Profile.new id bundle).map fun p => ⟨insertBy (·.id.text) p r.profiles⟩

theorem add_eq_ok_iff {r s : ProfileIndex} {id : ProfileId} {bundle : Bundle} :
    r.add id bundle = .ok s ↔
      r.contains id = false ∧ (∀ q ∈ bundle.points, DocumentKind.anyHas q) ∧
        s = ⟨insertBy (·.id.text) ⟨id, bundle⟩ r.profiles⟩ := by
  unfold add
  split
  case isTrue h => simp [h]
  case isFalse h =>
    have hc : r.contains id = false := by simpa using h
    cases hn : Profile.new id bundle with
    | error e =>
      have hall : ¬ ∀ q ∈ bundle.points, DocumentKind.anyHas q := fun hall => by
        rw [Profile.new_eq_ok_iff.2 ⟨hall, rfl⟩] at hn
        cases hn
      simp [Except.map, hall]
    | ok p =>
      obtain ⟨hall, rfl⟩ := Profile.new_eq_ok_iff.1 hn
      simp only [Except.map, Except.ok.injEq]
      exact ⟨fun hs => ⟨hc, hall, hs.symm⟩, fun hs => hs.2.2.symm⟩

/-- The index without the profile of a name, and whether there was one. -/
def remove (r : ProfileIndex) (id : ProfileId) : ProfileIndex × Bool :=
  (⟨r.profiles.filter (·.id.text != id.text)⟩, r.contains id)

end ProfileIndex

/-! ## Fresh documents

An unknown name is no fault: the document is then without hooks, and records no profile. -/

/-- Kinds of documents: how a fresh one is made and how it records its profile. -/
class Buildable (R : Type) extends Hookable R, Attachable R where
  documentKind : DocumentKind
  blank : R
  withProfile : ProfileId → R → R

instance : Buildable Comid where
  documentKind := .comid
  blank := {}
  withProfile _ d := d

instance : Buildable Corim where
  documentKind := .corim
  blank := {}
  withProfile id d := { d with profile := some id }

/-- A fresh document with the hooks of a profile, if it is registered. -/
def ProfileIndex.build {R : Type} [Buildable R] (r : ProfileIndex) (id : Option ProfileId) :
    Except HookRefusal R :=
  match r.named? id with
  | some p => do
    let root ← (Attachable.attach p.hooks (Buildable.blank : R)).toExcept
    return Buildable.withProfile p.id root
  | none => .ok Buildable.blank

end Rim
