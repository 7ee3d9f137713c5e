import Rim.Hook.Bundle
/-!
# Profiles

A profile is a bundle of hooks under a name.  Its hooks must stand at points that some kind of
document declares.

## Main definitions

* `DocumentKind`: the kinds of documents, with the points within them.
* `Profile`: a bundle under a name, and `Profile.new` to make one.
* `ProfileError`: why a profile is not made, registered or found.
-/

namespace Rim

/-- The kinds of documents a profile applies to. -/
inductive DocumentKind where
  | comid
  | corim
  deriving DecidableEq, Repr

namespace DocumentKind

/-- All kinds. -/
def all : List DocumentKind := [comid, corim]

/-- The name of a kind. -/
def name : DocumentKind → String
  | comid => "comid"
  | corim => "unsigned-corim"

/-- The points within a document of a kind. -/
def points : DocumentKind → List Point
  | comid => Point.ofComid
  | corim => Point.ofCorim

/-- Whether documents of some kind have a point. -/
def anyHas (p : Point) : Bool := all.any fun k => p ∈ k.points

end DocumentKind

/-- Why a profile is not made, registered or found. -/
inductive ProfileError where
  | taken (id : String)
  | strangePoint (id : String) (point : Point)
  | unknown (id : String)
  deriving DecidableEq, Repr

namespace ProfileError

/-- The message of an error. -/
def message : ProfileError → String
  | taken id => s!"profile with id {Text.quote id} already registered"
  | strangePoint id p =>
    s!"profile {Text.quote id}: unexpected extension point: {Text.quote p.name}"
  | unknown id => s!"profile {Text.quote id} not found"

/-- The kind of an error. -/
def kind : ProfileError → ErrorKind
  | taken _ | strangePoint _ _ => .registryConflict
  | unknown _ => .discriminator

end ProfileError

/-- A bundle of hooks under a name. -/
structure Profile where
  id : ProfileId
  bundle : Bundle

namespace Profile

/-- The bundle under a name, unless it has a hook at a point that no kind of document has. -/
def new (id : ProfileId) (bundle : Bundle) : Except ProfileError Profile :=
  match bundle.points.find? fun p => !DocumentKind.anyHas p with
  | some p => .error (.strangePoint id.text p)
  | none => .ok ⟨id, bundle⟩

theorem new_eq_ok_iff {id : ProfileId} {bundle : Bundle} {p : Profile} :
    new id bundle = .ok p ↔
      (∀ q ∈ bundle.points, DocumentKind.anyHas q) ∧ p = ⟨id, bundle⟩ := by
  unfold new
  split
  case h_1 q h =>
    have hq := List.find?_some h
    have hm := List.mem_of_find?_eq_some h
    simp only [Bool.not_eq_true', reduceCtorEq, false_iff, not_and] at hq ⊢
    exact fun hall => absurd (hall q hm) (by simp [hq])
  case h_2 h =>
    have hall : ∀ q ∈ bundle.points, DocumentKind.anyHas q = true := by simpa using h
    exact ⟨fun hp => ⟨hall, by cases hp; rfl⟩, fun hp => by rw [hp.2]⟩

/-- The hooks of a profile as a document sees them. -/
def hooks (p : Profile) : HookSource := ⟨p.bundle, []⟩

end Profile

end Rim
