import Rim.Choice.Catalogs
import Rim.Document.Comid
import Rim.Document.Corim
import Rim.Hook.Point
import Rim.Sorted
/-!
# Hooks by extension point

A bundle of hooks lists at most one hook per point, each for the kind of entity that declares the
point.  An entity takes its hook from its own point, or from the one that stands in for it in the
part of the document where it is found.

## Main definitions

* `EntityKind`: the kinds of extensible entities, with the points they declare.
* `Bundle`: hooks by point.
* `HookSource`: a bundle seen from one position of a document.
* `Context`: what decoding consults.
-/

namespace Rim

/-! ## Kinds of entities

Measured values and their flags may take their hook from one of two points; any other entity has one
point. -/

/-- The kinds of extensible entities; an entity of no document root declares its own point only. -/
inductive EntityKind where
  | comid
  | comidEntity
  | triples
  | mval
  | flags
  | corim
  | corimEntity
  | other (point : Point)
  deriving DecidableEq, Repr

namespace EntityKind

/-- The kinds of entities of documents by name. -/
def names : List (String × EntityKind) :=
  [("comid", comid), ("comid-entity", comidEntity), ("triples", triples), ("mval", mval),
    ("flags", flags), ("corim", corim), ("corim-entity", corimEntity)]

/-- What an entity of a kind is, its hook aside. -/
abbrev Body : EntityKind → Type
  | comid => ComidBody
  | comidEntity => EntityBody
  | triples => TriplesBody
  | mval => MvalBody
  | flags => FlagsBody
  | corim => CorimBody
  | corimEntity => CorimEntityBody
  | other _ => Unit

/-- The point an entity of a kind takes its hook from unless another stands in for it. -/
def point : EntityKind → Point
  | comid => .comid
  | comidEntity => .comidEntity
  | triples => .comidTriples
  | mval => .referenceValue
  | flags => .referenceValueFlags
  | corim => .corim
  | corimEntity => .corimEntity
  | other p => p

/-- The points an entity of a kind may take its hook from. -/
def points : EntityKind → List Point
  | mval => [.referenceValue, .endorsedValue]
  | flags => [.referenceValueFlags, .endorsedValueFlags]
  | k => [k.point]

/-- Whether a hook for a kind may be registered at a point. -/
def admits (k : EntityKind) (p : Point) : Bool := p ∈ k.points

end EntityKind

/-! ## Entities with a slot -/

/-- Entities of the kinds that carry a hook. -/
class Hookable (E : Type) where
  kind : EntityKind
  body : E → kind.Body
  slot : E → Slot kind.Body
  withSlot : E → Slot kind.Body → E

instance : Hookable Comid where
  kind := .comid
  body := Comid.toComidBody
  slot := Comid.hook
  withSlot e s := { e with hook := s }

instance : Hookable Entity where
  kind := .comidEntity
  body := EntityOf.toEntityBody
  slot := EntityOf.hook
  withSlot e s := { e with hook := s }

instance : Hookable Triples where
  kind := .triples
  body := Triples.toTriplesBody
  slot := Triples.hook
  withSlot e s := { e with hook := s }

instance : Hookable Mval where
  kind := .mval
  body := Mval.toMvalBody
  slot := Mval.hook
  withSlot e s := { e with hook := s }

instance : Hookable FlagsMap where
  kind := .flags
  body := FlagsMap.toFlagsBody
  slot := FlagsMap.hook
  withSlot e s := { e with hook := s }

instance : Hookable Corim where
  kind := .corim
  body := Corim.toCorimBody
  slot := Corim.hook
  withSlot e s := { e with hook := s }

instance : Hookable CorimEntity where
  kind := .corimEntity
  body := CorimEntity.toCorimEntityBody
  slot := CorimEntity.hook
  withSlot e s := { e with hook := s }

/-! ## Bundles

A bundle keeps the kind of entity with each hook, since a hook for one kind fits no other. -/

/-- The hook registered at a point. -/
structure PointHook where
  point : Point
  kind : EntityKind
  hook : Hook kind.Body

/-- Hooks by point, in ascending order of point names. -/
structure Bundle where
  entries : List PointHook := []

namespace Bundle

/-- No hooks at all. -/
def empty : Bundle := {}

/-- The hook registered at a point, of whatever kind. -/
def find? (m : Bundle) (p : Point) : Option PointHook :=
  m.entries.find? (·.point == p)

/-- Whether a hook is registered at a point. -/
def contains (m : Bundle) (p : Point) : Bool := (m.find? p).isSome

@[simp] theorem contains_empty (p : Point) : empty.contains p = false := rfl

theorem contains_eq_any (m : Bundle) (p : Point) :
    m.contains p = m.entries.any (·.point == p) := by
  rw [Bool.eq_iff_iff, List.any_eq_true]
  exact List.find?_isSome

/-- The points with a hook, in ascending order of names. -/
def points (m : Bundle) : List Point := m.entries.map (·.point)

/-- How many points have a hook. -/
def size (m : Bundle) : Nat := m.entries.length

/-- A hook for a kind registered at a point, which the kind must declare and which must be free. -/
def addAt (m : Bundle) (k : EntityKind) (p : Point) (hook : Hook k.Body) :
    Except HookRefusal Bundle :=
  if !k.admits p then .error (.unadmitted p)
  else if m.contains p then .error (.pointTaken p)
  else .ok ⟨insertBy (·.point.name) ⟨p, k, hook⟩ m.entries⟩

theorem addAt_eq_ok_iff {m m' : Bundle} {k : EntityKind} {p : Point} {hook : Hook k.Body} :
    m.addAt k p hook = .ok m' ↔
      k.admits p ∧ m.contains p = false ∧
        m' = ⟨insertBy (·.point.name) ⟨p, k, hook⟩ m.entries⟩ := by
  unfold addAt
  split
  case isTrue h => simp_all
  case isFalse h =>
    split
    case isTrue h' => simp [h']
    case isFalse h' =>
      have ha : k.admits p = true := by simpa using h
      have hc : m.contains p = false := by simpa using h'
      simp only [ha, hc, true_and, Except.ok.injEq]
      exact eq_comm

/-- A hook for a kind registered at its own point. -/
def add (m : Bundle) (k : EntityKind) (hook : Hook k.Body) :
    Except HookRefusal Bundle :=
  m.addAt k k.point hook

/-- The hook an entity of a kind takes from a point. -/
def hookFor (m : Bundle) (k : EntityKind) (p : Point) :
    Except HookRefusal (Option (Hook k.Body)) :=
  match m.find? p with
  | none => .ok none
  | some e => if h : e.kind = k then .ok (some (h ▸ e.hook)) else .error (.wrongKind p)

/-- A slot with the hook of a point attached; a point without a hook leaves it as it was, and a
slot keeps the hook it has. -/
def attachTo (m : Bundle) (k : EntityKind) (p : Point) (slot : Slot k.Body) :
    Except HookRefusal (Slot k.Body) :=
  match m.hookFor k p with
  | .error e => .error e
  | .ok none => .ok slot
  | .ok (some hook) =>
    match slot with
    | none => .ok (some hook)
    | some _ => .error (.slotTaken k.point)

end Bundle

/-! ## Hooks at a position

Stand-ins say which point takes the place of another in a part of a document; of several for one
point the first counts. -/

/-- A bundle of hooks seen from one position of a document, with the stand-ins in force there. -/
structure HookSource where
  bundle : Bundle
  standIns : List StandIn := []

namespace HookSource

/-- The bundle seen from a position where other stand-ins are in force. -/
def withStandIns (h : HookSource) (standIns : List StandIn) : HookSource := { h with standIns }

/-- The point an entity of a kind takes its hook from at this position. -/
def pointFor (h : HookSource) (k : EntityKind) : Point :=
  match h.standIns.find? (·.source == k.point) with
  | some r => r.target
  | none => k.point

@[simp] theorem pointFor_nil (m : Bundle) (k : EntityKind) :
    (HookSource.mk m []).pointFor k = k.point := rfl

/-- An entity with its hook of this position attached. -/
def attach {E : Type} [Hookable E] (h : HookSource) (e : E) : Except HookRefusal E :=
  (h.bundle.attachTo (Hookable.kind E) (h.pointFor (Hookable.kind E)) (Hookable.slot e)).map
    (Hookable.withSlot e)

end HookSource

/-- What decoding consults: the catalogs of type choices, and the hooks to attach. -/
structure Context where
  catalogs : Catalogs
  hooks : Option HookSource := none

namespace Context

/-- The context of a part of a document where other stand-ins are in force. -/
def withStandIns (cx : Context) (standIns : List StandIn) : Context :=
  { cx with hooks := cx.hooks.map fun h => h.withStandIns standIns }

/-- The context with a bundle of hooks. -/
def ofBundle (catalogs : Catalogs) (bundle : Option Bundle) : Context :=
  ⟨catalogs, bundle.map fun m => ⟨m, []⟩⟩

end Context

end Rim
