import Rim.Choice.Basic
import Rim.Sorted
/-!
# Catalogs of variants

The catalog of a family has two indexes: the variants in ascending order of tags, and the tags in
ascending order of the names they are registered under.  Names are unique, tags are unique, and a
registration that would break this leaves the catalog as it was.

## Main definitions

* `Catalog`: the variants of one family.
* `Catalog.register`, `Catalog.registerBuilder`: adding a variant under a given
  name, or under the name its sentinel reports.
* `Catalog.buildNamed`, `Catalog.buildTagged`: building a value.
* `OwnVariant`: a variant that a family lists itself.
-/

namespace Rim

/-- A way to build values of a family. -/
abbrev Builder (T : Type) := PayloadSource → Except VariantError T

/-- A registered variant. -/
structure CatalogEntry (T : Type) where
  name : String
  tag : UInt64
  build : Builder T

/-- The registered variants of a family: the entries in ascending order of tags, and the tag of
each name in ascending order of names. -/
structure Catalog (T : Type) where
  byTag : List (CatalogEntry T) := []
  byName : List (String × UInt64) := []

namespace Catalog

variable {T : Type}

/-- The catalog without variants. -/
def empty : Catalog T := {}

/-! ## Looking up

A name leads to a tag, and only a tag leads to an entry. -/

/-- The tag a name is registered with. -/
def tagOf? (r : Catalog T) (name : String) : Option UInt64 :=
  (r.byName.find? (·.1 == name)).map (·.2)

/-- The entry of a tag. -/
def findTag? (r : Catalog T) (tag : UInt64) : Option (CatalogEntry T) :=
  r.byTag.find? (·.tag == tag)

/-- Whether a name is taken. -/
def hasName (r : Catalog T) (name : String) : Bool := (r.tagOf? name).isSome

/-- Whether a tag is taken. -/
def hasTag (r : Catalog T) (tag : UInt64) : Bool := (r.findTag? tag).isSome

theorem hasName_eq_any (r : Catalog T) (name : String) :
    r.hasName name = r.byName.any (·.1 == name) := by
  rw [Bool.eq_iff_iff, List.any_eq_true, hasName, tagOf?, Option.isSome_map]
  exact List.find?_isSome

theorem hasTag_eq_any (r : Catalog T) (tag : UInt64) :
    r.hasTag tag = r.byTag.any (·.tag == tag) := by
  rw [Bool.eq_iff_iff, List.any_eq_true]
  exact List.find?_isSome

/-- How many variants are registered. -/
def size (r : Catalog T) : Nat := r.byTag.length

/-- The names and tags in ascending order of tags. -/
def toList (r : Catalog T) : List (String × UInt64) :=
  r.byTag.map fun e => (e.name, e.tag)

/-! ## Removing and adding

A removal frees both the name and the tag.  An addition needs both to be free, and what its sentinel
reports must be what it is registered under. -/

/-- The catalog without the variant of a name, and whether there was one. -/
def unregister (r : Catalog T) (name : String) : Catalog T × Bool :=
  match r.tagOf? name with
  | none => (r, false)
  | some tag => (⟨r.byTag.filter (·.tag != tag), r.byName.filter (·.1 != name)⟩, true)

variable [TypeChoice T]

/-- A new entry, unless its name or its tag is taken. -/
def insert (r : Catalog T) (e : CatalogEntry T) : Except VariantError (Catalog T) :=
  if r.hasName e.name then .error (.nameTaken (TypeChoice.family T) e.name)
  else if r.hasTag e.tag then .error (.tagTaken (TypeChoice.family T) e.tag)
  else .ok ⟨insertBy (·.tag) e r.byTag, insertBy (·.1) (e.name, e.tag) r.byName⟩

theorem insert_eq_ok_iff {r s : Catalog T} {e : CatalogEntry T} :
    r.insert e = .ok s ↔
      r.hasName e.name = false ∧ r.hasTag e.tag = false ∧
        s = ⟨insertBy (·.tag) e r.byTag, insertBy (·.1) (e.name, e.tag) r.byName⟩ := by
  unfold insert
  split
  case isTrue h => simp [h]
  case isFalse h =>
    split
    case isTrue h' => simp [h']
    case isFalse h' => simp [h, h', eq_comm]

theorem hasName_insert {r s : Catalog T} {e : CatalogEntry T} (h : r.insert e = .ok s)
    (name : String) : s.hasName name = (e.name == name || r.hasName name) := by
  obtain ⟨-, -, rfl⟩ := insert_eq_ok_iff.1 h
  rw [hasName_eq_any, hasName_eq_any, any_insertBy]

theorem hasTag_insert {r s : Catalog T} {e : CatalogEntry T} (h : r.insert e = .ok s)
    (tag : UInt64) : s.hasTag tag = (e.tag == tag || r.hasTag tag) := by
  obtain ⟨-, -, rfl⟩ := insert_eq_ok_iff.1 h
  rw [hasTag_eq_any, hasTag_eq_any, any_insertBy]

/-- The name and tag a builder's sentinel reports. -/
def reported (build : Builder T) : Except VariantError (String × UInt64) := do
  let sentinel ← build .empty
  return (TypeChoice.typeName sentinel, TypeChoice.tag sentinel)

/-- A builder registered under a name and tag, which its sentinel must report. -/
def register (r : Catalog T) (name : String) (tag : UInt64) (build : Builder T) :
    Except VariantError (Catalog T) := do
  let found ← reported build
  if found = (name, tag) then r.insert ⟨name, tag, build⟩
  else .error (.inconsistent (TypeChoice.family T) (name, tag) found)

/-- A builder registered under a tag, which its sentinel must report, and the reported name. -/
def registerBuilder (r : Catalog T) (tag : UInt64) (build : Builder T) :
    Except VariantError (Catalog T × String) := do
  let found ← reported build
  if found.2 = tag then return (← r.insert ⟨found.1, tag, build⟩, found.1)
  else .error (.inconsistent (TypeChoice.family T) (found.1, tag) found)

/-- A payload type registered as one of the family's own variants. -/
def registerPayload {α : Type} (r : Catalog T) (p : PayloadType α) (wrap : α → T) :
    Except VariantError (Catalog T × String) :=
  r.registerBuilder p.tag fun input => (p.ofInput input).map wrap

/-- A payload type registered from outside the family. -/
def registerForeign {α : Type} (r : Catalog T) (p : PayloadType α) :
    Except VariantError (Catalog T × String) :=
  r.registerPayload p fun a => TypeChoice.ofVariant (p.variant a)

/-! ## Building -/

/-- The value some input stands for under a tag. -/
def buildTagged (r : Catalog T) (tag : UInt64) (input : PayloadSource) :
    Except VariantError T :=
  match r.findTag? tag with
  | some e => e.build input
  | none => .error (.unknownTag (TypeChoice.family T) tag)

/-- The value some input stands for under a name. -/
def buildNamed (r : Catalog T) (name : String) (input : PayloadSource) :
    Except VariantError T :=
  match r.tagOf? name with
  | some tag => r.buildTagged tag input
  | none => .error (.unknownName (TypeChoice.family T) name)

end Catalog

/-- A registration that reports the name it learned. -/
abbrev Registration (T : Type) :=
  Catalog T → Except VariantError (Catalog T × String)

/-- A variant that a family lists itself. -/
structure OwnVariant (T : Type) where
  name : String
  register : Registration T

/-- The variant of a payload type that a family lists. -/
def OwnVariant.of {T α : Type} [TypeChoice T] (p : PayloadType α) (wrap : α → T) :
    OwnVariant T where
  name := p.typeName
  register r := r.registerPayload p wrap

end Rim
