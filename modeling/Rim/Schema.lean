/-!
# Schemas

A record has one slot per field.  A field is known by its name in the text form and by its key in
the binary form; a record may embed others, whose fields then stand beside its own.

## Main definitions

* `FieldSpec`: the name and key of a field, and whether it may be absent.
* `Schema`: a record's own fields and the records it embeds.
* `Schema.allFields`: all fields, a record's own before the embedded ones.
* `Schema.check`: whether names and keys tell the fields apart.
-/

namespace Rim

/-! ## Fields -/

/-- A field of a record: its name in the text form, its key in the binary form, and whether it may
be absent. -/
structure FieldSpec where
  name : String
  key : UInt64
  isOptional : Bool
  deriving DecidableEq, Repr, Inhabited

namespace FieldSpec

/-- A field every record of its kind has. -/
def required (name : String) (key : UInt64) : FieldSpec := ⟨name, key, false⟩

/-- A field that may be absent. -/
def optional (name : String) (key : UInt64) : FieldSpec := ⟨name, key, true⟩

/-- Whether two fields have the same key or the same name. -/
def clashes (a b : FieldSpec) : Bool := a.key == b.key || a.name == b.name

end FieldSpec

/-- The shape of a record in the binary form: a map by key, or an array by position. -/
inductive Layout where
  | map
  | array
  deriving DecidableEq, Repr, Inhabited

/-! ## Records

A record may embed others at any depth; their fields count as its own, after those it lists. -/

/-- A record's own fields, described by `α`, and the records it embeds. -/
inductive Schema (α : Type) where
  | mk (entity : String) (layout : Layout) (fields : List α) (embedded : List (Schema α))

namespace Schema

variable {α β : Type}

/-- The name of the record in diagnostics. -/
def entity : Schema α → String
  | mk entity _ _ _ => entity

/-- The shape of the record in the binary form. -/
def layout : Schema α → Layout
  | mk _ layout _ _ => layout

/-- The record's own fields. -/
def fields : Schema α → List α
  | mk _ _ fields _ => fields

/-- The records it embeds. -/
def embedded : Schema α → List (Schema α)
  | mk _ _ _ embedded => embedded

/-- A record that embeds no other. -/
def flat (entity : String) (layout : Layout) (fields : List α) : Schema α :=
  mk entity layout fields []

mutual

/-- Own fields, then those of each embedded record in turn. -/
def allFields : Schema α → List α
  | mk _ _ fields embedded => fields ++ allFieldsOf embedded

/-- The fields of records, one after the other. -/
def allFieldsOf : List (Schema α) → List α
  | [] => []
  | s :: rest => s.allFields ++ allFieldsOf rest

end

@[simp] theorem allFields_mk (entity : String) (layout : Layout) (fields : List α)
    (embedded : List (Schema α)) :
    (mk entity layout fields embedded).allFields = fields ++ allFieldsOf embedded := by
  rw [allFields]

@[simp] theorem allFields_flat (entity : String) (layout : Layout) (fields : List α) :
    (flat entity layout fields).allFields = fields := by
  simp [flat, allFieldsOf]

mutual

/-- The schema with every field replaced. -/
def map (f : α → β) : Schema α → Schema β
  | mk entity layout fields embedded => mk entity layout (fields.map f) (mapAll f embedded)

/-- The schemas with every field replaced. -/
def mapAll (f : α → β) : List (Schema α) → List (Schema β)
  | [] => []
  | s :: rest => s.map f :: mapAll f rest

end

/-- The first field of a name. -/
def field? (s : Schema FieldSpec) (name : String) : Option FieldSpec :=
  s.allFields.find? (·.name == name)

/-- The first field of a key. -/
def fieldOfKey? (s : Schema FieldSpec) (key : UInt64) : Option FieldSpec :=
  s.allFields.find? (·.key == key)

end Schema

/-! ## Checking

A fault is about the first field that repeats one before it; only where there is none does an
array's lack of a position count. -/

/-- Why a schema does not tell its fields apart. -/
inductive SchemaFault where
  | sharedKey (entity : String) (key : UInt64) (first second : String)
  | sharedName (entity : String) (name : String)
  | gap (entity : String) (field : String) (key : UInt64)
  deriving DecidableEq, Repr

namespace SchemaFault

/-- The message of a fault. -/
def message : SchemaFault → String
  | sharedKey entity key first second =>
    s!"entity '{entity}': key {key} claimed by both '{first}' and '{second}'"
  | sharedName entity name => s!"entity '{entity}': field name '{name}' declared twice"
  | gap entity field key =>
    s!"entity '{entity}': array layout requires dense mandatory keys, found '{field}' ({key})"

/-- The stable name of a fault. -/
def name : SchemaFault → String
  | sharedKey .. => "key_collision"
  | sharedName .. => "name_collision"
  | gap .. => "sparse_array"

end SchemaFault

namespace Schema

/-- The first field that repeats the key or else the name of one before it. -/
def firstClash? (entity : String) (seen : List FieldSpec) : List FieldSpec → Option SchemaFault
  | [] => none
  | f :: rest =>
    match seen.find? (·.key == f.key) with
    | some first => some (.sharedKey entity f.key first.name f.name)
    | none =>
      if seen.any (·.name == f.name) then some (.sharedName entity f.name)
      else firstClash? entity (f :: seen) rest

/-- The first field, in ascending order of keys, that is optional or leaves a gap before it. -/
def firstGap? (entity : String) (expected : Nat) : List FieldSpec → Option SchemaFault
  | [] => none
  | f :: rest =>
    if f.key.toNat ≠ expected ∨ f.isOptional then some (.gap entity f.name f.key)
    else firstGap? entity (expected + 1) rest

/-- The fields in ascending order of keys. -/
def byKey (fields : List FieldSpec) : List FieldSpec :=
  fields.mergeSort fun a b => a.key.toNat ≤ b.key.toNat

/-- Names and keys must be distinct over all fields, and an array must have the keys from zero on
with no field optional. -/
def check (s : Schema FieldSpec) : Except SchemaFault Unit :=
  match firstClash? s.entity [] s.allFields with
  | some e => .error e
  | none =>
    match s.layout with
    | .map => .ok ()
    -- The fields are distinct here, so their keys in order leave a gap or are those from zero on.
    | .array =>
      match firstGap? s.entity 0 (byKey s.allFields) with
      | some e => .error e
      | none => .ok ()

end Schema

end Rim
