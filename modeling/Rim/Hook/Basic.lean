import Rim.Error
import Rim.Schema
/-!
# Hooks

An extensible entity carries at most one hook.  A hook may constrain the entity it is attached to,
add fields to its map, and own flags beyond the built-in ones; each of these is a capability that
it has or lacks.

## Main definitions

* `Kind`, `FieldShape`, `Cell`: the fields a hook adds, each with the value it holds.
* `HookFlags`: the flags a hook owns.
* `HookView`: what a constraint sees of its own hook.
* `HookOf`: hooks for bodies of a type, holding values of a type.
-/

namespace Rim

/-- A failure reported by a hook, in its own words. -/
structure Objection where
  message : String
  deriving DecidableEq, Repr

/-- The widths of integers. -/
inductive Width where
  | w8
  | w16
  | w32
  | w64
  deriving DecidableEq, Repr

/-- The number of bits of a width. -/
def Width.bits : Width → Nat
  | w8 => 8
  | w16 => 16
  | w32 => 32
  | w64 => 64

/-- The kinds of values a field may be declared to hold. -/
inductive Kind where
  | bool
  | unsigned (width : Width)
  | signed (width : Width)
  | string
  | bytes
  | uuid
  | tagId
  | ueid
  | digest
  | classId
  | entity
  | list (item : Kind)
  deriving DecidableEq, Repr

/-- A declared field: name, key, kind, and whether its absence means the kind's empty value. -/
structure FieldShape where
  spec : FieldSpec
  kind : Kind
  defaulted : Bool := false
  deriving DecidableEq, Repr

/-- A declared field with the value it holds, if any. -/
structure Cell (V : Type) where
  shape : FieldShape
  value : Option V := none

/-- The fields without a value. -/
def Cell.blank {V : Type} (shape : FieldShape) : Cell V := ⟨shape, none⟩

/-- A flag beyond the built-in ones, and the field it lives in if the hook adds fields. -/
structure OwnedFlag where
  flag : Int64
  field : Option String
  deriving DecidableEq, Repr

/-- The flags a hook owns, and the values of those that live in no field. -/
structure HookFlags where
  owned : List OwnedFlag
  held : List (Int64 × Bool) := []
  deriving DecidableEq, Repr

/-- What a constraint sees of its own hook: the fields that hold values, and whether an owned flag
does. -/
structure HookView where
  fieldsSet : List String
  holdsFlag : Bool
  deriving DecidableEq, Repr

/-- A hook for bodies `B` whose fields hold values `V`.  Hooks of one type name are of one type. -/
structure HookOf (B V : Type) where
  typeName : String
  constraint : Option (B → HookView → Except Objection Unit) := none
  fields : Option (List (Cell V)) := none
  flags : Option HookFlags := none

/-- The hook without capabilities. -/
def HookOf.inert {B V : Type} : HookOf B V where
  typeName := "inert"

end Rim
