import Rim.Choice.Family
import Rim.Code
import Rim.Hook.Basic
import Rim.TagId
/-!
# Validity

A document that decodes need not be valid.  Validation walks it in a fixed order and reports the
first fault, wrapped with the names of the fields and the indexes of the items on the way to it.

## Main definitions

* `Fault`: what is wrong with a record's own content.
* `ValidityError`: a fault, the refusal of a choice, or that of a hook, and where it is.
* `Validate`: what can be validated; `Validate.field`, `Validate.items`, `Validate.nonEmpty` are
  the steps.
-/

namespace Rim

/-! ## Errors -/

/-- What is wrong with a record's own content. -/
inductive Fault where
  | emptyName
  | relativeUri (uri : String)
  | emptyTagId
  | misheldTagId
  | unknownRelation (code : UInt64)
  | emptyClass
  | emptyEnvironment
  | unsetValues
  | emptyTriples
  | noItems (label : String)
  deriving DecidableEq, Repr

/-- The fault in words. -/
def Fault.message : Fault → String
  | emptyName => "empty entity-name"
  | relativeUri uri => Uri.notAbsolute uri
  | emptyTagId => "empty tag ID"
  | misheldTagId => "text tag ID spells a UUID"
  | unknownRelation code => s!"unknown tag relation {code}"
  | emptyClass => "class must not be empty"
  | emptyEnvironment => "environment must not be empty"
  | unsetValues => "no measurement value set"
  | emptyTriples => "triples struct must not be empty"
  | noItems label => s!"no {label}"

/-- Why something is invalid, and where the fault is. -/
inductive ValidityError where
  | field (name : String) (source : ValidityError)
  | item (label : String) (index : Nat) (source : ValidityError)
  | invalid (fault : Fault)
  | choice (cause : VariantError)
  | extension (cause : Objection)
  deriving DecidableEq, Repr

namespace ValidityError

/-- The message of an error. -/
def message : ValidityError → String
  | field name source => s!"{name} validation failed: {source.message}"
  | item label index source => s!"{label} at index {index}: {source.message}"
  | invalid fault => fault.message
  | choice cause => cause.message
  | extension cause => cause.message

/-- The error without its wrappers. -/
def innermost : ValidityError → ValidityError
  | field _ source => source.innermost
  | item _ _ source => source.innermost
  | e => e

/-- The kind of an error, which is that of its root cause. -/
def kind : ValidityError → ErrorKind
  | field _ source => source.kind
  | item _ _ source => source.kind
  | invalid _ => .schema
  | choice cause => cause.kind
  | extension _ => .extension

end ValidityError

/-! ## Steps

A validation is a sequence of steps, and the first that fails ends it. -/

/-- The outcome of a validation. -/
abbrev Validity := Except ValidityError Unit

/-- What can be validated. -/
class Validate (α : Type) where
  validate : α → Validity

namespace Validate

variable {α : Type}

/-- An outcome whose error is wrapped with the name of a field. -/
def underField (name : String) : Validity → Validity
  | .ok () => .ok ()
  | .error e => .error (.field name e)

/-- An outcome whose error is wrapped with the label and index of an item. -/
def underIndex (label : String) (index : Nat) : Validity → Validity
  | .ok () => .ok ()
  | .error e => .error (.item label index e)

/-- A fault unless a condition holds. -/
def ensure (condition : Bool) (fault : Fault) : Validity :=
  if condition then .ok () else .error (.invalid fault)

/-- An outcome that is the refusal of a choice. -/
def ofChoice : Except VariantError Unit → Validity
  | .ok () => .ok ()
  | .error e => .error (.choice e)

/-- An outcome that is the refusal of a hook. -/
def ofExtension : Except Objection Unit → Validity
  | .ok () => .ok ()
  | .error e => .error (.extension e)

/-- The value of a field. -/
def field [Validate α] (name : String) (a : α) : Validity := underField name (validate a)

/-- The value of a field, if it has one. -/
def fieldIfAny [Validate α] (name : String) : Option α → Validity
  | some a => field name a
  | none => .ok ()

/-- The items of a list in turn, the first at an index. -/
def itemsFrom [Validate α] (label : String) (index : Nat) : List α → Validity
  | [] => .ok ()
  | a :: rest => do
    underIndex label index (validate a)
    itemsFrom label (index + 1) rest

/-- The items of a list under a field. -/
def items [Validate α] (name label : String) (as : List α) : Validity :=
  underField name (itemsFrom label 0 as)

/-- A list must have items. -/
def nonEmpty (label : String) (as : List α) : Validity := ensure (!as.isEmpty) (.noItems label)

end Validate

/-! ## Choices and payloads -/

/-- The values of a family are valid as their variants say. -/
def TypeChoice.validity {T : Type} [TypeChoice T] (x : T) : Validity :=
  Validate.ofChoice (TypeChoice.check x)

instance : Validate ClassId := ⟨TypeChoice.validity⟩

instance : Validate InstanceId := ⟨TypeChoice.validity⟩

instance : Validate GroupId := ⟨TypeChoice.validity⟩

instance : Validate Mkey := ⟨TypeChoice.validity⟩

instance : Validate CryptoKey := ⟨TypeChoice.validity⟩

instance : Validate ConciseTag := ⟨TypeChoice.validity⟩

instance : Validate ProfileId := ⟨TypeChoice.validity⟩

instance : Validate Ueid := ⟨fun u => Validate.ofChoice (Ueid.payload.check u)⟩

instance : Validate Uuid := ⟨fun u => Validate.ofChoice (Uuid.payload.check u)⟩

instance : Validate Digest := ⟨fun d => Validate.ofChoice d.check⟩

instance : Validate TagId where
  validate id := do
    Validate.ensure id.isSet .emptyTagId
    Validate.ensure (!id.isMisheld) .misheldTagId

end Rim
