import Rim.Error
import Rim.Cbor.Writer
import Rim.Json.Writer
/-!
# Type choices

A type choice is one value out of an open set of variants.  A variant has a name, which tells it
apart in the text form, and a tag, which does so in the binary form.  A payload type says how the
values of one variant are shown, checked, written and read.

## Main definitions

* `VariantError`: why a choice cannot be registered, found or built.
* `PayloadSource`: what a value is built from.
* `PayloadType`: the behaviour of one variant over its payloads.
* `Variant`: a value together with the behaviour it shows.
* `TypeChoice`: a family of variants.
-/

namespace Rim

/-- Why a choice cannot be registered, found or built. -/
inductive VariantError where
  | untyped (family : String)
  | unknownName (family name : String)
  | unknownTag (family : String) (tag : UInt64)
  | nameTaken (family name : String)
  | tagTaken (family : String) (tag : UInt64)
  | inconsistent (family : String) (expected found : String × UInt64)
  | absentFamily (family : String)
  | invalid (typeName reason : String)
  | wrongInput (typeName expected : String)
  deriving DecidableEq, Repr

namespace VariantError

/-- A name and tag as messages show them. -/
def showPair (pair : String × UInt64) : String :=
  s!"{Text.quote pair.1} ({pair.2})"

/-- The message of an error. -/
def message : VariantError → String
  | untyped family => s!"{family} type not set"
  | unknownName family name => s!"unknown {family} type: {Text.quote name}"
  | unknownTag family tag => s!"unknown {family} tag: {tag}"
  | nameTaken family name => s!"{family} type {Text.quote name} already registered"
  | tagTaken family tag => s!"{family} tag {tag} already registered"
  | inconsistent family expected found =>
    s!"{family} factory for {showPair expected} reports {showPair found}"
  | absentFamily family => s!"no registry for choice family {family}"
  | invalid typeName reason => s!"invalid {typeName}: {reason}"
  | wrongInput typeName expected => s!"{typeName} expects {expected}, found {elided}"

/-- The kind of an error. -/
def kind : VariantError → ErrorKind
  | untyped _ | unknownName _ _ | unknownTag _ _ | absentFamily _ =>
    .discriminator
  | nameTaken _ _ | tagTaken _ _ | inconsistent _ _ _ => .registryConflict
  | invalid _ _ | wrongInput _ _ => .variantParse

end VariantError

/-! ## Payloads

A payload is read from text, from a text document, or from a binary one.  The empty source stands
for no input: what comes of it is a sentinel that tells the name and the tag of its variant. -/

/-- What a value is built from.  Nothing at all asks for the sentinel, by which a variant makes its
name and tag known. -/
inductive PayloadSource where
  | empty
  | text (value : String)
  | json (value : Json)
  | cbor (value : Cbor)

/-- Where a type of payloads comes from: from a standard, from a vendor, or from a description that
gives the least length of its texts. -/
inductive PayloadOrigin where
  | standard
  | vendor
  | described (least : Nat)
  deriving DecidableEq, Repr

/-- The behaviour of one variant over its payloads. -/
structure PayloadType (α : Type) where
  /-- The name in the text form. -/
  typeName : String
  /-- The tag in the binary form. -/
  tag : UInt64
  /-- The sentinel. -/
  sentinel : α
  /-- How a payload is shown. -/
  display : α → String
  /-- The canonical bytes of a payload. -/
  bytes : α → List UInt8
  /-- Whether a payload is valid. -/
  check : α → Except VariantError Unit
  /-- The item under the tag. -/
  toCbor : α → Except VariantError Cbor
  /-- The value beside the name. -/
  toJson : α → Except VariantError Json
  /-- The payload a text spells. -/
  ofText : String → Except VariantError α
  /-- The payload of an item. -/
  ofCbor : Cbor → Except VariantError α
  /-- The payload of a value; commonly the one its text spells. -/
  ofJson : Json → Except VariantError α :=
    fun
    | .string text => ofText text
    | _ => .error (.wrongInput typeName "string")
  /-- Where the type comes from. -/
  origin : PayloadOrigin := .standard

namespace PayloadType

variable {α : Type} (p : PayloadType α)

/-- The payload some input stands for, before its check. -/
def parse : PayloadSource → Except VariantError α
  | .empty => .ok p.sentinel
  | .text t => p.ofText t
  | .json v => p.ofJson v
  | .cbor v => p.ofCbor v

/-- The sentinel for no input, and a payload that passes its check for any other. -/
def ofInput : PayloadSource → Except VariantError α
  | .empty => .ok p.sentinel
  | input => do
    let a ← p.parse input
    p.check a
    return a

/-- A payload that passes its check. -/
def checked (a : α) : Except VariantError α := do
  p.check a
  return a

end PayloadType

/-! ## Variants and families

A variant is a payload seen from outside: what it is called, how it is written, and whether it is
valid.  A family is a type whose values are variants. -/

/-- A value together with the behaviour it shows. -/
structure Variant where
  origin : PayloadOrigin
  typeName : String
  tag : UInt64
  display : String
  bytes : List UInt8
  check : Except VariantError Unit
  toCbor : Except VariantError Cbor
  toJson : Except VariantError Json

/-- A payload with the behaviour of its type. -/
def PayloadType.variant {α : Type} (p : PayloadType α) (a : α) : Variant where
  origin := p.origin
  typeName := p.typeName
  tag := p.tag
  display := p.display a
  bytes := p.bytes a
  check := p.check a
  toCbor := p.toCbor a
  toJson := p.toJson a

/-- Two variants agree when their types have one origin and nothing they write or show tells them
apart.  A type that takes the name and the tag of another is still a type of its own. -/
def Variant.agrees (a b : Variant) : Bool :=
  a.origin == b.origin && a.typeName == b.typeName && a.tag == b.tag && a.display == b.display &&
    a.bytes == b.bytes

instance : BEq Variant := ⟨Variant.agrees⟩

/-- A family of variants: its name, the behaviour of its values, how a variant registered from
outside joins it, and which of its values hold such a variant. -/
class TypeChoice (T : Type) where
  family : String
  variant : T → Variant
  ofVariant : Variant → T
  isForeign : T → Bool

namespace TypeChoice

variable {T : Type} [TypeChoice T]

/-- The name of a value's variant. -/
def typeName (x : T) : String := (variant x).typeName

/-- The tag of a value's variant. -/
def tag (x : T) : UInt64 := (variant x).tag

/-- Whether a value is valid. -/
def check (x : T) : Except VariantError Unit := (variant x).check

end TypeChoice

end Rim
