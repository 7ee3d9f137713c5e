import Rim.Hook.Bundle
import Rim.Wire
import Rim.Config
import Rim.Text.Base64
/-!
# The two wire formats

A record travels as a map by key, or an array by position, in the binary form, and as an object by
name in the text form.  A format says what raw values and keys are, how entries make a record, how
byte strings and lists look, and how plain values are told.

## Main definitions

* `Format`, `Raw`, `Key`: the formats, their values and their keys.
* `RecordError`: why a value cannot be encoded or decoded, and where.
* `Format.ofEntries`, `Format.toEntries`, `Format.entry?`: records and their entries.
-/

namespace Rim

/-- The wire formats. -/
inductive Format where
  | cbor
  | json
  deriving DecidableEq, Repr

/-- The raw values of a format. -/
abbrev Raw : Format → Type
  | .cbor => Cbor
  | .json => Json

/-- What a record's entries are known by in a format. -/
abbrev Key : Format → Type
  | .cbor => UInt64
  | .json => String

instance (f : Format) : DecidableEq (Key f) :=
  match f with
  | .cbor => inferInstanceAs (DecidableEq UInt64)
  | .json => inferInstanceAs (DecidableEq String)

instance (f : Format) : Inhabited (Raw f) :=
  match f with
  | .cbor => ⟨Cbor.null⟩
  | .json => ⟨Json.null⟩

/-! ## Errors -/

/-- Why a plain value is refused. -/
inductive ScalarError where
  | mismatch
  | unknownName (label name : String)
  | digestItems (found : Nat)
  | badBase64
  deriving DecidableEq, Repr

/-- The reason in words. -/
def ScalarError.message : ScalarError → String
  | mismatch => elided
  | unknownName label name => s!"unknown {label}: {Text.quote name}"
  | digestItems found => s!"digest expects 2 items, found {found}"
  | badBase64 => s!"bad base64: {elided}"

/-- Why a value cannot be encoded or decoded.  An error within a field or an item of a list is
wrapped with the name of the field or the index of the item. -/
inductive RecordError where
  | missingField (spec : FieldSpec)
  | unclaimed (entity : String) (keys : List String)
  | wrongType (expected found : String)
  | writtenTwice (entity : String) (spec : FieldSpec)
  | field (name : String) (source : RecordError)
  | item (index : Nat) (source : RecordError)
  | scalar (cause : ScalarError)
  | choice (cause : VariantError)
  | wire (cause : WireError)
  | hook (cause : HookRefusal)
  deriving DecidableEq, Repr

namespace RecordError

/-- The message of an error. -/
def message : RecordError → String
  | missingField spec => s!"missing mandatory field {Text.quote spec.name} ({spec.key})"
  | unclaimed entity keys => entity ++ ": unexpected fields [" ++ ", ".intercalate keys ++ "]"
  | wrongType expected found => s!"expected {expected}, found {found}"
  | writtenTwice entity spec =>
    s!"{entity}: field {Text.quote spec.name} ({spec.key}) written twice"
  | field name source => s!"field {Text.quote name}: {source.message}"
  | item index source => s!"item {index}: {source.message}"
  | scalar cause => s!"invalid scalar: {cause.message}"
  | choice cause => cause.message
  | wire cause => cause.message
  | hook cause => cause.message

/-- The names of the fields an error is wrapped with, from the outside in. -/
def path : RecordError → List String
  | field name source => name :: source.path
  | item _ source => source.path
  | _ => []

/-- The error without its wrappers. -/
def innermost : RecordError → RecordError
  | field _ source => source.innermost
  | item _ source => source.innermost
  | e => e

/-- The kind of an error, which is that of its root cause. -/
def kind : RecordError → ErrorKind
  | missingField _ | unclaimed _ _ | wrongType _ _ | writtenTwice _ _ | scalar _ =>
    .schema
  | field _ source => source.kind
  | item _ source => source.kind
  | choice cause => cause.kind
  | wire cause => cause.kind
  | hook _ => .registryConflict

theorem kind_innermost (e : RecordError) : e.innermost.kind = e.kind := by
  induction e with
  | field _ _ ih => exact ih
  | item _ _ ih => exact ih
  | _ => rfl

end RecordError

/-! ## Results -/

/-- The outcome of encoding or decoding. -/
abbrev Coded (α : Type) := Except RecordError α

/-- A result whose error is wrapped with the name of a field. -/
def Coded.underField {α : Type} (name : String) : Coded α → Coded α
  | .ok a => .ok a
  | .error e => .error (.field name e)

@[simp] theorem Coded.underField_ok {α : Type} (name : String) (a : α) :
    Coded.underField name (.ok a) = .ok a := rfl

@[simp] theorem Coded.underField_error {α : Type} (name : String) (e : RecordError) :
    Coded.underField name (.error e : Coded α) = .error (.field name e) := rfl

/-- A result whose error is wrapped with the index of an item. -/
def Coded.underIndex {α : Type} (index : Nat) : Coded α → Coded α
  | .ok a => .ok a
  | .error e => .error (.item index e)

@[simp] theorem Coded.underIndex_ok {α : Type} (index : Nat) (a : α) :
    Coded.underIndex index (.ok a) = .ok a := rfl

@[simp] theorem Coded.underIndex_error {α : Type} (index : Nat) (e : RecordError) :
    Coded.underIndex index (.error e : Coded α) = .error (.item index e) := rfl

/-- A result whose error comes from a type choice. -/
def Coded.ofChoice {α : Type} : Except VariantError α → Coded α
  | .ok a => .ok a
  | .error e => .error (.choice e)

/-- A result whose error comes from attaching a hook. -/
def Coded.ofHook {α : Type} : Except HookRefusal α → Coded α
  | .ok a => .ok a
  | .error e => .error (.hook e)

/-- A result whose error comes from the wire. -/
def Coded.ofWire {α : Type} : Except WireError α → Coded α
  | .ok a => .ok a
  | .error e => .error (.wire e)

/-! ## Keys -/

namespace Format

/-- What a field is known by. -/
def keyFor : (f : Format) → FieldSpec → Key f
  | .cbor, spec => spec.key
  | .json, spec => spec.name

/-- A key as messages show it. -/
def showKey : (f : Format) → Key f → String
  | .cbor, k => toString k
  | .json, k => k

/-- The ascending order of keys. -/
def keyLe : (f : Format) → Key f → Key f → Bool
  | .cbor, a, b => a.toNat ≤ b.toNat
  | .json, a, b => a < b || a == b

/-- The word messages use for a raw value. -/
def sortName : (f : Format) → Raw f → String
  | .cbor, v => v.sortName
  | .json, v => v.sortName

/-- The nesting depth of a raw value. -/
def depth : (f : Format) → Raw f → Nat
  | .cbor, v => v.depth
  | .json, v => v.depth

/-! ## Records and their entries

A record with distinct keys is taken apart into the entries it was made of, in the binary form in
ascending order of keys.  An array needs the keys from zero on for this. -/

/-- The record of some entries in the order written.  The text form keeps this order, the binary
form orders by key. -/
def ofEntries : (f : Format) → Layout → List (FieldSpec × Raw f) → Raw f
  | .cbor, .map, entries => Cbor.mapOf (entries.map fun e => (.int e.1.key.toNat, e.2))
  -- An array has no keys, so the place of an item is what tells its field.
  | .cbor, .array, entries =>
    .array ((entries.mergeSort fun a b => a.1.key.toNat ≤ b.1.key.toNat).map (·.2))
  | .json, _, entries => .object (entries.map fun e => (e.1.name, e.2))

/-- The key an item is in the binary form of a record. -/
def recordKey : Cbor → Coded UInt64
  | .int v =>
    if 0 ≤ v ∧ v < 18446744073709551616 then .ok (UInt64.ofNat v.toNat)
    else .error (.wrongType "unsigned integer key" "negative integer")
  | other => .error (.wrongType "unsigned integer key" other.sortName)

/-- Entries with the keys of the binary form of a record. -/
def recordEntries : List (Cbor × Cbor) → Coded (List (UInt64 × Cbor))
  | [] => .ok []
  | (k, v) :: rest => do
    let key ← recordKey k
    let others ← recordEntries rest
    return (key, v) :: others

/-- Items under the positions from `n` on. -/
def positioned (n : Nat) : List Cbor → List (UInt64 × Cbor)
  | [] => []
  | v :: rest => (UInt64.ofNat n, v) :: positioned (n + 1) rest

/-- The entries of a record. -/
def toEntries : (f : Format) → Layout → Raw f → Coded (List (Key f × Raw f))
  | .cbor, .map, .map entries => recordEntries entries
  | .cbor, .array, .array items => .ok (positioned 0 items)
  | .cbor, .map, v => .error (.wrongType "map" v.sortName)
  | .cbor, .array, v => .error (.wrongType "array" v.sortName)
  | .json, _, .object members => .ok members
  | .json, _, v => .error (.wrongType "object" v.sortName)

/-- The entry of a map under an integer key. -/
def findKey? (key : UInt64) : List (Cbor × Cbor) → Option Cbor
  | [] => none
  | (.int v, value) :: rest => if v = key.toNat then some value else findKey? key rest
  | _ :: rest => findKey? key rest

/-- One field of a record that is not an array, read without decoding the others. -/
def entry? : (f : Format) → Raw f → FieldSpec → Option (Raw f)
  | .cbor, .map entries, spec => findKey? spec.key entries
  | .cbor, _, _ => none
  | .json, v, spec => v.member? spec.name

/-! ## Values

What a function writes in a format, its counterpart reads back. -/

/-- A byte string. -/
def ofBytes : (f : Format) → List UInt8 → Raw f
  | .cbor, b => .bytes b
  | .json, b => .string (Base64.encode b)

/-- The bytes of a byte string. -/
def toBytes : (f : Format) → Raw f → Coded (List UInt8)
  | .cbor, .bytes b => .ok b
  | .cbor, v => .error (.wrongType "byte string" v.sortName)
  | .json, .string text =>
    match Base64.decode? text with
    | some b => .ok b
    | none => .error (.scalar .badBase64)
  | .json, v => .error (.wrongType "base64 string" v.sortName)

/-- A list. -/
def ofList : (f : Format) → List (Raw f) → Raw f
  | .cbor, items => .array items
  | .json, items => .array items

/-- The items of a list. -/
def toList : (f : Format) → Raw f → Coded (List (Raw f))
  | .cbor, .array items => .ok items
  | .cbor, v => .error (.wrongType "array" v.sortName)
  | .json, .array items => .ok items
  | .json, v => .error (.wrongType "array" v.sortName)

/-- A text. -/
def ofText : (f : Format) → String → Raw f
  | .cbor, s => .text s
  | .json, s => .string s

/-- The text a raw value is; in the binary form also that of a byte string of UTF-8. -/
def toText : (f : Format) → Raw f → Coded String
  | .cbor, .text s => .ok s
  | .cbor, .bytes b =>
    match Utf8.decode? b with
    | some s => .ok s
    | none => .error (.scalar .mismatch)
  | .json, .string s => .ok s
  | _, _ => .error (.scalar .mismatch)

/-- An integer. -/
def ofInt : (f : Format) → Int → Raw f
  | .cbor, v => .int v
  | .json, v => .int v

/-- The integer a raw value is, within bounds. -/
def toInt (low high : Int) : (f : Format) → Raw f → Coded Int
  | .cbor, .int v => if low ≤ v ∧ v ≤ high then .ok v else .error (.scalar .mismatch)
  | .json, .int v => if low ≤ v ∧ v ≤ high then .ok v else .error (.scalar .mismatch)
  | _, _ => .error (.scalar .mismatch)

/-- A truth value. -/
def ofBool : (f : Format) → Bool → Raw f
  | .cbor, b => .bool b
  | .json, b => .bool b

/-- The truth value a raw value is. -/
def toBool : (f : Format) → Raw f → Coded Bool
  | .cbor, .bool b => .ok b
  | .json, .bool b => .ok b
  | _, _ => .error (.scalar .mismatch)

/-! ## Documents -/

/-- The document of a raw value. -/
def toDocument (config : Config) : (f : Format) → Raw f → Except WireError (List UInt8)
  | .cbor, v => v.toBytes
  | .json, v => .ok (v.toBytes config.prettyJson)

/-- The raw value of a document. -/
def ofDocument (config : Config) : (f : Format) → List UInt8 → Except WireError (Raw f)
  | .cbor, bytes => Cbor.ofBytes config.maxInputBytes bytes
  | .json, bytes => Json.ofBytes config.maxInputBytes bytes

end Format

end Rim
