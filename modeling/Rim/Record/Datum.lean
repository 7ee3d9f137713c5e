import Rim.Record.Shape
import Rim.Hook.Attached
/-!
# Hook fields on the wire

The fields of a hook stand beside the entity's own in its map.  They are written after these, and
read from what these left unclaimed.

## Main definitions

* `identityShape`, `entityShape`: what entities write and read.
* `Datum.encode`, `Datum.decode`: values of hook fields.
* `Datum.cellPuts`, `takeCells`: the fields of a hook.
* `FieldCodec.datum`: the codec of a kind of hook fields.
* `RecordShape.holding`, `RecordShape.extended`: the codecs of record types that hold records with
  hooks, and of those that carry one.
-/

namespace Rim

/-- The name and the registration URI of an entity. -/
def identityShape : RecordShape EntityIdentity :=
  .flat "entity-identity" .map [
    .required (.required "name" 0) .string (·.name) fun a r => { r with name := a },
    .optional (.optional "regid" 1) .string (·.regId) fun a r => { r with regId := a }]

/-- An entity of a module identifier; its identity is embedded before its roles. -/
def entityShape : RecordShape Entity where
  schema := .mk "entity" .map [.required "roles" 2] [identityShape.schema]
  members :=
    identityShape.members.map
      (·.embedded (fun e : Entity => e.identity) fun a e => { e with identity := a }) ++
    [.required (.required "roles" 2) (.list (.code Role)) (fun e => e.roles)
      fun a e => { e with roles := a }]

namespace Kind

/-- The least integer of a kind of signed integers. -/
def signedLow (w : Width) : Int := -(Nat.pow 2 (w.bits - 1))

/-- The greatest integer of a kind of signed integers. -/
def signedHigh (w : Width) : Int := Nat.pow 2 (w.bits - 1) - 1

/-- The greatest integer of a kind of unsigned integers. -/
def unsignedHigh (w : Width) : Int := Nat.pow 2 w.bits - 1

/-- The value that the absence of a defaulted field of a kind stands for. -/
def absent? : Kind → Option Datum
  | .list (.unsigned .w64) => some (.list [])
  | .string => some (.string "")
  | .unsigned .w64 => some (.int 0)
  | _ => none

end Kind

namespace Datum

/-- Whether an optional field leaves a value out. -/
def isEmpty : Datum → Bool
  | string s => s.isEmpty
  | bytes b => b.isEmpty
  | tagId id => !id.isSet
  | list items => items.isEmpty
  | _ => false

/-- The value of a field to be written, unless the field is optional and the value empty. -/
def put? {f : Format} (spec : FieldSpec) (value : Datum) (coded : Coded (Raw f)) :
    Option (Put f) :=
  if spec.isOptional && value.isEmpty then none else some ⟨spec, coded⟩

mutual

/-- The raw form of a value. -/
def encode (f : Format) : Datum → Coded (Raw f)
  | bool b => FieldCodec.bool.encode f b
  | int v => .ok (f.ofInt v)
  | string s => FieldCodec.string.encode f s
  | bytes b => FieldCodec.bytes.encode f b
  | uuid u => FieldCodec.uuid.encode f u
  | tagId id => FieldCodec.tagId.encode f id
  | ueid u => FieldCodec.ueid.encode f u
  | digest d => FieldCodec.digest.encode f d
  | classId x => FieldCodec.encodeChoice x f
  | entity ⟨body, hook⟩ =>
    entityShape.encodeWith f ⟨body, none⟩ (slotPuts f hook)
  | list items => (encodeList f 0 items).map f.ofList

/-- The raw forms of the items of a list, the first at an index. -/
def encodeList (f : Format) (index : Nat) : List Datum → Coded (List (Raw f))
  | [] => .ok []
  | item :: rest => do
    let x ← Coded.underIndex index (encode f item)
    let xs ← encodeList f (index + 1) rest
    return x :: xs

/-- What the hook in a slot of an entity writes. -/
def slotPuts (f : Format) : Option (HookOf EntityBody Datum) → List (Put f)
  | none => []
  | some ⟨_, _, fields, _⟩ => fieldPuts f fields

/-- What the fields of a hook write, if it has the capability. -/
def fieldPuts (f : Format) : Option (List (Cell Datum)) → List (Put f)
  | none => []
  | some cells => cellPuts f cells

/-- What fields write, one after the other; a field without a value writes nothing. -/
def cellPuts (f : Format) : List (Cell Datum) → List (Put f)
  | [] => []
  | ⟨shape, value⟩ :: rest => (valuePut? f shape.spec value).toList ++ cellPuts f rest

/-- What one field writes. -/
def valuePut? (f : Format) (spec : FieldSpec) : Option Datum → Option (Put f)
  | none => none
  | some value => put? spec value (encode f value)

end

end Datum

/-- Types of values that fields of hooks may hold, as far as these are written. -/
class HookValue (V : Type) where
  encode : (f : Format) → V → Coded (Raw f)
  isEmpty : V → Bool

instance : HookValue Datum := ⟨Datum.encode, Datum.isEmpty⟩

section

variable {B V : Type} [HookValue V]

/-- What a field of a hook writes; without a value it writes nothing. -/
def Cell.put? (f : Format) (c : Cell V) : Option (Put f) :=
  c.value.bind fun x =>
    if c.shape.spec.isOptional && HookValue.isEmpty x then none
    else some ⟨c.shape.spec, HookValue.encode f x⟩

/-- What the hook of a slot writes, one field after the other. -/
def Slot.puts (f : Format) (s : Slot B V) : List (Put f) :=
  match s with
  | some h => (Hook.cells h).filterMap (Cell.put? f)
  | none => []

end

/-- The value a field has when no entry is claimed for it. -/
def FieldShape.absent (shape : FieldShape) : Coded (Option Datum) :=
  match if shape.defaulted then shape.kind.absent? else none with
  | some value => .ok (some value)
  | none => if shape.spec.isOptional then .ok none else .error (.missingField shape.spec)

/-- The value of a field taken from the entry claimed for it, if there is one. -/
def takeCell {f : Format} (decode : Kind → Raw f → Coded Datum) (shape : FieldShape) :
    Option (Raw f) → Coded (Option Datum)
  | some v => (Coded.underField shape.spec.name (decode shape.kind v)).map some
  | none => shape.absent

/-- The fields of a hook with the values they claim, one after the other. -/
def takeCells {f : Format} (decode : Kind → Raw f → Coded Datum) :
    List (Cell Datum) → Entries f → Coded (List (Cell Datum) × Entries f)
  | [], entries => .ok ([], entries)
  | c :: rest, entries => do
    let value ← takeCell decode c.shape (entries.get? c.shape.spec)
    let (cells, entries) ← takeCells decode rest (entries.without c.shape.spec)
    return ({ c with value } :: cells, entries)

/-- A slot whose hook has taken its fields from what is left unclaimed. -/
def Slot.take {B : Type} {f : Format} (decode : Kind → Raw f → Coded Datum) (s : Slot B)
    (entries : Entries f) : Coded (Slot B × Entries f) :=
  match s with
  | none => .ok (none, entries)
  | some h =>
    match h.fields with
    -- A hook without fields claims nothing.
    | none => .ok (some h, entries)
    | some cells => do
      let (cells, entries) ← takeCells decode cells entries
      return (some { h with fields := some cells }, entries)

namespace RecordShape

variable {E : Type} [Hookable E]

/-- The raw value of an entity and its hook. -/
def encodeExtended (s : RecordShape E) (f : Format) (e : E) : Coded (Raw f) :=
  s.encodeWith f e (Slot.puts f (Hookable.slot e))

/-- An entity and its hook, already attached, with their fields taken from a raw value. -/
def decodeExtended (s : RecordShape E) (f : Format) (cx : Context)
    (decode : Kind → Raw f → Coded Datum) (e : E) (v : Raw f) : Coded E :=
  s.decodeWith f cx e (fun e entries => do
    let (slot, entries) ← Slot.take decode (Hookable.slot e) entries
    return (Hookable.withSlot e slot, entries)) v

end RecordShape

namespace Datum

/-- The payload of a kind without items read by a field codec. -/
def decodePlain (f : Format) (cx : Context) (v : Raw f) : Kind → Coded Datum
  | .bool => (FieldCodec.bool.decode f cx v).map bool
  | .unsigned w => (Format.toInt 0 (Kind.unsignedHigh w) f v).map int
  | .signed w => (Format.toInt (Kind.signedLow w) (Kind.signedHigh w) f v).map int
  | .string => (FieldCodec.string.decode f cx v).map string
  | .bytes => (FieldCodec.bytes.decode f cx v).map bytes
  | .uuid => (FieldCodec.uuid.decode f cx v).map uuid
  | .tagId => (FieldCodec.tagId.decode f cx v).map tagId
  | .ueid => (FieldCodec.ueid.decode f cx v).map ueid
  | .digest => (FieldCodec.digest.decode f cx v).map digest
  | .classId => ((FieldCodec.choice .classId).decode f cx v).map classId
  | .entity => .error (.wrongType (match f with | .cbor => "map" | .json => "object")
      (f.sortName v))
  | .list _ => .error (.wrongType "array" (f.sortName v))

/-- The value of a kind a raw value is; `depth` bounds the nesting still to come. -/
def decodeWithin (f : Format) (cx : Context) : Nat → Kind → Raw f → Coded Datum
  | depth + 1, .list item, v => do
    let items ← f.toList v
    return .list (← encodeItems (decodeWithin f cx depth item) 0 items)
  | depth + 1, .entity, v => do
    let e ← Coded.ofHook (cx.attach (default : Entity))
    return .entity (← entityShape.decodeExtended f cx (decodeWithin f cx depth) e v)
  | _, kind, v => decodePlain f cx v kind

/-- The value of a kind a raw value is. -/
def decode (f : Format) (cx : Context) (kind : Kind) (v : Raw f) : Coded Datum :=
  decodeWithin f cx (f.depth v + 1) kind v

end Datum

namespace RecordShape

/-- The codec of a record type that holds records with hooks: a fresh record has the hooks of its
position attached and then takes its fields. -/
def holding {R : Type} [Attachable R] (s : RecordShape R) (blank : R) : FieldCodec R where
  encode := s.encode
  decode f cx v := do
    let r ← Coded.ofHook (cx.attach blank)
    s.decode f cx r v

/-- The record of an entity that has its hooks, with its fields and those of its hook taken from a
raw value. -/
def decodeAttached {E : Type} [Hookable E] (s : RecordShape E) (f : Format) (cx : Context) (e : E)
    (v : Raw f) : Coded E :=
  s.decodeExtended f cx (Datum.decode f cx) e v

/-- The codec of a record type that carries a hook: a fresh record has the hooks of its position
attached and then takes its fields and those of its hook. -/
def extended {E : Type} [Hookable E] [Attachable E] (s : RecordShape E) (blank : E) :
    FieldCodec E where
  encode := s.encodeExtended
  decode f cx v := do
    let e ← Coded.ofHook (cx.attach blank)
    s.decodeAttached f cx e v

end RecordShape

/-- The values of a kind of hook fields. -/
def FieldCodec.datum (kind : Kind) : FieldCodec Datum where
  encode := Datum.encode
  decode f cx v := Datum.decode f cx kind v
  isEmpty := Datum.isEmpty

/-- The codec of entities of module identifiers. -/
def FieldCodec.entity : FieldCodec Entity := entityShape.extended default

end Rim
