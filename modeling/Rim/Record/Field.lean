import Rim.Record.Format
/-!
# Values under a field

A field codec says how the values of one type travel under a field: how they are written and read
in both formats, and which of them count as empty, so that an optional field leaves them out.

## Main definitions

* `FieldCodec`: the codec of a type.
* `FieldCodec.bool`, `FieldCodec.uint64`, `FieldCodec.string`, `FieldCodec.bytes`: plain values.
* `FieldCodec.list`: lists of values.
* `FieldCodec.choice`: type choices, with their name or tag.
* `FieldCodec.code`, `FieldCodec.tagId`: codes, and document identifiers.
* `FieldCodec.uuid`, `FieldCodec.byteString`, `FieldCodec.digest`: payloads without a tag.
-/

namespace Rim

/-- How the values of a type travel under a field. -/
structure FieldCodec (α : Type) where
  encode : (f : Format) → α → Coded (Raw f)
  decode : (f : Format) → Context → Raw f → Coded α
  isEmpty : α → Bool := fun _ => false

/-- The items of a list encoded in turn, the first at an index. -/
def encodeItems {α β : Type} (one : α → Coded β) (index : Nat) : List α → Coded (List β)
  | [] => .ok []
  | a :: rest => do
    let x ← Coded.underIndex index (one a)
    let xs ← encodeItems one (index + 1) rest
    return x :: xs

/-! ## Plain values

An empty value is one that says nothing: the empty text, the empty byte string, the empty list. -/

namespace FieldCodec

/-- Truth values. -/
def bool : FieldCodec Bool where
  encode f b := .ok (f.ofBool b)
  decode f _ v := f.toBool v

/-- Unsigned 64-bit integers. -/
def uint64 : FieldCodec UInt64 where
  encode f n := .ok (f.ofInt n.toNat)
  decode f _ v := (Format.toInt 0 18446744073709551615 f v).map fun n => UInt64.ofNat n.toNat

/-- Texts; the empty text is empty. -/
def string : FieldCodec String where
  encode f s := .ok (f.ofText s)
  decode f _ v := f.toText v
  isEmpty := String.isEmpty

/-- Byte strings; the empty string is empty. -/
def bytes : FieldCodec (List UInt8) where
  encode f b := .ok (f.ofBytes b)
  decode f _ v := f.toBytes v
  isEmpty := List.isEmpty

/-- Lists of values; the list without items is empty. -/
def list {α : Type} (c : FieldCodec α) : FieldCodec (List α) where
  encode f items := (encodeItems (c.encode f) 0 items).map f.ofList
  decode f cx v := do encodeItems (c.decode f cx) 0 (← f.toList v)
  isEmpty := List.isEmpty

/-- The codec with its values decoded where other stand-ins are in force. -/
def under {α : Type} (standIns : List StandIn) (c : FieldCodec α) : FieldCodec α :=
  { c with decode := fun f cx v => c.decode f (cx.withStandIns standIns) v }

/-! ## Codes and payloads

A payload under a field of its own type needs neither name nor tag. -/

/-- Codes: the number in the binary form, and in the text form the name of a code that has one. -/
def code (α : Type) [OpenCode α] : FieldCodec α where
  encode
    | .cbor, c => .ok (.int (OpenCode.toNumber c).toNat)
    | .json, c =>
      match OpenCode.name? c with
      | some name => .ok (.string name)
      | none => .ok (.int (OpenCode.toNumber c).toNat)
  decode
    | .json, _, .string name =>
      match OpenCode.ofName? name with
      | some c => .ok c
      | none => .error (.scalar (.unknownName (OpenCode.label α) name))
    | f, cx, v => (uint64.decode f cx v).map OpenCode.ofNumber

/-- UUIDs without a tag: sixteen bytes, or the hyphenated text. -/
def uuid : FieldCodec Uuid where
  encode
    | .cbor, u => .ok (.bytes u.bytes)
    | .json, u => .ok (.string u.toText)
  decode
    | .cbor, _, v => do Coded.ofChoice (Uuid.lift (Uuid.ofBytes (← Format.toBytes .cbor v)))
    | .json, _, v => do Coded.ofChoice (Uuid.lift (Uuid.parse (← Format.toText .json v)))

/-- A payload that is a byte string, without its tag and its check. -/
def byteString {α : Type} (get : α → List UInt8) (make : List UInt8 → α) : FieldCodec α where
  encode f a := .ok (f.ofBytes (get a))
  decode f _ v := (f.toBytes v).map make

/-- Universal entity identifiers without a tag. -/
def ueid : FieldCodec Ueid := byteString Ueid.bytes Ueid.mk

/-- Opaque identifiers without a tag. -/
def taggedBytes : FieldCodec TaggedBytes := byteString TaggedBytes.bytes TaggedBytes.mk

/-- Implementation identifiers without a tag. -/
def implId : FieldCodec ImplId := byteString ImplId.bytes ImplId.mk

/-- Serialized keys without a tag. -/
def coseKey : FieldCodec CoseKey := byteString CoseKey.bytes CoseKey.mk

/-- Digests without a tag: the number and the bytes, or the text form. -/
def digest : FieldCodec Digest where
  encode
    | .cbor, d => .ok d.toCbor
    | .json, d => .ok (.string d.toText)
  decode
    | .cbor, cx, v => do
      match ← Format.toList .cbor v with
      | [alg, value] =>
        let id ← uint64.decode .cbor cx alg
        let b ← Format.toBytes .cbor value
        Coded.ofChoice (Digest.ofParts id.toNat b)
      | items => .error (.scalar (.digestItems items.length))
    | .json, _, v => do Coded.ofChoice (Digest.ofText (← Format.toText .json v))

/-- Document identifiers: text, or a UUID as bytes in the binary form and spelled in the text
form.  An identifier that identifies nothing is empty. -/
def tagId : FieldCodec TagId where
  encode
    | f, .text s => .ok (f.ofText s)
    | f, .uuid u => uuid.encode f u
  decode
    | .cbor, _, .bytes b => (Coded.ofChoice (Uuid.lift (Uuid.ofBytes b))).map TagId.uuid
    | .cbor, _, v => (Format.toText .cbor v).map TagId.text
    | .json, _, v => (Format.toText .json v).map TagId.ofText
  isEmpty id := !id.isSet

/-! ## Type choices

The binary form tags the payload; the text form names its type beside the value.  Nothing stands in
for a name or a tag that is absent. -/

/-- A type choice with its tag, or with its name. -/
def encodeChoice {T : Type} [TypeChoice T] (x : T) : (f : Format) → Coded (Raw f)
  | .cbor => do
    let payload ← Coded.ofChoice (TypeChoice.variant x).toCbor
    return .tag (TypeChoice.tag x) payload
  | .json => do
    let value ← Coded.ofChoice (TypeChoice.variant x).toJson
    return .object [("type", .string (TypeChoice.typeName x)), ("value", value)]

/-- The value of a tagged item. -/
def decodeTagged {T : Type} [TypeChoice T] (r : Catalog T) : Cbor → Coded T
  | .tag number payload => Coded.ofChoice (r.buildTagged number (.cbor payload))
  | _ => .error (.choice (.untyped (TypeChoice.family T)))

/-- The value of an object with a type and a value; no other member may stand beside them. -/
def decodeNamed {T : Type} [TypeChoice T] (r : Catalog T) : Json → Coded T
  | .object members =>
    let extra := (members.map (·.1)).filter fun name => name != "type" && name != "value"
    if !extra.isEmpty then .error (.unclaimed (TypeChoice.family T) extra)
    else
      match Json.find? "type" members with
      | none => .error (.choice (.untyped (TypeChoice.family T)))
      | some (.string name) =>
        if name.isEmpty then .error (.choice (.untyped (TypeChoice.family T)))
        else
          Coded.ofChoice
            (r.buildNamed name (.json ((Json.find? "value" members).getD .null)))
      | some other => .error (.wrongType "type name string" other.sortName)
  | v => .error (.wrongType "type/value object" v.sortName)

/-- The value of a raw value, by the catalog of its family. -/
def decodeChoice {T : Type} [TypeChoice T] (r : Catalog T) : (f : Format) → Raw f → Coded T
  | .cbor, v => decodeTagged r v
  | .json, v => decodeNamed r v

/-- The type choices of a family. -/
def choice (family : Family) : FieldCodec family.Value where
  encode f x := encodeChoice x f
  decode f cx v := do decodeChoice (← Coded.ofChoice (cx.catalogs.family family)) f v

end FieldCodec

end Rim
