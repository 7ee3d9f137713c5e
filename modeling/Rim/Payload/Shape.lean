import Rim.Choice.Basic
import Rim.Text.Base64
/-!
# Payloads that are a text or a byte string

Most payloads are a text, which travels as it is, or a byte string, which travels as base64 in the
text form.  They differ in name and tag and in what makes them valid.

## Main definitions

* `PayloadType.text`: payloads that are a text.
* `PayloadType.byteString`: payloads that are a byte string.
* `decodeBase64`: the bytes of a base64 text, for a named type.
-/

namespace Rim

/-- The bytes of a base64 text, for a named type. -/
def decodeBase64 (typeName text : String) : Except VariantError (List UInt8) :=
  match Base64.decode? text with
  | some bytes => .ok bytes
  | none => .error (.invalid typeName s!"bad base64: {elided}")

/-- A check that gives its reason for a refusal. -/
def refuse (typeName : String) (reason? : Option String) : Except VariantError Unit :=
  match reason? with
  | some reason => .error (.invalid typeName reason)
  | none => .ok ()

namespace PayloadType

variable {α : Type}

/-- Payloads that are a text. -/
def text (typeName : String) (tag : UInt64) (get : α → String) (make : String → α)
    (reason? : String → Option String) : PayloadType α where
  typeName := typeName
  tag := tag
  sentinel := make ""
  display := get
  bytes a := Utf8.encode (get a)
  check a := refuse typeName (reason? (get a))
  toCbor a := .ok (.text (get a))
  toJson a := .ok (.string (get a))
  ofText t := .ok (make t)
  ofCbor
    | .text t => .ok (make t)
    | _ => .error (.wrongInput typeName "text string")

/-- Payloads that are a byte string. -/
def byteString (typeName : String) (tag : UInt64) (get : α → List UInt8) (make : List UInt8 → α)
    (reason? : List UInt8 → Option String) : PayloadType α where
  typeName := typeName
  tag := tag
  sentinel := make []
  display a := Base64.encode (get a)
  bytes := get
  check a := refuse typeName (reason? (get a))
  toCbor a := .ok (.bytes (get a))
  toJson a := .ok (.string (Base64.encode (get a)))
  ofText t := (decodeBase64 typeName t).map make
  ofCbor
    | .bytes b => .ok (make b)
    | _ => .error (.wrongInput typeName "byte string")

end PayloadType

end Rim
