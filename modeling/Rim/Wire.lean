import Rim.Error
import Rim.Cbor.Keys
import Rim.Cbor.Order
import Rim.Cbor.Reader
import Rim.Json.Reader
import Rim.Json.Writer
/-!
# Documents on the wire

A document is read whole under a size limit.  A document that is not one well-formed item is
refused first, then one that repeats a key within a map, at any depth; what is left is its value.

## Main definitions

* `WireError`: why a document is refused.
* `Cbor.ofBytes`, `Cbor.toBytes`: the binary form.
* `Json.ofBytes`, `Json.toBytes`: the text form.
-/

namespace Rim

/-- Why a document cannot be written or read. -/
inductive WireError where
  | unwritable
  | malformed
  | tooLong (length limit : Nat)
  | repeatedKey (key : String)
  deriving DecidableEq, Repr

namespace WireError

/-- The message of a refusal. -/
def message : WireError → String
  | unwritable => s!"serialize error: {elided}"
  | malformed => s!"deserialize error: {elided}"
  | tooLong length limit =>
    s!"deserialize size limit exceeded: {length} bytes (limit {limit})"
  | repeatedKey key => s!"duplicate map key {key}"

/-- The stable name of a refusal. -/
def name : WireError → String
  | unwritable => "serialize"
  | malformed => "deserialize"
  | tooLong _ _ => "deserialize_size_limit_exceeded"
  | repeatedKey _ => "duplicate_key"

/-- A repeated key is a fault of the document's shape; every other refusal is one of its form. -/
def kind : WireError → ErrorKind
  | repeatedKey _ => .schema
  | _ => .serialize

end WireError

/-- The value of a binary document of at most `limit` bytes. -/
def Cbor.ofBytes (limit : Nat) (bytes : List UInt8) : Except WireError Cbor :=
  if limit < bytes.length then .error (.tooLong bytes.length limit)
  else
    match Cbor.parse? bytes with
    | none => .error .malformed
    | some item =>
      match item.firstRepeat? with
      | some key => .error (.repeatedKey key.message)
      | none => .ok item.ordered

/-- The binary document of a value. -/
def Cbor.toBytes (item : Cbor) : Except WireError (List UInt8) :=
  if item.isWritable then .ok item.encode else .error .unwritable

/-- The value of a text document of at most `limit` bytes. -/
def Json.ofBytes (limit : Nat) (bytes : List UInt8) : Except WireError Json :=
  if limit < bytes.length then .error (.tooLong bytes.length limit)
  else
    match Json.parse? bytes with
    | none => .error .malformed
    | some value =>
      match value.firstRepeat? with
      | some name => .error (.repeatedKey (Text.quote name))
      | none => .ok value

/-- The text document of a value. -/
def Json.toBytes (pretty : Bool) (value : Json) : List UInt8 :=
  value.encode pretty

end Rim
