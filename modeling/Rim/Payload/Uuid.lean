import Rim.Choice.Basic
import Rim.Text.Hex
/-!
# Universally unique identifiers

An identifier is sixteen bytes.  Its text form is hyphenated, in groups of 8, 4, 4, 4 and 12 digits
of either case; it is shown in lower case.  The identifier whose bytes are all zero stands for no
value.

## Main definitions

* `Uuid`: identifiers.
* `Uuid.ofBytes`, `Uuid.parse`: identifiers from bytes and from text.
* `Uuid.toText`: the text form.
-/

namespace Rim

/-- A universally unique identifier. -/
structure Uuid where
  bytes : List UInt8
  length_eq : bytes.length = 16
  deriving DecidableEq, Repr

/-- Why bytes or a text are no identifier. -/
inductive UuidError where
  | length (got : Nat)
  | form (text : String)
  | digits (text : String)
  | nil
  deriving DecidableEq, Repr

/-- The reason in words. -/
def UuidError.message : UuidError → String
  | length got => s!"expected 16 bytes, got {got}"
  | form text => s!"{Text.quote text} is not in 8-4-4-4-12 form"
  | digits text => s!"{Text.quote text}: {elided}"
  | nil => "empty UUID"

namespace Uuid

/-- The identifier that stands for no value. -/
def nil : Uuid := ⟨List.replicate 16 0, by decide⟩

instance : Inhabited Uuid := ⟨nil⟩

/-- Whether an identifier stands for no value. -/
def isNil (u : Uuid) : Bool := u == nil

/-- The identifier of sixteen bytes. -/
def ofBytes (bytes : List UInt8) : Except UuidError Uuid :=
  if h : bytes.length = 16 then .ok ⟨bytes, h⟩ else .error (.length bytes.length)

/-- A list cut into the digits of its five groups, if hyphens stand between them. -/
def digits? (cs : List Char) : Option (List Char) :=
  if cs[8]? = some '-' ∧ cs[13]? = some '-' ∧ cs[18]? = some '-' ∧ cs[23]? = some '-' then
    some (cs.take 8 ++ (cs.drop 9).take 4 ++ (cs.drop 14).take 4 ++ (cs.drop 19).take 4 ++
      cs.drop 24)
  else none

/-- The identifier a hyphenated text spells. -/
def parse (text : String) : Except UuidError Uuid :=
  if (Utf8.encode text).length ≠ 36 then .error (.form text)
  else
    match (digits? text.toList).bind Hex.decodeChars? with
    | some bytes => if h : bytes.length = 16 then .ok ⟨bytes, h⟩ else .error (.digits text)
    | none => .error (.digits text)

/-- The hyphenated text form. -/
def toText (u : Uuid) : String :=
  let ds := u.bytes.flatMap Hex.pair
  String.ofList (ds.take 8 ++ '-' :: (ds.drop 8).take 4 ++ '-' :: (ds.drop 12).take 4 ++
    '-' :: (ds.drop 16).take 4 ++ '-' :: ds.drop 20)

/-- A refusal as one of the variant's payload. -/
def lift {α : Type} : Except UuidError α → Except VariantError α
  | .ok a => .ok a
  | .error e => .error (.invalid "uuid" e.message)

/-- Any identifier but the one for no value. -/
def check (u : Uuid) : Except VariantError Unit :=
  if u.isNil then lift (.error .nil) else .ok ()

/-- The variant of identifiers. -/
def payload : PayloadType Uuid where
  typeName := "uuid"
  tag := 37
  sentinel := nil
  display := toText
  bytes := Uuid.bytes
  check := check
  toCbor u := .ok (.bytes u.bytes)
  toJson u := .ok (.string u.toText)
  ofText t := lift (parse t)
  ofCbor
    | .bytes b => lift (ofBytes b)
    | _ => .error (.wrongInput "uuid" "byte string")

end Uuid

end Rim
