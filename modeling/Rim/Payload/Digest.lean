import Rim.Payload.Shape
/-!
# Digests

A digest is a hash value with the algorithm that made it: an array of the algorithm's number and
the bytes in the binary form, the algorithm's name and base64 around a semicolon in the text form.

## Main definitions

* `HashAlg`: the hash algorithms, with number, name and length.
* `Digest`: digests, with `Digest.check` for their length.
* `Thumbprint`: the digest of a key or certificate, as a variant.
-/

namespace Rim

/-- The registered hash algorithms. -/
inductive HashAlg where
  | sha256
  | sha256trunc128
  | sha256trunc120
  | sha256trunc96
  | sha256trunc64
  | sha256trunc32
  | sha384
  | sha512
  | sha3trunc224
  | sha3size256
  | sha3size384
  | sha3size512
  deriving DecidableEq, Repr, Inhabited

namespace HashAlg

/-- All algorithms, in the order of their numbers. -/
def all : List HashAlg :=
  [sha256, sha256trunc128, sha256trunc120, sha256trunc96, sha256trunc64, sha256trunc32, sha384,
    sha512, sha3trunc224, sha3size256, sha3size384, sha3size512]

/-- The registered number. -/
def id : HashAlg → UInt64
  | sha256 => 1
  | sha256trunc128 => 2
  | sha256trunc120 => 3
  | sha256trunc96 => 4
  | sha256trunc64 => 5
  | sha256trunc32 => 6
  | sha384 => 7
  | sha512 => 8
  | sha3trunc224 => 9
  | sha3size256 => 10
  | sha3size384 => 11
  | sha3size512 => 12

/-- The registered name. -/
def name : HashAlg → String
  | sha256 => "sha-256"
  | sha256trunc128 => "sha-256-128"
  | sha256trunc120 => "sha-256-120"
  | sha256trunc96 => "sha-256-96"
  | sha256trunc64 => "sha-256-64"
  | sha256trunc32 => "sha-256-32"
  | sha384 => "sha-384"
  | sha512 => "sha-512"
  | sha3trunc224 => "sha3-224"
  | sha3size256 => "sha3-256"
  | sha3size384 => "sha3-384"
  | sha3size512 => "sha3-512"

/-- The length of a hash value in bytes. -/
def digestLength : HashAlg → Nat
  | sha256 | sha3size256 => 32
  | sha256trunc128 => 16
  | sha256trunc120 => 15
  | sha256trunc96 => 12
  | sha256trunc64 => 8
  | sha256trunc32 => 4
  | sha384 | sha3size384 => 48
  | sha512 | sha3size512 => 64
  | sha3trunc224 => 28

/-- The algorithm of a number. -/
def ofId? (n : UInt64) : Option HashAlg := all.find? (·.id == n)

/-- The algorithm of a name. -/
def ofName? (s : String) : Option HashAlg := all.find? (·.name == s)

theorem ofId?_id (a : HashAlg) : ofId? a.id = some a := by cases a <;> rfl

theorem ofName?_name (a : HashAlg) : ofName? a.name = some a := by cases a <;> decide

end HashAlg

/-- A hash value with its algorithm. -/
structure Digest where
  alg : HashAlg
  value : List UInt8
  deriving DecidableEq, Repr, Inhabited

/-- Why something is no digest. -/
inductive DigestError where
  | length (alg : HashAlg) (got : Nat)
  | unknownNumber (id : Int)
  | unknownName (name : String)
  | form (text : String)
  | badBase64
  deriving DecidableEq, Repr

/-- The reason in words. -/
def DigestError.message : DigestError → String
  | length alg got =>
    s!"length mismatch for hash algorithm {alg.name}: expected {alg.digestLength} bytes, got {got}"
  | unknownNumber id => s!"unknown hash algorithm {id}"
  | unknownName name => s!"unknown hash algorithm {Text.quote name}"
  | form text => s!"{Text.quote text} is not in alg;base64 form"
  | badBase64 => s!"bad base64: {elided}"

namespace Digest

/-- A refusal as one of a digest. -/
def lift {α : Type} : Except DigestError α → Except VariantError α
  | .ok a => .ok a
  | .error e => .error (.invalid "digest" e.message)

/-- The value has the length of its algorithm. -/
def check (d : Digest) : Except VariantError Unit :=
  if d.value.length = d.alg.digestLength then .ok ()
  else lift (.error (.length d.alg d.value.length))

/-- The digest of an algorithm and a value of its length. -/
def new (alg : HashAlg) (value : List UInt8) : Except VariantError Digest := do
  check ⟨alg, value⟩
  return ⟨alg, value⟩

/-- The digest of an algorithm's number and a value of any length. -/
def ofParts (id : Int) (value : List UInt8) : Except VariantError Digest :=
  match if 0 ≤ id ∧ id < 18446744073709551616 then HashAlg.ofId? (UInt64.ofNat id.toNat) else none
  with
  | some alg => .ok ⟨alg, value⟩
  | none => lift (.error (.unknownNumber id))

/-- The text form. -/
def toText (d : Digest) : String := s!"{d.alg.name};{Base64.encode d.value}"

/-- The digest a text spells, its value of any length. -/
def ofText (text : String) : Except VariantError Digest :=
  let name := text.toList.takeWhile (· != ';')
  match text.toList.drop name.length with
  | ';' :: value =>
    match HashAlg.ofName? (String.ofList name) with
    | some alg =>
      match Base64.decodeChars? value with
      | some bytes => .ok ⟨alg, bytes⟩
      | none => lift (.error .badBase64)
    | none => lift (.error (.unknownName (String.ofList name)))
  | _ => lift (.error (.form text))

/-- The binary form. -/
def toCbor (d : Digest) : Cbor := .array [.int d.alg.id.toNat, .bytes d.value]

/-- The digest of a binary form, its value of any length. -/
def ofCbor : Cbor → Except VariantError Digest
  | .array [.int id, .bytes value] => ofParts id value
  | .array _ => .error (.wrongInput "digest" "[alg, bytes]")
  | _ => .error (.wrongInput "digest" "array")

end Digest

/-- The digest of a key or certificate. -/
structure Thumbprint where
  digest : Digest
  deriving DecidableEq, Repr, Inhabited

/-- The variant of thumbprints. -/
def Thumbprint.payload : PayloadType Thumbprint where
  typeName := "thumbprint"
  tag := 557
  sentinel := default
  display t := t.digest.toText
  bytes t := t.digest.value
  check t := t.digest.check
  toCbor t := .ok t.digest.toCbor
  toJson t := .ok (.string t.digest.toText)
  ofText t := (Digest.ofText t).map Thumbprint.mk
  ofCbor c := (Digest.ofCbor c).map Thumbprint.mk

end Rim
