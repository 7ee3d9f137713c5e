import Rim.Payload.Shape
import Rim.Text.Blank
/-!
# Armoured keys and certificates

Keys and certificates in PEM.  Only the armour is checked: between a begin line and an end line of
the label stand lines that together are base64, and nothing else stands outside the blocks, blanks
aside.  What the base64 holds is never parsed.

## Main definitions

* `Pem.countBlocks`: the number of blocks of a label in a text.
* `PkixKey`, `PkixCert`, `PkixCertPath`: one public key, one certificate, a chain of certificates.
-/

namespace Rim

/-- Why a text is no sequence of blocks. -/
inductive PemError where
  | strayLine (begin line : String)
  | emptyBlock
  | badBase64
  | unfinished (ending : String)
  | noBlock
  | manyBlocks (count : Nat)
  deriving DecidableEq, Repr

/-- The reason in words. -/
def PemError.message : PemError → String
  | strayLine begin line => s!"expected {Text.quote begin}, found {Text.quote line}"
  | emptyBlock => "empty PEM block"
  | badBase64 => s!"bad base64: {elided}"
  | unfinished ending => s!"missing {Text.quote ending}"
  | noBlock => "no PEM block"
  | manyBlocks count => s!"expected one PEM block, found {count}"

namespace Pem

/-- The line that opens a block. -/
def beginLine (label : String) : String := s!"-----BEGIN {label}-----"

/-- The line that closes a block. -/
def endLine (label : String) : String := s!"-----END {label}-----"

/-- The lines of a text without the blanks at their ends, and without blank lines. -/
def contentLines (text : String) : List (List Char) :=
  ((Text.lines text.toList).map Text.trim).filter fun line => !line.isEmpty

/-- The blocks among lines; `body` is what a block that has been opened holds so far. -/
def countLines (label : String) : Option (List Char) → List (List Char) → Except PemError Nat
  | none, [] => .ok 0
  | some _, [] => .error (.unfinished (endLine label))
  | none, line :: rest =>
    if line = (beginLine label).toList then countLines label (some []) rest
    else .error (.strayLine (beginLine label) (String.ofList line))
  | some body, line :: rest =>
    if line = (endLine label).toList then
      if body.isEmpty then .error .emptyBlock
      else if (Base64.decodeChars? body).isNone then .error .badBase64
      else (countLines label none rest).map (· + 1)
    else countLines label (some (body ++ line)) rest

/-- The number of blocks of a label in a text that holds nothing else, at least one. -/
def countBlocks (label text : String) : Except PemError Nat :=
  match countLines label none (contentLines text) with
  | .ok 0 => .error .noBlock
  | result => result

/-- Why a text is not one block of a label. -/
def oneBlockFault? (label text : String) : Option String :=
  match countBlocks label text with
  | .ok n => if n ≤ 1 then none else some (PemError.manyBlocks n).message
  | .error e => some e.message

/-- Why a text is not a sequence of blocks of a label. -/
def blocksFault? (label text : String) : Option String :=
  match countBlocks label text with
  | .ok _ => none
  | .error e => some e.message

end Pem

/-- A public key in PEM. -/
structure PkixKey where
  text : String
  deriving DecidableEq, Repr, Inhabited

/-- A certificate in PEM. -/
structure PkixCert where
  text : String
  deriving DecidableEq, Repr, Inhabited

/-- A chain of certificates in PEM, leaf first. -/
structure PkixCertPath where
  text : String
  deriving DecidableEq, Repr, Inhabited

/-- The variant of public keys. -/
def PkixKey.payload : PayloadType PkixKey :=
  .text "pkix-base64-key" 554 PkixKey.text PkixKey.mk (Pem.oneBlockFault? "PUBLIC KEY")

/-- The variant of certificates. -/
def PkixCert.payload : PayloadType PkixCert :=
  .text "pkix-base64-cert" 555 PkixCert.text PkixCert.mk (Pem.oneBlockFault? "CERTIFICATE")

/-- The variant of chains of certificates. -/
def PkixCertPath.payload : PayloadType PkixCertPath :=
  .text "pkix-base64-cert-path" 556 PkixCertPath.text PkixCertPath.mk
    (Pem.blocksFault? "CERTIFICATE")

end Rim
