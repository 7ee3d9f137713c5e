/-!
# Base64 text

The standard alphabet with required padding.  Reading is canonical: the length is a multiple of
four, padding stands only at the end, the bits a padded group leaves over are zero, and no other
character may stand anywhere, so each byte string has exactly one text.

## Main definitions

* `Base64.encode`: the text of a byte string.
* `Base64.decode?`: the byte string a canonical text spells.
-/

namespace Rim.Base64

/-- The character for a value below sixty-four. -/
def symbol (n : Nat) : Char :=
  if n < 26 then Char.ofNat (65 + n)
  else if n < 52 then Char.ofNat (71 + n)
  else if n < 62 then Char.ofNat (n - 4)
  else if n = 62 then '+' else '/'

/-- The value of a character of the alphabet. -/
def value? (c : Char) : Option Nat :=
  if 'A' ≤ c ∧ c ≤ 'Z' then some (c.toNat - 65)
  else if 'a' ≤ c ∧ c ≤ 'z' then some (c.toNat - 71)
  else if '0' ≤ c ∧ c ≤ '9' then some (c.toNat + 4)
  else if c = '+' then some 62
  else if c = '/' then some 63
  else none

set_option maxRecDepth 4096 in
theorem value?_symbol {n : Nat} (h : n < 64) : value? (symbol n) = some n := by
  have key : ∀ m : Fin 64, value? (symbol m) = some m.val := by decide
  exact key ⟨n, h⟩

/-- Three bytes make four characters; a last group of one or two bytes is padded. -/
def encodeChars : List UInt8 → List Char
  | [] => []
  | [a] =>
    let n := a.toNat * 16
    [symbol (n / 64), symbol (n % 64), '=', '=']
  | [a, b] =>
    let n := (a.toNat * 256 + b.toNat) * 4
    [symbol (n / 4096), symbol (n / 64 % 64), symbol (n % 64), '=']
  | a :: b :: c :: rest =>
    let n := (a.toNat * 256 + b.toNat) * 256 + c.toNat
    symbol (n / 262144) :: symbol (n / 4096 % 64) :: symbol (n / 64 % 64) :: symbol (n % 64) ::
      encodeChars rest

/-- The text of a byte string. -/
def encode (bytes : List UInt8) : String :=
  String.ofList (encodeChars bytes)

/-- The bytes of one unpadded group of four values. -/
def group (p q r s : Nat) : List UInt8 :=
  let n := ((p * 64 + q) * 64 + r) * 64 + s
  [UInt8.ofNat (n / 65536), UInt8.ofNat (n / 256 % 256), UInt8.ofNat (n % 256)]

/-- The bytes spelled by a list of characters in canonical form. -/
def decodeChars? : List Char → Option (List UInt8)
  | [] => some []
  | [a, b, '=', '='] => do
    let p ← value? a
    let q ← value? b
    if q % 16 = 0 then return [UInt8.ofNat (p * 4 + q / 16)] else none
  | [a, b, c, '='] => do
    let p ← value? a
    let q ← value? b
    let r ← value? c
    if r % 4 = 0 then
      let n := (p * 64 + q) * 16 + r / 4
      return [UInt8.ofNat (n / 256), UInt8.ofNat (n % 256)]
    else none
  | a :: b :: c :: d :: rest => do
    let p ← value? a
    let q ← value? b
    let r ← value? c
    let s ← value? d
    let bytes ← decodeChars? rest
    return group p q r s ++ bytes
  | _ => none

/-- The byte string a canonical text spells. -/
def decode? (text : String) : Option (List UInt8) :=
  decodeChars? text.toList

end Rim.Base64
