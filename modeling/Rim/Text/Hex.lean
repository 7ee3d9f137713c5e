/-!
# Hexadecimal text

Byte strings are shown as pairs of lower-case digits, high half first, and read back from pairs
of digits of either case.

## Main definitions

* `Hex.encode`: two lower-case digits per byte.
* `Hex.decode?`: the bytes a text of digit pairs spells.
-/

namespace Rim.Hex

/-- The lower-case digit for a value below sixteen. -/
def digit (n : Nat) : Char :=
  if n < 10 then Char.ofNat (48 + n) else Char.ofNat (87 + n)

/-- The value of a digit of either case. -/
def value? (c : Char) : Option Nat :=
  if '0' ≤ c ∧ c ≤ '9' then some (c.toNat - 48)
  else if 'a' ≤ c ∧ c ≤ 'f' then some (c.toNat - 87)
  else if 'A' ≤ c ∧ c ≤ 'F' then some (c.toNat - 55)
  else none

theorem value?_digit {n : Nat} (h : n < 16) : value? (digit n) = some n := by
  have key : ∀ m : Fin 16, value? (digit m) = some m.val := by decide
  exact key ⟨n, h⟩

/-- The two digits of one byte. -/
def pair (b : UInt8) : List Char :=
  [digit (b.toNat / 16), digit (b.toNat % 16)]

/-- The digits of a byte string. -/
def encode (bytes : List UInt8) : String :=
  String.ofList (bytes.flatMap pair)

/-- The bytes spelled by a list of digits; an odd digit or another character refuses all. -/
def decodeChars? : List Char → Option (List UInt8)
  | [] => some []
  | [_] => none
  | hi :: lo :: rest => do
    let h ← value? hi
    let l ← value? lo
    let bytes ← decodeChars? rest
    return UInt8.ofNat (16 * h + l) :: bytes

/-- The bytes spelled by a text. -/
def decode? (text : String) : Option (List UInt8) :=
  decodeChars? text.toList

theorem decodeChars?_flatMap_pair (bytes : List UInt8) :
    decodeChars? (bytes.flatMap pair) = some bytes := by
  induction bytes with
  | nil => rfl
  | cons b rest ih =>
    have hb : b.toNat < 256 := b.toNat_lt
    have hi : b.toNat / 16 < 16 := by omega
    have lo : b.toNat % 16 < 16 := by omega
    have halves : UInt8.ofNat (16 * (b.toNat / 16) + b.toNat % 16) = b := by
      rw [show 16 * (b.toNat / 16) + b.toNat % 16 = b.toNat by omega, UInt8.ofNat_toNat]
    simp only [List.flatMap_cons, pair, List.cons_append, List.nil_append, decodeChars?,
      value?_digit hi, value?_digit lo, ih, halves, Option.bind_eq_bind, Option.bind_some,
      Option.pure_def]

theorem decode?_encode (bytes : List UInt8) : decode? (encode bytes) = some bytes := by
  simp [decode?, encode, decodeChars?_flatMap_pair]

end Rim.Hex
