import Rim.Text.Hidden
/-!
# Quotations

Messages quote text between double quotes.  The quote and the backslash are escaped, the usual
controls have their short escapes, every other hidden character is spelled by its number, and all
else stands as it is.

## Main definitions

* `quoteChar`: what stands for one character.
* `quote`: the quotation of a text.
-/

namespace Rim.Text

/-- The lower-case hexadecimal digits of a number, without leading zeros. -/
def hexNumber (n : Nat) : List Char :=
  Nat.toDigits 16 n

/-- What stands for one character between the quotes. -/
def quoteChar (c : Char) : List Char :=
  match c with
  | '"' => ['\\', '"']
  | '\\' => ['\\', '\\']
  | '\n' => ['\\', 'n']
  | '\r' => ['\\', 'r']
  | '\t' => ['\\', 't']
  | '\x00' => ['\\', '0']
  | c =>
    if isHidden c then ['\\', 'u', '\x7b'] ++ hexNumber c.toNat ++ ['\x7d'] else [c]

/-- The quotation of a text. -/
def quote (text : String) : String :=
  String.ofList ('"' :: (text.toList.flatMap quoteChar ++ ['"']))

end Rim.Text
