import Rim.Json.Basic
import Rim.Number.Shortest
import Rim.Text.Hex
import Rim.Text.Utf8
/-!
# Writing JSON texts

Values are written compactly, or with two spaces of indentation per level.  Members keep their
order; strings escape only the quote, the backslash and the control characters.

## Main definitions

* `Json.quoted`: a string between quotes.
* `Json.chars`: the text of a value in one of the two layouts.
* `Json.encode`: the bytes of a value.
-/

namespace Rim.Json

/-- What stands for one character of a string. -/
def escapeChar (c : Char) : List Char :=
  match c with
  | '"' => ['\\', '"']
  | '\\' => ['\\', '\\']
  | '\x08' => ['\\', 'b']
  | '\x0c' => ['\\', 'f']
  | '\n' => ['\\', 'n']
  | '\r' => ['\\', 'r']
  | '\t' => ['\\', 't']
  | c =>
    if c.toNat < 0x20 then
      ['\\', 'u', '0', '0', Hex.digit (c.toNat / 16), Hex.digit (c.toNat % 16)]
    else [c]

/-- A string between quotes. -/
def quoted (text : String) : List Char :=
  '"' :: (text.toList.flatMap escapeChar ++ ['"'])

/-- What stands before a part at a level of indentation; nothing in the compact layout. -/
def lineBreak : Option Nat → List Char
  | none => []
  | some level => '\n' :: List.replicate (2 * level) ' '

/-- What stands between a name and its value. -/
def colon : Option Nat → List Char
  | none => [':']
  | some _ => [':', ' ']

mutual

/-- The text of a value, compact or at a level of indentation. -/
def chars (level : Option Nat) : Json → List Char
  | null => ['n', 'u', 'l', 'l']
  | bool true => ['t', 'r', 'u', 'e']
  | bool false => ['f', 'a', 'l', 's', 'e']
  | int v => (toString v).toList
  | float bits => (Double.numberText bits).toList
  | string v => quoted v
  | array [] => ['[', ']']
  | array (item :: rest) =>
    '[' :: (lineBreak (level.map (· + 1)) ++ (chars (level.map (· + 1)) item ++
      (restItems (level.map (· + 1)) rest ++ (lineBreak level ++ [']']))))
  | object [] => ['\x7b', '\x7d']
  | object ((name, value) :: rest) =>
    '\x7b' :: (lineBreak (level.map (· + 1)) ++ (quoted name ++ (colon level ++
      (chars (level.map (· + 1)) value ++
        (restMembers (level.map (· + 1)) rest ++ (lineBreak level ++ ['\x7d']))))))

/-- The items after the first, each after a comma. -/
def restItems (level : Option Nat) : List Json → List Char
  | [] => []
  | item :: rest =>
    ',' :: (lineBreak level ++ (chars level item ++ restItems level rest))

/-- The members after the first, each after a comma. -/
def restMembers (level : Option Nat) : List (String × Json) → List Char
  | [] => []
  | (name, value) :: rest =>
    ',' :: (lineBreak level ++ (quoted name ++ (colon level ++
      (chars level value ++ restMembers level rest))))

end

/-- The text of a value, indented if `pretty`. -/
def render (pretty : Bool) (value : Json) : String :=
  String.ofList (chars (if pretty then some 0 else none) value)

/-- The bytes of a value, indented if `pretty`. -/
def encode (pretty : Bool) (value : Json) : List UInt8 :=
  Utf8.encode (render pretty value)

end Rim.Json
