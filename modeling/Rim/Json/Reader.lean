import Rim.Json.Number
import Rim.Text.Hex
import Rim.Text.Utf8
/-!
# Reading JSON texts

One value is read from the front of a text.  Between tokens stand only spaces, tabs, line feeds
and carriage returns; strings hold no bare control characters, and an escaped surrogate needs its
partner; arrays and objects nest up to a budget.

## Main definitions

* `Json.readString?`: the characters of a string up to its closing quote.
* `Json.readValue?`: one value with the text after it.
* `Json.parse?`: the value a whole byte string is, with repeated members as written.
-/

namespace Rim.Json

/-- Whether a character may stand between tokens. -/
def isSpace (c : Char) : Bool :=
  c == ' ' || c == '\t' || c == '\n' || c == '\r'

/-- The text after the spaces at its front. -/
def skipSpace (cs : List Char) : List Char :=
  cs.dropWhile isSpace

/-- A reader of one thing at the front of a text. -/
abbrev Reader (α : Type) := List Char → Option (α × List Char)

/-- The number four hexadecimal digits spell. -/
def readUnit? : Reader Nat
  | a :: b :: c :: d :: rest => do
    let p ← Hex.value? a
    let q ← Hex.value? b
    let r ← Hex.value? c
    let s ← Hex.value? d
    return (((p * 16 + q) * 16 + r) * 16 + s, rest)
  | _ => none

/-- The character of an escape by number, after its `\u`: a high surrogate must be followed by the
escape of a low one. -/
def readEscapedUnit? : Reader Char := fun cs => do
  let (unit, rest) ← readUnit? cs
  -- A low surrogate must not come first.
  if 0xDC00 ≤ unit ∧ unit ≤ 0xDFFF then none
  else if 0xD800 ≤ unit ∧ unit ≤ 0xDBFF then
    match rest with
    | '\\' :: 'u' :: more =>
      let (low, rest) ← readUnit? more
      if 0xDC00 ≤ low ∧ low ≤ 0xDFFF then
        return (Char.ofNat (0x10000 + (unit - 0xD800) * 0x400 + (low - 0xDC00)), rest)
      else none
    | _ => none
  else return (Char.ofNat unit, rest)

/-- The character of an escape, after its backslash. -/
def readEscape? : Reader Char
  | '"' :: rest => some ('"', rest)
  | '\\' :: rest => some ('\\', rest)
  | '/' :: rest => some ('/', rest)
  | 'b' :: rest => some ('\x08', rest)
  | 'f' :: rest => some ('\x0c', rest)
  | 'n' :: rest => some ('\n', rest)
  | 'r' :: rest => some ('\r', rest)
  | 't' :: rest => some ('\t', rest)
  | 'u' :: rest => readEscapedUnit? rest
  | _ => none

/-- The characters of a string up to its closing quote, in reverse before `taken`. -/
def readChars? : Nat → List Char → Reader (List Char)
  | 0, _, _ => none
  | _ + 1, _, [] => none
  | fuel + 1, taken, c :: cs =>
    if c = '"' then some (taken.reverse, cs)
    else if c = '\\' then
      match readEscape? cs with
      | some (e, rest) => readChars? fuel (e :: taken) rest
      | none => none
    else if c.toNat < 0x20 then none
    else readChars? fuel (c :: taken) cs

/-- A string, after its opening quote. -/
def readString? : Reader String := fun cs =>
  (readChars? (cs.length + 1) [] cs).map fun (chars, rest) => (String.ofList chars, rest)

/-- Things separated by commas up to a closing character, in reverse before `taken`. -/
def readSeparated? {α : Type} (one : Reader α) (close : Char) : Nat → List α → Reader (List α)
  | 0, _, _ => none
  | fuel + 1, taken, cs =>
    match one (skipSpace cs) with
    | some (x, rest) =>
      match skipSpace rest with
      | [] => none
      | c :: rest =>
        -- After a comma a value must follow, so a trailing comma is refused.
        if c = ',' then readSeparated? one close fuel (x :: taken) rest
        else if c = close then some ((x :: taken).reverse, rest)
        else none
    | none => none

/-- The content of a container, after its opening character. -/
def readContent? {α : Type} (one : Reader α) (close : Char) : Reader (List α) := fun cs =>
  let cs := skipSpace cs
  if cs.head? = some close then some ([], cs.tail)
  else readSeparated? one close (cs.length + 1) [] cs

/-- A member: its name, a colon and its value. -/
def readMember? (value : Reader Json) : Reader (String × Json)
  | '"' :: cs => do
    let (name, rest) ← readString? cs
    match skipSpace rest with
    | ':' :: rest =>
      let (v, rest) ← value (skipSpace rest)
      return ((name, v), rest)
    | _ => none
  | _ => none

/-- A value without content. -/
def readPlain? : Reader Json
  | 'n' :: 'u' :: 'l' :: 'l' :: rest => some (null, rest)
  | 't' :: 'r' :: 'u' :: 'e' :: rest => some (bool true, rest)
  | 'f' :: 'a' :: 'l' :: 's' :: 'e' :: rest => some (bool false, rest)
  | '"' :: rest => (readString? rest).map fun (s, rest) => (string s, rest)
  | cs => readNumber? cs

/-- One value whose arrays and objects nest at most `budget` deep. -/
def readValue? : Nat → Reader Json
  -- No level is left for a container.
  | 0, cs => if cs.head? = some '[' ∨ cs.head? = some '\x7b' then none else readPlain? cs
  | budget + 1, cs =>
    match cs with
    | '[' :: rest => (readContent? (readValue? budget) ']' rest).map fun (x, r) => (array x, r)
    | '\x7b' :: rest =>
      (readContent? (readMember? (readValue? budget)) '\x7d' rest).map fun (x, r) => (object x, r)
    | cs => readPlain? cs

/-- The value a whole text is, if its arrays and objects nest at most `budget` deep. -/
def parseWithin? (budget : Nat) (cs : List Char) : Option Json :=
  match readValue? budget (skipSpace cs) with
  | some (value, rest) => if (skipSpace rest).isEmpty then some value else none
  | none => none

/-- How deep arrays and objects of a document may nest. -/
def nestingBudget : Nat := 127

/-- The value a whole text is. -/
def parseChars? (cs : List Char) : Option Json := parseWithin? nestingBudget cs

/-- The value a whole byte string is. -/
def parse? (bytes : List UInt8) : Option Json :=
  (Utf8.decode? bytes).bind fun text => parseChars? text.toList

end Rim.Json
