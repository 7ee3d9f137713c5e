/-!
# Blank characters and lines

Text is trimmed of the characters with the White_Space property and cut into lines at line feeds;
a carriage return before a line feed belongs to the line end.

## Main definitions

* `isBlank`: the White_Space property.
* `trim`: a text without the blanks at its ends.
* `lines`: the lines of a text, without their ends.
-/

namespace Rim.Text

/-- The characters with the White_Space property. -/
def isBlank (c : Char) : Bool :=
  let n := c.toNat
  (9 ≤ n && n ≤ 13) || n == 32 || n == 0x85 || n == 0xA0 || n == 0x1680 ||
    (0x2000 ≤ n && n ≤ 0x200A) || n == 0x2028 || n == 0x2029 || n == 0x202F || n == 0x205F ||
    n == 0x3000

/-- A text without the blanks at its two ends. -/
def trim (cs : List Char) : List Char :=
  ((cs.dropWhile isBlank).reverse.dropWhile isBlank).reverse

/-- The text up to each line feed, and what follows the last one. -/
def splitLines : List Char → List (List Char)
  | [] => [[]]
  | '\n' :: rest => [] :: splitLines rest
  | c :: rest =>
    match splitLines rest with
    | line :: more => (c :: line) :: more
    | [] => [[c]]

/-- A line without a carriage return at its end. -/
def chomp (line : List Char) : List Char :=
  if line.getLast? = some '\r' then line.dropLast else line

/-- The lines of a text: a final line feed ends the last line and opens none, and only a line
that a line feed ends loses its carriage return. -/
def lines (cs : List Char) : List (List Char) :=
  let parts := splitLines cs
  let last := parts.getLastD []
  parts.dropLast.map chomp ++ (if last.isEmpty then [] else [last])

end Rim.Text
