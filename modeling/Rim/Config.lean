import Rim.Error
import Rim.Number.Parse
import Rim.Text.Blank
import Rim.Text.Hex
/-!
# Configuration

A configuration bounds the documents a session reads and says how text documents are laid out.
It is written in TOML: one setting a line, `max_input_bytes` with a natural number or
`pretty_json` with a truth value, each at most once; blank lines and comments may stand between.

## Main definitions

* `Config`: the settings.
* `Config.ofToml`: the configuration a text describes.
* `ConfigError`: why a text describes none.
-/

namespace Rim

/-- The settings of a session. -/
structure Config where
  /-- Longer documents are refused unread. -/
  maxInputBytes : Nat := 1048576
  /-- Whether text documents are indented. -/
  prettyJson : Bool := false
  deriving DecidableEq, Repr

/-- Why a text describes no configuration. -/
inductive ConfigError where
  | malformed
  | zeroLimit
  deriving DecidableEq, Repr

/-- The message of a refusal. -/
def ConfigError.message : ConfigError → String
  | malformed => s!"invalid codec config: {elided}"
  | zeroLimit => "invalid codec config: max_input_bytes must be greater than zero"

/-! ## Keys and values

A key is bare or quoted, and the quoted spellings of a key are the same key. -/

namespace Config

/-- One line's setting. -/
inductive Setting where
  | maxInputBytes (limit : Nat)
  | prettyJson (value : Bool)
  deriving DecidableEq, Repr

/-- Whether a character may stand around the parts of a line. -/
def isPadding (c : Char) : Bool := c == ' ' || c == '\t'

/-- Whether a character may stand in a comment or a quoted key. -/
def isPrintable (c : Char) : Bool := c == '\t' || (0x20 ≤ c.toNat && c.toNat != 0x7F)

/-- Whether a character may stand in a bare key. -/
def isKeyChar (c : Char) : Bool :=
  c.isAlphanum || c == '_' || c == '-'

/-- The character a number names, if it names one. -/
def charOfNumber? (n : Nat) : Option Char :=
  if n.isValidChar then some (Char.ofNat n) else none

/-- The number some hexadecimal digits spell. -/
def hexValue? (digits : List Char) : Option Nat :=
  digits.foldl (fun n c => do return 16 * (← n) + (← Hex.value? c)) (some 0)

/-- The character numbered by the first `count` digits, and the rest. -/
def readNumbered? (count : Nat) (cs : List Char) : Option (Char × List Char) :=
  if count ≤ cs.length then
    ((hexValue? (cs.take count)).bind charOfNumber?).map fun c => (c, cs.drop count)
  else none

/-- The character of an escape, after its backslash, and the rest. -/
def readEscape? : List Char → Option (Char × List Char)
  | 'b' :: rest => some ('\x08', rest)
  | 't' :: rest => some ('\t', rest)
  | 'n' :: rest => some ('\n', rest)
  | 'f' :: rest => some ('\x0c', rest)
  | 'r' :: rest => some ('\r', rest)
  | '"' :: rest => some ('"', rest)
  | '\\' :: rest => some ('\\', rest)
  | 'u' :: rest => readNumbered? 4 rest
  | 'U' :: rest => readNumbered? 8 rest
  | _ => none

/-- The characters of a key in double quotes, after its opening quote, in reverse before `taken`,
and the rest. -/
def readBasicKey? : Nat → List Char → List Char → Option (List Char × List Char)
  | 0, _, _ => none
  | _ + 1, _, [] => none
  | fuel + 1, taken, c :: rest =>
    if c = '"' then some (taken.reverse, rest)
    else if c = '\\' then
      match readEscape? rest with
      | some (e, rest) => readBasicKey? fuel (e :: taken) rest
      | none => none
    else if isPrintable c then readBasicKey? fuel (c :: taken) rest
    else none

/-- The characters of a key, bare or quoted, and the rest. -/
def readKey? : List Char → Option (List Char × List Char)
  | '"' :: rest => readBasicKey? (rest.length + 1) [] rest
  | '\'' :: rest =>
    let key := rest.takeWhile fun c => isPrintable c && c != '\''
    match rest.drop key.length with
    | '\'' :: rest => some (key, rest)
    | _ => none
  | cs =>
    let key := cs.takeWhile isKeyChar
    if key.isEmpty then none else some (key, cs.drop key.length)

/-- The value of digits in a base, single underscores standing only between digits. -/
def digitsValue? (base : Nat) (cs : List Char) : Option Nat :=
  let digit? (c : Char) : Option Nat := (Hex.value? c).filter (· < base)
  let rec go (n : Nat) : List Char → Option Nat
    | [] => some n
    | '_' :: c :: rest => do go (base * n + (← digit? c)) rest
    | c :: rest => do go (base * n + (← digit? c)) rest
  match cs with
  | [] => none
  | c :: rest => do go (← digit? c) rest

/-- The integer a text spells: decimal with an optional sign and no leading zeros, or in base
sixteen, eight or two after its mark. -/
def integer? : List Char → Option Int
  | '0' :: 'x' :: cs => (digitsValue? 16 cs).map Int.ofNat
  | '0' :: 'o' :: cs => (digitsValue? 8 cs).map Int.ofNat
  | '0' :: 'b' :: cs => (digitsValue? 2 cs).map Int.ofNat
  | '-' :: cs => (decimal? cs).map fun n => -(n : Int)
  | '+' :: cs => (decimal? cs).map Int.ofNat
  | cs => (decimal? cs).map Int.ofNat
where
  decimal? (cs : List Char) : Option Nat :=
    if cs.head? = some '0' ∧ cs ≠ ['0'] then none else digitsValue? 10 cs

/-- The setting of a key and the text of its value. -/
def setting? (key value : List Char) : Option Setting :=
  if key = "max_input_bytes".toList then do
    let n ← integer? value
    if 0 ≤ n ∧ n ≤ 9223372036854775807 then return .maxInputBytes n.toNat else none
  else if key = "pretty_json".toList then
    if value = "true".toList then some (.prettyJson true)
    else if value = "false".toList then some (.prettyJson false)
    else none
  else none

/-! ## Lines -/

/-- A text without padding at its end. -/
def trimEnd (cs : List Char) : List Char :=
  (cs.reverse.dropWhile isPadding).reverse

/-- The setting of a line; a blank line and a comment hold none. -/
def readLine? (line : List Char) : Option (Option Setting) :=
  match line.dropWhile isPadding with
  | [] => some none
  | '#' :: comment => if comment.all isPrintable then some none else none
  | cs => do
    let (key, rest) ← readKey? cs
    match rest.dropWhile isPadding with
    | '=' :: rest =>
      let value := rest.takeWhile (· != '#')
      let comment := rest.drop value.length
      if comment.all isPrintable then
        return some (← setting? key (trimEnd (value.dropWhile isPadding)))
      else none
    | _ => none

/-- The lines of a text: every line but the last loses the carriage return at its end. -/
def settingLines (cs : List Char) : List (List Char) :=
  let parts := Text.splitLines cs
  parts.dropLast.map Text.chomp ++ [parts.getLastD []]

/-- The settings of a text in order. -/
def settings? (text : String) : Option (List Setting) :=
  let cs := if text.toList.head? = some '\uFEFF' then text.toList.tail else text.toList
  ((settingLines cs).mapM readLine?).map fun found => found.filterMap id

/-! ## Configurations

The limit is checked last, so that a text with any other fault is malformed. -/

/-- Whether two settings are for the same key. -/
def Setting.sameKey : Setting → Setting → Bool
  | maxInputBytes _, maxInputBytes _ => true
  | prettyJson _, prettyJson _ => true
  | _, _ => false

/-- Whether no key is set twice. -/
def distinctKeys : List Setting → Bool
  | [] => true
  | s :: rest => !rest.any s.sameKey && distinctKeys rest

/-- A configuration with one setting changed. -/
def apply (config : Config) : Setting → Config
  | .maxInputBytes limit => { config with maxInputBytes := limit }
  | .prettyJson value => { config with prettyJson := value }

/-- The configuration a text describes; keys it does not set keep their defaults. -/
def ofToml (text : String) : Except ConfigError Config :=
  match settings? text with
  | none => .error .malformed
  | some found =>
    if distinctKeys found then
      let config := found.foldl apply {}
      if config.maxInputBytes = 0 then .error .zeroLimit else .ok config
    else .error .malformed

end Config

end Rim
