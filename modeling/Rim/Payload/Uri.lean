import Rim.Payload.Shape
/-!
# Absolute URIs

A URI is absolute when it has a scheme: a letter followed by letters, digits, plus signs, hyphens
and dots, then a colon and something after it.  No more of it is checked.

## Main definitions

* `Uri.isAbsolute`: whether a text has a scheme and a rest.
* `Uri`: the payload of a profile named by URI.
-/

namespace Rim

/-- An absolute URI. -/
structure Uri where
  text : String
  deriving DecidableEq, Repr, Inhabited

namespace Uri

/-- Whether a character may stand in a scheme. -/
def isSchemeChar (c : Char) : Bool :=
  c.isAlphanum || c == '+' || c == '-' || c == '.'

/-- Whether a text has a scheme, a colon and something after it. -/
def isAbsolute (text : String) : Bool :=
  let scheme := text.toList.takeWhile (· != ':')
  match text.toList.drop scheme.length with
  | ':' :: _ :: _ => scheme.head?.any Char.isAlpha && scheme.all isSchemeChar
  | _ => false

/-- What is said of a text that is no absolute URI. -/
def notAbsolute (text : String) : String :=
  s!"{Text.quote text} is not an absolute URI"

/-- The variant of absolute URIs. -/
def payload : PayloadType Uri :=
  .text "uri" 32 Uri.text Uri.mk fun t => if isAbsolute t then none else some (notAbsolute t)

end Uri

end Rim
