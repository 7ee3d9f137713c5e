import Rim.Text.Quoted
/-!
# JSON values

A JSON value as a tree.  Numbers are whole 64-bit integers of either sign or doubles; the members
of an object keep their order.

## Main definitions

* `Json`: values.
* `Json.sortName`: the word messages use for a value.
* `Json.member?`: a member of an object.
* `Json.depth`: the nesting depth of a value.
* `Json.agrees`: equality up to the order of members and the sign of zeros.
* `Json.firstRepeat?`: the first repeated member name.
-/

namespace Rim

/-- A JSON value.  A float is the bit pattern of a finite double. -/
inductive Json where
  | null
  | bool (value : Bool)
  | int (value : Int)
  | float (bits : UInt64)
  | string (value : String)
  | array (items : List Json)
  | object (members : List (String × Json))

namespace Json

instance : Inhabited Json := ⟨null⟩

/-- The word messages use for a value. -/
def sortName : Json → String
  | null => "null"
  | bool _ => "bool"
  | int _ | float _ => "number"
  | string _ => "string"
  | array _ => "array"
  | object _ => "object"

/-- The member of a name among members. -/
def find? (name : String) : List (String × Json) → Option Json
  | [] => none
  | (n, v) :: rest => if n = name then some v else find? name rest

/-- The member of a name, if the value is an object that has one. -/
def member? (name : String) : Json → Option Json
  | object members => find? name members
  | _ => none

mutual

/-- The nesting depth of a value; a value without content has depth zero. -/
def depth : Json → Nat
  | array items => depthItems items + 1
  | object members => depthMembers members + 1
  | _ => 0

/-- The greatest depth among values. -/
def depthItems : List Json → Nat
  | [] => 0
  | item :: rest => max item.depth (depthItems rest)

/-- The greatest depth among the values of members. -/
def depthMembers : List (String × Json) → Nat
  | [] => 0
  | (_, value) :: rest => max value.depth (depthMembers rest)

end

/-- Whether a double is a zero of either sign. -/
def isZero (bits : UInt64) : Bool := bits == 0 || bits == 0x8000000000000000

mutual

/-- Equality of values, the order of members and the sign of zeros aside.  Of several members of one
name only the first counts. -/
def agrees : Json → Json → Bool
  | null, null => true
  | bool a, bool b => a == b
  | int a, int b => a == b
  | float a, float b => a == b || (isZero a && isZero b)
  | string a, string b => a == b
  | array as, array bs => agreeItems as bs
  | object as, object bs =>
    bs.all (fun m => (find? m.1 as).isSome) && agreeMembers [] as bs
  | _, _ => false

/-- Equality of lists of values. -/
def agreeItems : List Json → List Json → Bool
  | [], [] => true
  | a :: as, b :: bs => a.agrees b && agreeItems as bs
  | _, _ => false

/-- Whether every member has its equal among others, but for the names already seen. -/
def agreeMembers (seen : List String) :
    List (String × Json) → List (String × Json) → Bool
  | [], _ => true
  | (name, a) :: as, bs =>
    (name ∈ seen || (find? name bs).any fun b => a.agrees b) && agreeMembers (name :: seen) as bs

end

mutual

/-- The first repeated member name, in the order the names are read: a name counts as repeated
before the repeats within its own value. -/
def firstRepeat? : Json → Option String
  | array items => firstRepeatItems? items
  | object members => firstRepeatMembers? [] members
  | _ => none

/-- The first repeated member name among values. -/
def firstRepeatItems? : List Json → Option String
  | [] => none
  | item :: rest => item.firstRepeat? <|> firstRepeatItems? rest

/-- The first repeated name among the members of one object, after the names already seen. -/
def firstRepeatMembers? (seen : List String) : List (String × Json) → Option String
  | [] => none
  | (name, value) :: rest =>
    if name ∈ seen then some name
    else value.firstRepeat? <|> firstRepeatMembers? (name :: seen) rest

end

end Json

end Rim
