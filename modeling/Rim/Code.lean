import Rim.Text.Quoted
/-!
# Open codes

A code is a number with a name where one is listed.  The binary form carries the number, the text
form the name; a number without a name is kept and travels as a number in both.

## Main definitions

* `OpenCode`: types of codes.
* `Role`, `CorimRole`, `TagRel`: what an entity did for a module identifier or a manifest, and how
  one tag relates to another.
-/

namespace Rim

/-- A type of codes: what it is called, and the two ways between codes, numbers and names. -/
class OpenCode (α : Type) where
  label : String
  toNumber : α → UInt64
  ofNumber : UInt64 → α
  name? : α → Option String
  ofName? : String → Option α

/-- How a code is shown: by its name, or as a number of its type. -/
def OpenCode.display {α : Type} [OpenCode α] (c : α) : String :=
  match name? c with
  | some name => name
  | none => s!"{label α}({toNumber c})"

/-- What an entity did for a module identifier. -/
inductive Role where
  | tagCreator
  | creator
  | maintainer
  | other (code : UInt64)
  deriving DecidableEq, Repr

instance : OpenCode Role where
  label := "role"
  toNumber
    | .tagCreator => 0
    | .creator => 1
    | .maintainer => 2
    | .other code => code
  ofNumber n :=
    if n = 0 then .tagCreator else if n = 1 then .creator else if n = 2 then .maintainer
    else .other n
  name?
    | .tagCreator => some "tagCreator"
    | .creator => some "creator"
    | .maintainer => some "maintainer"
    | .other _ => none
  ofName? s :=
    if s = "tagCreator" then some .tagCreator
    else if s = "creator" then some .creator
    else if s = "maintainer" then some .maintainer
    else none

/-- What an entity did for a manifest. -/
inductive CorimRole where
  | manifestCreator
  | manifestSigner
  | other (code : UInt64)
  deriving DecidableEq, Repr

instance : OpenCode CorimRole where
  label := "corim role"
  toNumber
    | .manifestCreator => 1
    | .manifestSigner => 2
    | .other code => code
  ofNumber n := if n = 1 then .manifestCreator else if n = 2 then .manifestSigner else .other n
  name?
    | .manifestCreator => some "manifestCreator"
    | .manifestSigner => some "manifestSigner"
    | .other _ => none
  ofName? s :=
    if s = "manifestCreator" then some .manifestCreator
    else if s = "manifestSigner" then some .manifestSigner
    else none

/-- How a linking tag relates to the linked one. -/
inductive TagRel where
  | supplements
  | replaces
  | other (code : UInt64)
  deriving DecidableEq, Repr

instance : Inhabited TagRel := ⟨.supplements⟩

instance : OpenCode TagRel where
  label := "tag relation"
  toNumber
    | .supplements => 0
    | .replaces => 1
    | .other code => code
  ofNumber n := if n = 0 then .supplements else if n = 1 then .replaces else .other n
  name?
    | .supplements => some "supplements"
    | .replaces => some "replaces"
    | .other _ => none
  ofName? s :=
    if s = "supplements" then some .supplements
    else if s = "replaces" then some .replaces
    else none

end Rim
