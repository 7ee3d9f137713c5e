import Rim.Payload.Uuid
/-!
# Document identifiers

A document is identified by free text or by a UUID.  Text that spells a UUID is held as that UUID,
so that an identifier has one form however it came about.

## Main definitions

* `TagId`: document identifiers.
* `TagId.ofText`: the identifier of a text.
* `TagId.isSet`: whether an identifier identifies anything.
-/

namespace Rim

/-- A document identifier. -/
inductive TagId where
  | text (value : String)
  | uuid (value : Uuid)
  deriving DecidableEq, Repr

namespace TagId

instance : Inhabited TagId := ⟨text ""⟩

/-- The UUID a text spells, and else the text itself. -/
def ofText (s : String) : TagId :=
  match Uuid.parse s with
  | .ok u => uuid u
  | .error _ => text s

/-- Whether an identifier identifies anything: the empty text and the nil UUID do not. -/
def isSet : TagId → Bool
  | text s => !s.isEmpty
  | uuid u => !u.isNil

/-- Whether an identifier is held as text though it spells a UUID. -/
def isMisheld : TagId → Bool
  | text s => (Uuid.parse s).toBool
  | uuid _ => false

@[simp] theorem isMisheld_ofText (s : String) : (ofText s).isMisheld = false := by
  unfold ofText
  split
  case h_1 => rfl
  case h_2 h => simp [isMisheld, h, Except.toBool]

/-- The text an identifier is shown as. -/
def toText : TagId → String
  | text s => s
  | uuid u => u.toText

end TagId

end Rim
