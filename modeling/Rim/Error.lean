/-!
# Classification of errors

Every error of the library belongs to one stable kind, which callers match on instead of the
message.

## Main definitions

* `ErrorKind`: the kinds.
* `elided`: what a message shows in place of detail that is not part of its contract.
-/

namespace Rim

/-- The kinds of errors. -/
inductive ErrorKind where
  /-- A missing mandatory field, a repeated or unknown key, or a wrong shape. -/
  | schema
  /-- An unknown or missing type name or tag. -/
  | discriminator
  /-- A name, tag, profile or hook that is already taken. -/
  | registryConflict
  /-- A failure reported by an attached hook. -/
  | extension
  /-- A malformed variant payload. -/
  | variantParse
  /-- A document that cannot be read or written. -/
  | serialize
  /-- An invalid configuration. -/
  | config
  deriving DecidableEq, Repr

/-- The stable name of a kind. -/
def ErrorKind.name : ErrorKind → String
  | schema => "schema"
  | discriminator => "discriminator"
  | registryConflict => "registry_conflict"
  | extension => "extension"
  | variantParse => "variant_parse"
  | serialize => "serialize"
  | config => "config"

/-- What a message shows in place of detail that is not part of its contract. -/
def elided : String := "<backend>"

end Rim
