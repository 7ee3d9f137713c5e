import Rim.Choice.Basic
import Rim.Number.Parse
/-!
# Object identifiers

An object identifier is a list of arcs.  In text the arcs are dotted decimal numbers; in the binary
form they are base-128 groups, the first of which packs the first two arcs.

## Main definitions

* `Oid`: object identifiers.
* `Oid.check`: which arc lists can be written.
* `Oid.toBer`, `Oid.ofBer`: the binary form.
* `Oid.toText`, `Oid.ofText`: the text form.
-/

namespace Rim

/-- An object identifier, held as its arcs. -/
structure Oid where
  arcs : List UInt64
  deriving DecidableEq, Repr, Inhabited

/-- Why arcs, bytes or a text are no object identifier. -/
inductive OidError where
  | empty
  | singleArc
  | firstArc (arc : UInt64)
  | secondArc (first second : UInt64)
  | secondArcTooLarge
  | notMinimal
  | overflow
  | truncated
  | malformedArc (arc text : String)
  | arcValue (arc : String) (cause : IntegerError)
  deriving DecidableEq, Repr

/-- The reason in words. -/
def OidError.message : OidError → String
  | empty => "empty OID"
  | singleArc => "OID must have at least two arcs"
  | firstArc arc => s!"first arc must be 0, 1 or 2, got {arc}"
  | secondArc first second => s!"second arc must be below 40 under arc {first}, got {second}"
  | secondArcTooLarge => "second arc too large"
  | notMinimal => "non-minimal arc encoding"
  | overflow => "arc overflows 64 bits"
  | truncated => "truncated arc"
  | malformedArc arc text => s!"malformed arc {Text.quote arc} in {Text.quote text}"
  | arcValue arc cause => s!"arc {Text.quote arc}: {cause.message}"

namespace Oid

/-- The identifier without arcs, which stands for no value. -/
def none : Oid := ⟨[]⟩

/-- There are at least two arcs, the first is at most two, and under the first two of these the
second is below forty. -/
def check (oid : Oid) : Except OidError Unit :=
  match oid.arcs with
  | [] => .error .empty
  | [_] => .error .singleArc
  | a :: b :: _ =>
    if 2 < a then .error (.firstArc a)
    else if a < 2 ∧ 40 ≤ b then .error (.secondArc a b)
    else .ok ()

/-- The identifier of some arcs, if they pass the check. -/
def ofArcs (arcs : List UInt64) : Except OidError Oid := do
  check ⟨arcs⟩
  return ⟨arcs⟩

/-- The groups of a number before its last one, most significant first, each marked as continued. -/
def leadingGroups : Nat → Nat → List UInt8
  | 0, _ => []
  | fuel + 1, n =>
    if n = 0 then [] else leadingGroups fuel (n / 128) ++ [UInt8.ofNat (n % 128 + 128)]

/-- The base-128 groups of a 64-bit number. -/
def groups (n : Nat) : List UInt8 :=
  leadingGroups 10 (n / 128) ++ [UInt8.ofNat (n % 128)]

/-- The binary form. -/
def toBer (oid : Oid) : Except OidError (List UInt8) := do
  oid.check
  match oid.arcs with
  | a :: b :: rest =>
    let first := a.toNat * 40 + b.toNat
    if first < 18446744073709551616 then
      return groups first ++ rest.flatMap fun arc => groups arc.toNat
    else .error .secondArcTooLarge
  | _ => .error .empty

/-- The numbers some groups spell, after the groups already gathered into `value`; `continued`
says whether there are any. -/
def readGroups (value : Nat) (continued : Bool) : List UInt8 → Except OidError (List UInt64)
  | [] => if continued then .error .truncated else .ok []
  | b :: rest =>
    -- A group of zero bits with nothing before it is a leading zero.
    if !continued && b == 0x80 then .error .notMinimal
    -- One more group would not fit 64 bits.
    else if 144115188075855872 ≤ value then .error .overflow
    else
      let value := 128 * value + b.toNat % 128
      if b < 0x80 then (readGroups 0 false rest).map (UInt64.ofNat value :: ·)
      else readGroups value true rest

/-- The two arcs a first number packs. -/
def unpack (first : UInt64) : List UInt64 :=
  if first < 40 then [0, first]
  else if first < 80 then [1, first - 40]
  else [2, first - 80]

/-- The identifier of a binary form. -/
def ofBer (bytes : List UInt8) : Except OidError Oid :=
  if bytes.isEmpty then .error .empty
  else do
    match ← readGroups 0 false bytes with
    | first :: rest => return ⟨unpack first ++ rest⟩
    | [] => .error .empty

/-- The dotted text form. -/
def toText (oid : Oid) : String :=
  ".".intercalate (oid.arcs.map toString)

/-- The parts of a text between its dots. -/
def splitDots : List Char → List (List Char)
  | [] => [[]]
  | '.' :: rest => [] :: splitDots rest
  | c :: rest =>
    match splitDots rest with
    | part :: more => (c :: part) :: more
    | [] => [[c]]

/-- The arc a part of a text spells: decimal digits only. -/
def readArc (text : String) (part : List Char) : Except OidError UInt64 :=
  let arc := String.ofList part
  if part.isEmpty || !part.all fun c => (digitValue? c).isSome then
    .error (.malformedArc arc text)
  else
    match natural? 18446744073709551615 arc with
    | .ok n => .ok (UInt64.ofNat n)
    | .error cause => .error (.arcValue arc cause)

/-- The identifier a dotted text spells. -/
def ofText (text : String) : Except OidError Oid := do
  ofArcs (← (splitDots text.toList).mapM (readArc text))

/-- A refusal as one of the variant's payload. -/
def lift {α : Type} : Except OidError α → Except VariantError α
  | .ok a => .ok a
  | .error e => .error (.invalid "oid" e.message)

/-- The variant of object identifiers. -/
def payload : PayloadType Oid where
  typeName := "oid"
  tag := 111
  sentinel := Oid.none
  display := toText
  bytes oid :=
    match oid.toBer with
    | .ok b => b
    | .error _ => []
  check oid := lift oid.check
  toCbor oid := lift (oid.toBer.map Cbor.bytes)
  toJson oid := lift (oid.check.map fun _ => Json.string oid.toText)
  ofText t := lift (ofText t)
  ofCbor
    | .bytes b => lift (ofBer b)
    | _ => .error (.wrongInput "oid" "byte string")

end Oid

end Rim
