import Rim.Record.Field
/-!
# Records

A record writes its fields one after the other; an optional field without content is left out, and
no two written fields may share a key or a name.  Reading starts from the entries of a map, each
field claims its own, and whatever nobody claims is refused.

## Main definitions

* `Member`: one field of a record type, with how it is written and read.
* `Put`, `writeAll`: the fields to be written, and the entries they make.
* `Entries`, `Entries.get?`, `Entries.finish`: the entries not yet claimed.
* `FieldCodec.peek`: one field read without decoding the others.
* `RecordShape`: the schema and the members of a record type.
-/

namespace Rim

/-! ## Writing fields

A field without a value is left out.  A field that shares its key or its name with one already
written is refused: in one of the two forms it would take the place of the other. -/

/-- A field to be written with its encoded value, or with the error it ends in. -/
structure Put (f : Format) where
  spec : FieldSpec
  value : Coded (Raw f)

/-- The entries a record has written, in order. -/
abbrev Written (f : Format) := List (FieldSpec × Raw f)

/-- One more entry, unless a written field has its key or its name. -/
def insertField {f : Format} (entity : String) (written : Written f) (spec : FieldSpec)
    (v : Raw f) : Coded (Written f) :=
  if written.any fun e => e.1.clashes spec then .error (.writtenTwice entity spec)
  else .ok (written ++ [(spec, v)])

/-- One more field written. -/
def writePut {f : Format} (entity : String) (written : Written f) (p : Put f) :
    Coded (Written f) := do
  let v ← Coded.underField p.spec.name p.value
  insertField entity written p.spec v

/-- Fields written one after the other. -/
def writeAll {f : Format} (entity : String) (written : Written f) :
    List (Put f) → Coded (Written f)
  | [] => .ok written
  | p :: rest => do writeAll entity (← writePut entity written p) rest

/-! ## Claiming entries

Each field claims its entry, in the order of the fields; an entry that none has claimed by the end
is one the record does not have. -/

/-- The entries of a record that nobody has claimed yet. -/
abbrev Entries (f : Format) := List (Key f × Raw f)

namespace Entries

variable {f : Format}

/-- The entry of a field. -/
def get? (entries : Entries f) (spec : FieldSpec) : Option (Raw f) :=
  (List.find? (fun e => e.1 = f.keyFor spec) entries).map (·.2)

/-- The entries without that of a field. -/
def without (entries : Entries f) (spec : FieldSpec) : Entries f :=
  List.filter (fun e => e.1 ≠ f.keyFor spec) entries

/-- The keys of the entries, in ascending order. -/
def keys (entries : Entries f) : List (Key f) :=
  (List.map (·.1) entries).mergeSort f.keyLe

/-- Entries that nobody claimed are unknown. -/
def finish (entity : String) (entries : Entries f) : Coded Unit :=
  if List.isEmpty entries then .ok ()
  else .error (.unclaimed entity (entries.keys.map f.showKey))

end Entries

/-! ## Members

A member ties a field to its place in a record: how it is read off and how it is put in. -/

/-- One field of a record type. -/
structure Member (R : Type) where
  spec : FieldSpec
  /-- The value to be written; none if the field is left out. -/
  encode : (f : Format) → R → Option (Coded (Raw f))
  /-- The record with the field taken from the entry claimed for it, if there is one. -/
  decode : (f : Format) → Context → Option (Raw f) → R → Coded R

namespace Member

variable {R α : Type}

/-- A value to be written under a field, unless the field is optional and the value empty. -/
def encodeUnlessEmpty (c : FieldCodec α) (spec : FieldSpec) (f : Format) (a : α) :
    Option (Coded (Raw f)) :=
  if spec.isOptional && c.isEmpty a then none else some (c.encode f a)

/-- The value claimed for a field, if there is one. -/
def decodeClaimed (c : FieldCodec α) (spec : FieldSpec) (f : Format) (cx : Context) :
    Option (Raw f) → Coded (Option α)
  | none => .ok none
  | some v => (Coded.underField spec.name (c.decode f cx v)).map some

/-- A field every record has. -/
def required (spec : FieldSpec) (c : FieldCodec α) (get : R → α) (set : α → R → R) : Member R where
  spec := spec
  encode f r := encodeUnlessEmpty c spec f (get r)
  decode f cx claimed r := do
    match ← decodeClaimed c spec f cx claimed with
    | some a => return set a r
    | none => .error (.missingField spec)

/-- A field that may be absent; absence unsets it. -/
def optional (spec : FieldSpec) (c : FieldCodec α) (get : R → Option α)
    (set : Option α → R → R) : Member R where
  spec := spec
  encode f r := (get r).bind (encodeUnlessEmpty c spec f)
  decode f cx claimed r := (decodeClaimed c spec f cx claimed).map fun a => set a r

/-- A field whose absence stands for a value. -/
def defaulted (spec : FieldSpec) (c : FieldCodec α) (absent : α) (get : R → α)
    (set : α → R → R) : Member R where
  spec := spec
  encode f r := encodeUnlessEmpty c spec f (get r)
  decode f cx claimed r := (decodeClaimed c spec f cx claimed).map fun a => set (a.getD absent) r

/-- The field of a record that another one embeds. -/
def embedded {S : Type} (m : Member R) (get : S → R) (set : R → S → S) : Member S where
  spec := m.spec
  encode f s := m.encode f (get s)
  decode f cx claimed s := (m.decode f cx claimed (get s)).map fun r => set r s

/-- What a member writes. -/
def put? (m : Member R) (f : Format) (r : R) : Option (Put f) :=
  (m.encode f r).map (Put.mk m.spec)

end Member

/-- One field of a record that is not an array, decoded on its own. -/
def FieldCodec.peek {α : Type} (c : FieldCodec α) (f : Format) (cx : Context) (spec : FieldSpec)
    (v : Raw f) : Coded (Option α) :=
  Member.decodeClaimed c spec f cx (f.entry? v spec)

/-! ## Records

The members come in the order in which they are written and taken, embedded ones after the own. -/

/-- The schema and the members of a record type, the members in the order they are written and
read. -/
structure RecordShape (R : Type) where
  schema : Schema FieldSpec
  members : List (Member R)

/-- The shape of a record type that embeds no other. -/
def RecordShape.flat {R : Type} (entity : String) (layout : Layout) (members : List (Member R)) :
    RecordShape R where
  schema := .flat entity layout (members.map (·.spec))
  members := members

/-- The fields some members claim, one after the other. -/
def takeAll {R : Type} {f : Format} (cx : Context) :
    List (Member R) → R → Entries f → Coded (R × Entries f)
  | [], r, entries => .ok (r, entries)
  | m :: rest, r, entries => do
    let r ← m.decode f cx (entries.get? m.spec) r
    takeAll cx rest r (entries.without m.spec)

namespace RecordShape

variable {R : Type}

/-- The fields a record writes. -/
def puts (s : RecordShape R) (f : Format) (r : R) : List (Put f) :=
  s.members.filterMap fun m => m.put? f r

/-- The raw value of a record that writes some more fields after its own. -/
def encodeWith (s : RecordShape R) (f : Format) (r : R) (more : List (Put f)) : Coded (Raw f) :=
  (writeAll s.schema.entity [] (s.puts f r ++ more)).map (f.ofEntries s.schema.layout)

/-- The raw value of a record. -/
def encode (s : RecordShape R) (f : Format) (r : R) : Coded (Raw f) := s.encodeWith f r []

/-- A record with its fields taken from a raw value; `claim` takes what remains after them. -/
def decodeWith {S : Type} (s : RecordShape R) (f : Format) (cx : Context) (r : R)
    (claim : R → Entries f → Coded (S × Entries f)) (v : Raw f) : Coded S := do
  let entries ← f.toEntries s.schema.layout v
  let (r, entries) ← takeAll cx s.members r entries
  let (result, entries) ← claim r entries
  Entries.finish s.schema.entity entries
  return result

/-- A record with its fields taken from a raw value. -/
def decode (s : RecordShape R) (f : Format) (cx : Context) (r : R) (v : Raw f) : Coded R :=
  s.decodeWith f cx r (fun r entries => .ok (r, entries)) v

/-- The codec of a record type, whose records are read starting from a blank one. -/
def codec (s : RecordShape R) (blank : R) : FieldCodec R where
  encode := s.encode
  decode f cx v := s.decode f cx blank v

end RecordShape

end Rim
