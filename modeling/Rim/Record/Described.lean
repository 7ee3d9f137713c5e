import Rim.Record.Datum
/-!
# Records described by data

A record whose schema is a value: one optional datum per field, its own fields first and then those
of the records it embeds, depth first.  Such a record is written and read like any other, and says
how far either got.

## Main definitions

* `DescribedRecord`: a schema with the values of its fields.
* `DescribedRecord.encode`, `DescribedRecord.decode`: the record on the wire.
* `WriterMark`, `DescribedRecord.marks`: how much was written after each record.
* `TakeRow`, `takeRows`: what was left unclaimed after each field.
-/

namespace Rim

namespace Schema

variable {α : Type}

mutual

/-- Where each record ends among the flattened fields, the innermost first, if its own begin at a
position. -/
def endsFrom (start : Nat) : Schema α → List (String × Nat)
  | mk entity _ fields embedded =>
    endsAll (start + fields.length) embedded ++
      [(entity, start + fields.length + (allFieldsOf embedded).length)]

/-- Where the records of a list end, if the first begins at a position. -/
def endsAll (start : Nat) : List (Schema α) → List (String × Nat)
  | [] => []
  | s :: rest => endsFrom start s ++ endsAll (start + s.allFields.length) rest

end

end Schema

/-- A schema with the values of its flattened fields. -/
structure DescribedRecord where
  schema : Schema FieldShape
  cells : List (Cell Datum)

/-- How many fields were written by the end of a record. -/
structure WriterMark where
  entity : String
  written : Nat
  deriving DecidableEq, Repr

/-- What was left unclaimed once a field was taken, and whether the field was there. -/
structure TakeRow (f : Format) where
  field : String
  present : Bool
  left : Entries f

/-- What each field leaves unclaimed, up to the first one that cannot be taken. -/
def takeRows {f : Format} (decode : Kind → Raw f → Coded Datum) :
    List FieldShape → Entries f → List (TakeRow f)
  | [], _ => []
  | shape :: rest, entries =>
    match takeCell decode shape (entries.get? shape.spec) with
    | .error _ => []
    | .ok _ =>
      let left := entries.without shape.spec
      ⟨shape.spec.name, (entries.get? shape.spec).isSome, left⟩ :: takeRows decode rest left

namespace DescribedRecord

/-- The record of a schema without values. -/
def blank (schema : Schema FieldShape) : DescribedRecord :=
  ⟨schema, schema.allFields.map Cell.blank⟩

/-- The schema as other records have theirs. -/
def specs (schema : Schema FieldShape) : Schema FieldSpec := schema.map (·.spec)

/-- The record with the first field of a name set or unset. -/
def put (r : DescribedRecord) (name : String) (value : Option Datum) : DescribedRecord :=
  { r with cells := Cell.put name value r.cells }

/-- The raw value of a record. -/
def encode (f : Format) (r : DescribedRecord) : Coded (Raw f) :=
  (writeAll r.schema.entity [] (Datum.cellPuts f r.cells)).map (f.ofEntries r.schema.layout)

/-- How much was written after each record, the innermost first, up to the first failure. -/
def marks (f : Format) (r : DescribedRecord) : List WriterMark :=
  (r.schema.endsFrom 0).filterMap fun (entity, stop) =>
    match writeAll r.schema.entity [] (Datum.cellPuts f (r.cells.take stop)) with
    | .ok written => some ⟨entity, written.length⟩
    | .error _ => none

/-- The record of a schema a raw value is. -/
def decode (schema : Schema FieldShape) (f : Format) (cx : Context) (v : Raw f) :
    Coded DescribedRecord := do
  let entries ← f.toEntries schema.layout v
  let (cells, left) ← takeCells (Datum.decode f cx) (schema.allFields.map Cell.blank) entries
  Entries.finish schema.entity left
  return ⟨schema, cells⟩

/-- What each field leaves unclaimed of a raw value. -/
def rows (schema : Schema FieldShape) (f : Format) (cx : Context) (v : Raw f) :
    List (TakeRow f) :=
  match f.toEntries schema.layout v with
  | .ok entries => takeRows (Datum.decode f cx) schema.allFields entries
  | .error _ => []

end DescribedRecord

end Rim
