import Rim.Record.Described
import Rim.Document.Any
/-!
# Reports

What the library's errors and values look like from outside, as JSON.  An error reports its kind and
its message, and where it is if it knows; a value reports what it shows and what it is written as,
or the error that writing it ends in.

## Main definitions

* `Reported`: errors that have a report.
* `outcome`, `verdict`: reports of results.
* `writtenForms`: the two documents of a value.
* `PayloadType.report`, `choiceReport`: payloads and type choices.
* `Schema.report`, `DescribedRecord.report`: described records.
* `AnyDocument.report`: documents.
-/

namespace Rim

/-- Errors that have a report. -/
class Reported (ε : Type) where
  report : ε → Json

/-- The report of an error of a kind. -/
def errorReport (kind message : String) (place : List (String × Json)) : Json :=
  .object ([("error", .string kind), ("message", .string message)] ++ place)

instance : Reported WireError := ⟨fun e => errorReport e.name e.message []⟩

instance : Reported SchemaFault := ⟨fun e => errorReport e.name e.message []⟩

instance : Reported Objection := ⟨fun e => errorReport ErrorKind.extension.name e.message []⟩

instance : Reported VariantError := ⟨fun e => errorReport e.kind.name e.message []⟩

instance : Reported HookRefusal :=
  ⟨fun e => errorReport ErrorKind.registryConflict.name e.message []⟩

instance : Reported ProfileError := ⟨fun e => errorReport e.kind.name e.message []⟩

instance : Reported ConfigError := ⟨fun e => errorReport ErrorKind.config.name e.message []⟩

instance : Reported RecordError where
  report e := errorReport e.kind.name e.message [("path", .array (e.path.map .string))]

instance : Reported ValidityError where
  report e := errorReport e.kind.name e.message [("root", .string e.innermost.message)]

instance : Reported Error where
  report
    | .record e => Reported.report e
    | .validate e => Reported.report e
    | .choice e => Reported.report e
    | .profile e => Reported.report e
    | .attach e => Reported.report e
    | .config e => Reported.report e

/-- The report of a result. -/
def outcome {ε α : Type} [Reported ε] (value : α → Json) : Except ε α → Json
  | .ok a => value a
  | .error e => Reported.report e

/-- The report of a result without a value. -/
def verdict {ε : Type} [Reported ε] : Except ε Unit → Json := outcome fun () => .string "ok"

/-- A byte string as its digits. -/
def bytesReport (bytes : List UInt8) : Json := .string (Hex.encode bytes)

/-- A document as text: its digits in the binary form, and the text form as it is. -/
def documentReport : Format → List UInt8 → Json
  | .cbor, bytes => bytesReport bytes
  | .json, bytes => .string ((Utf8.decode? bytes).getD "")

/-- A list of numbers. -/
def numbersReport (ns : List UInt64) : Json := .array (ns.map fun n => .int n.toNat)

/-- The document of a raw value. -/
def writtenForm (config : Config) (f : Format) (v : Coded (Raw f)) : Json :=
  outcome (documentReport f) (v.bind fun v => Coded.ofWire (f.toDocument config v))

/-- The two documents of a value. -/
def writtenForms (config : Config) (v : (f : Format) → Coded (Raw f)) : List (String × Json) :=
  [("cbor", writtenForm config .cbor (v .cbor)), ("json", writtenForm config .json (v .json))]

/-- The value of a hook field in its text form. -/
def datumReport : Option Datum → Json
  | none => .null
  | some d => outcome id (d.encode .json)

/-- What payloads and type choices both show. -/
def Variant.report (v : Variant) : List (String × Json) :=
  [("type", .string v.typeName), ("tag", .int v.tag.toNat), ("display", .string v.display),
    ("bytes", bytesReport v.bytes), ("valid", verdict v.check)]

/-- The document of an item under a tag. -/
def itemReport (item : Except VariantError Cbor) : Json :=
  match item with
  | .ok item => outcome bytesReport item.toBytes
  | .error e => Reported.report e

/-- A payload with its forms beside a name and under a tag. -/
def PayloadType.report {α : Type} (p : PayloadType α) (a : α) : List (String × Json) :=
  (p.variant a).report ++ [("cbor", itemReport (p.toCbor a)), ("json", outcome id (p.toJson a))]

/-- A value of a family with its name or tag. -/
def choiceReport {T : Type} [TypeChoice T] (x : T) : List (String × Json) :=
  (TypeChoice.variant x).report ++ writtenForms {} (FieldCodec.encodeChoice x) ++
    [("third_party", .bool (TypeChoice.isForeign x))]

/-- The variants of a catalog. -/
def Catalog.report {T : Type} (r : Catalog T) : List (String × Json) :=
  [("len", .int r.size), ("empty", .bool (r.size == 0)),
    ("all", .array (r.toList.map fun (name, tag) => .array [.string name, .int tag.toNat]))]

/-- A field by name, key and whether it may be absent. -/
def FieldSpec.report (s : FieldSpec) : Json :=
  .array [.string s.name, .int s.key.toNat, .bool s.isOptional]

/-- A schema with its fields and its check, and the fields found by some names and keys. -/
def Schema.report (s : Schema FieldSpec) (names : List String) (keys : List UInt64) : Json :=
  let found (f : Option FieldSpec) := (f.map FieldSpec.report).getD .null
  .object [("entity", .string s.entity), ("array", .bool (s.layout == .array)),
    ("flattened", .array (s.allFields.map FieldSpec.report)), ("check", verdict s.check),
    ("names", .array (names.map fun n => found (s.field? n))),
    ("keys", .array (keys.map fun k => found (s.fieldOfKey? k)))]

/-- How much was written after a record. -/
def WriterMark.report (m : WriterMark) : Json :=
  .array [.string m.entity, .int m.written, .bool (m.written == 0)]

/-- What was left after a field. -/
def TakeRow.report {f : Format} (row : TakeRow f) : Json :=
  .array [.string row.field, .bool row.present, .int (List.length row.left),
    .bool (List.isEmpty row.left),
    .array (row.left.keys.map fun k => .string (f.showKey k))]

/-- Fields of a hook or a described record with their values. -/
def cellsReport (cells : List (Cell Datum)) : Json :=
  .array (cells.map fun c => .array [.string c.shape.spec.name, datumReport c.value])

/-- The documents of a described record, and how far the writer of the text form got. -/
def DescribedRecord.report (r : DescribedRecord) : List (String × Json) :=
  writtenForms {} (fun f => r.encode f) ++
    [("writer", .array ((r.marks .json).map WriterMark.report))]

/-- The points of a bundle. -/
def pointsReport (points : List Point) : Json := .array (points.map fun p => .string p.name)

/-- Flags with the outcome of a step. -/
def FlagsMap.report (m : FlagsMap) : List (String × Json) :=
  [("any", .bool m.holdsFlag), ("hook_any", .bool (Slot.holdsFlag m.hook)),
    ("hook_values", .bool (Slot.holdsValues m.hook))] ++
    writtenForms {} fun f => flagsShape.encodeExtended f m

/-- A document with its forms, its validity and its hooks. -/
def AnyDocument.report (config : Config) (d : AnyDocument) : Json :=
  .object (writtenForms config (fun f => d.encode f) ++
    [("validate", verdict d.validity),
      ("hooks", .array (d.hooks.map fun p =>
        .array [.string p.path.toText, .bool p.holdsValues]))])

/-- The profiles of a catalog. -/
def ProfileIndex.report (r : ProfileIndex) : List (String × Json) :=
  [("all", .array (r.profiles.map fun p =>
      .array [.string p.id.text, pointsReport p.bundle.points])),
    ("len", .int r.size), ("empty", .bool (r.size == 0))]

end Rim
