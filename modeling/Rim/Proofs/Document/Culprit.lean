import Rim.Proofs.Document.FieldTypes
import Rim.Proofs.Record.Wrappers
/-!
# Errors point at the culprit

Read from the outside in, the wrappers of an error lead from a value to a place inside of it, and
what is wrong there, the place decoded on its own as what it is declared to be, is the error without
its wrappers.  A field of a record that another one embeds counts as a field of that one, and the
lack of a field is a fault of the record that lacks it.

## Main definitions

* `Place`, `Place.follow`: a value inside of another with its declared type, found step by step.
* `Place.refusal?`: why the value at a place cannot be decoded as its type.

## Main results

* `Place.exists_step`: the outermost wrapper leads to a place that ends in what it wraps.
* `RecordType.errors_point_at_culprit`: all wrappers lead to the place that ends in the error
  without them.
-/

namespace Rim

/-! ## Places -/

/-- A value with the type it is declared to have where it stands. -/
structure Place (f : Format) where
  type : FieldType
  value : Raw f

namespace Place

variable {f : Format}

/-- The place one step further inside: an item of a list, or what a record holds under the key of a
field, if there is any. -/
def step (p : Place f) (s : ErrorStep) : Option (Place f) :=
  match p.type, s with
  | .list d, .item i => ((f.toList p.value).toOption.bind (·[i]?)).map (Place.mk d)
  | .record t, .field name =>
    (t.typeOf? name).bind fun d =>
      ((t.schema.field? name).bind (f.valueAt? t.schema.layout p.value)).map (Place.mk d)
  | _, _ => none

/-- The place some steps further inside. -/
def follow (p : Place f) : List ErrorStep → Option (Place f)
  | [] => some p
  | s :: rest => (p.step s).bind fun q => q.follow rest

/-- Why the value at a place is none of its type, decoded on its own and without hooks. -/
def refusal? (catalogs : Catalogs) (p : Place f) : Option RecordError :=
  match p.type.codec.decode f ⟨catalogs, none⟩ p.value with
  | .ok _ => none
  | .error e => some e

variable {catalogs : Catalogs} {p : Place f} {e e' : RecordError} {s : ErrorStep}

/-- The refusal of a part is the error that its own decoding ends with. -/
theorem refusal?_eq_some_iff : p.refusal? catalogs = some e ↔
    p.type.codec.decode f ⟨catalogs, none⟩ p.value = .error e := by
  unfold refusal?
  cases p.type.codec.decode f ⟨catalogs, none⟩ p.value <;> simp

/-- Errors are wrapped by lists and records only. -/
theorem unwrapped_or {d : FieldType} (catalogs : Catalogs) :
    (∀ v : Raw f, (d.codec.decode f ⟨catalogs, none⟩ v).Unwrapped) ∨
      (∃ item, d = .list item) ∨ ∃ t, d = .record t := by
  cases d with
  | list item => exact .inr (.inl ⟨item, rfl⟩)
  | record t => exact .inr (.inr ⟨t, rfl⟩)
  | bool => exact .inl Format.unwrapped_toBool
  | uint64 => exact .inl FieldCodec.unwrapped_uint64
  | string => exact .inl Format.unwrapped_toText
  | bytes => exact .inl Format.unwrapped_toBytes
  | uuid => exact .inl FieldCodec.unwrapped_uuid
  | ueid => exact .inl fun v => (Format.unwrapped_toBytes v).map Ueid.mk
  | digest => exact .inl FieldCodec.unwrapped_digest
  | tagId => exact .inl FieldCodec.unwrapped_tagId
  | role | tagRel | corimRole => exact .inl FieldCodec.unwrapped_code
  | choice family => exact .inl (FieldCodec.unwrapped_choice family)

/-- What is wrong with a list inside of one of its items is what that item ends in. -/
theorem exists_step_list {item : FieldType} {v : Raw f}
    (h : (FieldCodec.list item.codec).decode f ⟨catalogs, none⟩ v = .error e)
    (hpeel : e.peel? = some (s, e')) :
    ∃ q, (⟨.list item, v⟩ : Place f).step s = some q ∧ q.refusal? catalogs = some e' := by
  change (f.toList v).bind _ = _ at h
  cases hlist : f.toList v with
  | error e₁ =>
    rw [hlist] at h
    obtain rfl := Except.error.inj h
    cases (Format.unwrapped_toList v _ hlist).symm.trans hpeel
  | ok items =>
    rw [hlist] at h
    obtain ⟨i, x, e₁, hx, hread, rfl⟩ := FieldCodec.encodeItems_eq_error h
    obtain ⟨rfl, rfl⟩ := Prod.mk.inj (Option.some.inj hpeel)
    refine ⟨⟨item, x⟩, ?_, refusal?_eq_some_iff.2 hread⟩
    show ((f.toList v).toOption.bind (·[0 + i]?)).map _ = _
    rw [hlist, Nat.zero_add]
    show (items[i]?).map _ = _
    rw [hx]
    rfl

/-- What is wrong with a record inside of one of its fields is what that field ends in.  Only
foreign keys are left to be wrong, and they are a fault of the record itself. -/
theorem exists_step_record {t : RecordType} {v : Raw f}
    (h : t.shape.decode f ⟨catalogs, none⟩ t.blank v = .error e)
    (hpeel : e.peel? = some (s, e')) :
    ∃ q, (⟨.record t, v⟩ : Place f).step s = some q ∧ q.refusal? catalogs = some e' := by
  unfold RecordShape.decode RecordShape.decodeWith at h
  rcases f.isRecord_or_misshapen t.shape.schema.layout v with hshape | ⟨e₁, hshape⟩
  swap
  · rw [hshape.toEntries_eq] at h
    obtain rfl := Except.error.inj h
    cases (Format.unwrapped_toEntries _ v _ hshape.toEntries_eq).symm.trans hpeel
  obtain ⟨entries, hentries, -, hget⟩ := hshape.exists_toEntries
  rw [hentries] at h
  change (takeAll _ _ _ entries).bind _ = _ at h
  cases htake : takeAll ⟨catalogs, none⟩ t.shape.members t.blank entries with
  | ok taken =>
    rw [htake] at h
    have hfinish := (Entries.unwrapped_finish t.shape.schema.entity taken.2).map fun _ => taken.1
    cases (hfinish e h).symm.trans hpeel
  | error e₁ =>
    rw [htake] at h
    obtain rfl := Except.error.inj h
    obtain ⟨m, hm, claimed, r, hread, hclaimed⟩ := exists_of_takeAll_eq_error htake
    obtain ⟨d, hd, hspec, hdeclares⟩ := t.exists_typeOf? hm
    cases claimed with
    | none =>
      rw [hdeclares.misses f catalogs r _ hread] at hpeel
      cases hpeel
    | some x =>
      obtain ⟨e₂, he₂, rfl⟩ := (hdeclares.reads f catalogs x r _).1 hread
      obtain ⟨rfl, rfl⟩ := Prod.mk.inj (Option.some.inj hpeel)
      refine ⟨⟨d, x⟩, ?_, refusal?_eq_some_iff.2 he₂⟩
      have hvalue : f.valueAt? t.schema.layout v m.spec = some x := by
        rw [← hclaimed x rfl]
        exact (hget m.spec).symm
      show (t.typeOf? m.spec.name).bind _ = _
      rw [hd]
      show ((t.schema.field? m.spec.name).bind _).map _ = _
      rw [hspec]
      show (f.valueAt? t.schema.layout v m.spec).map _ = _
      rw [hvalue]
      rfl

/-- The outermost wrapper of an error leads to a place whose value ends in what it wraps. -/
theorem exists_step (h : p.refusal? catalogs = some e) (hpeel : e.peel? = some (s, e')) :
    ∃ q, p.step s = some q ∧ q.refusal? catalogs = some e' := by
  obtain ⟨d, v⟩ := p
  have hread : d.codec.decode f ⟨catalogs, none⟩ v = .error e := refusal?_eq_some_iff.1 h
  rcases unwrapped_or (f := f) (d := d) catalogs with hplain | ⟨item, rfl⟩ | ⟨t, rfl⟩
  · cases (hplain v e hread).symm.trans hpeel
  · exact exists_step_list hread hpeel
  · exact exists_step_record ((t.decode_codec f catalogs v).symm.trans hread) hpeel

/-- However many of the wrappers are followed, they lead to a place that ends in what is left. -/
theorem exists_follow (h : p.refusal? catalogs = some e) {n : Nat}
    (hlayer : e.layers[n]? = some e') :
    ∃ q, p.follow (e.steps.take n) = some q ∧ q.refusal? catalogs = some e' := by
  induction n generalizing p e with
  | zero =>
    obtain rfl := Option.some.inj (e.layers_getElem?_zero.symm.trans hlayer)
    exact ⟨p, rfl, h⟩
  | succ n ih =>
    obtain ⟨s, source, hpeel, hsteps, hsource⟩ := RecordError.exists_peel_of_layers hlayer
    obtain ⟨q, hq, hrefusal⟩ := exists_step h hpeel
    obtain ⟨r, hr, hleft⟩ := ih hrefusal hsource
    refine ⟨r, ?_, hleft⟩
    rw [hsteps, List.take_succ_cons, follow, hq]
    exact hr

end Place

/-! ## Records -/

/-- Without hooks, whatever a value of a record type is refused for, the wrappers of the error lead
from the value to one inside of it, which decoded on its own, as what it is declared to be there, is
refused for the error without its wrappers.  After each of the wrappers the place that was reached
ends in what is left of the error, which is of the same kind.  The path of the error names the
fields that were passed. -/
theorem RecordType.errors_point_at_culprit (t : RecordType) (f : Format) (catalogs : Catalogs)
    (v : Raw f) (e : RecordError) (h : t.codec.decode f ⟨catalogs, none⟩ v = .error e) :
    (∃ p : Place f, Place.follow ⟨.record t, v⟩ e.steps = some p ∧
        p.type.codec.decode f ⟨catalogs, none⟩ p.value = .error e.innermost) ∧
      e.innermost.steps = [] ∧
      e.path = e.steps.filterMap ErrorStep.field? ∧
      ∀ n e', e.layers[n]? = some e' → e'.kind = e.innermost.kind ∧
        ∃ p : Place f, Place.follow ⟨.record t, v⟩ (e.steps.take n) = some p ∧
          p.type.codec.decode f ⟨catalogs, none⟩ p.value = .error e' := by
  have hrefusal : (⟨.record t, v⟩ : Place f).refusal? catalogs = some e :=
    Place.refusal?_eq_some_iff.2 h
  refine ⟨?_, e.steps_innermost, e.path_eq_filterMap_steps, fun n e' hlayer => ⟨?_, ?_⟩⟩
  · obtain ⟨p, hfollow, hp⟩ := Place.exists_follow hrefusal e.layers_getElem?_length_steps
    rw [List.take_length] at hfollow
    exact ⟨p, hfollow, Place.refusal?_eq_some_iff.1 hp⟩
  · exact RecordError.kind_of_mem_layers (List.mem_of_getElem? hlayer)
  · obtain ⟨p, hfollow, hp⟩ := Place.exists_follow hrefusal hlayer
    exact ⟨p, hfollow, Place.refusal?_eq_some_iff.1 hp⟩

/-- Triples whose only reference values are about a class at a layer that is no number. -/
def mislaidTriples : Json :=
  .object [("reference-values", .array [.object [
    ("environment", .object [("class", .object [("layer", .bool true)])]),
    ("measurements", .array [])]])]

/-- The layer is what the error of the triples leads to. -/
theorem RecordType.errors_point_at_layer :
    RecordType.triples.codec.decode .json ⟨.standard, none⟩ mislaidTriples =
        .error (.field "reference-values" (.item 0 (.field "environment" (.field "class"
          (.field "layer" (.scalar .mismatch)))))) ∧
      Place.follow (f := .json) ⟨.record .triples, mislaidTriples⟩
          [.field "reference-values", .item 0, .field "environment", .field "class",
            .field "layer"] = some ⟨.uint64, Json.bool true⟩ ∧
      FieldCodec.uint64.decode .json ⟨.standard, none⟩ (Json.bool true) =
        .error (.scalar .mismatch) := by
  have h : RecordType.triples.codec.decode .json ⟨.standard, none⟩ mislaidTriples =
      .error (.field "reference-values" (.item 0 (.field "environment" (.field "class"
        (.field "layer" (.scalar .mismatch)))))) := rfl
  obtain ⟨p, hfollow, hread⟩ :=
    (RecordType.errors_point_at_culprit .triples .json .standard mislaidTriples _ h).1
  have hlayer : Place.follow (f := .json) ⟨.record .triples, mislaidTriples⟩
      [.field "reference-values", .item 0, .field "environment", .field "class",
        .field "layer"] = some ⟨.uint64, Json.bool true⟩ := rfl
  obtain rfl := Option.some.inj (hlayer.symm.trans hfollow)
  exact ⟨h, hfollow, hread⟩

end Rim
