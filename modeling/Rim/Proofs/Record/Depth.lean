import Rim.Proofs.Record.Plain
import Rim.Proofs.Record.Reading
/-!
# Hook fields are read to any depth

A hook may add a field that holds an entity, which may carry a hook of its own, or a list, so the
values of hook fields nest.  Their reader recurs on a bound for the nesting still to come, and the
raw value it starts from sets the bound.  Every value that it goes on to nests less deep, so the
bound is never met, and each value is read by the codec of its kind.

## Main results

* `Format.depth_lt_of_mem_toList`, `Format.depth_lt_of_mem_toEntries`: parts nest less deep.
* `Datum.decodeWithin_eq_of_depth_lt`: any bound beyond the nesting of a raw value will do.
* `Datum.decode_list`, `Datum.decode_entity`: lists and entities are read by their codecs.
-/

namespace Rim

/-! ## Parts of raw values -/

namespace Format

/-- The items of a list nest less deep than it does. -/
theorem depth_lt_of_mem_toList {f : Format} {v x : Raw f} {items : List (Raw f)}
    (h : f.toList v = .ok items) (hx : x ∈ items) : f.depth x < f.depth v := by
  cases f with
  | cbor =>
    cases v with
    | array xs =>
      obtain rfl := Except.ok.inj h
      show x.depth < (Cbor.array xs).depth
      rw [Cbor.depth]
      exact Nat.lt_succ_of_le (Cbor.depth_le_depthItems hx)
    | _ => cases h
  | json =>
    cases v with
    | array xs =>
      obtain rfl := Except.ok.inj h
      show x.depth < (Json.array xs).depth
      rw [Json.depth]
      exact Nat.lt_succ_of_le (Json.depth_le_depthItems hx)
    | _ => cases h

theorem mem_recordEntries {entries : List (Cbor × Cbor)} {es : List (UInt64 × Cbor)}
    (h : recordEntries entries = .ok es) : ∀ e ∈ es, ∃ key, (key, e.2) ∈ entries := by
  induction entries generalizing es with
  | nil =>
    obtain rfl := Except.ok.inj h
    exact List.forall_mem_nil _
  | cons entry rest ih =>
    obtain ⟨key, -, h⟩ := exists_of_bind_eq_ok h
    obtain ⟨others, hothers, h⟩ := exists_of_bind_eq_ok h
    obtain rfl := Except.ok.inj h
    refine List.forall_mem_cons.2 ⟨⟨entry.1, List.mem_cons_self⟩, fun e he => ?_⟩
    obtain ⟨key, hmem⟩ := ih hothers e he
    exact ⟨key, List.mem_cons_of_mem _ hmem⟩

theorem mem_positioned {n : Nat} {items : List Cbor} :
    ∀ e ∈ positioned n items, e.2 ∈ items := by
  induction items generalizing n with
  | nil => exact List.forall_mem_nil _
  | cons x rest ih =>
    rw [positioned]
    exact List.forall_mem_cons.2
      ⟨List.mem_cons_self, fun e he => List.mem_cons_of_mem _ (ih e he)⟩

/-- The entries of a record nest less deep than it does. -/
theorem depth_lt_of_mem_toEntries {f : Format} {layout : Layout} {v : Raw f} {entries : Entries f}
    (h : f.toEntries layout v = .ok entries) {e : Key f × Raw f} (he : e ∈ entries) :
    f.depth e.2 < f.depth v := by
  cases f with
  | cbor =>
    cases layout with
    | map =>
      cases v with
      | map es =>
        obtain ⟨key, hmem⟩ := mem_recordEntries h e he
        show e.2.depth < (Cbor.map es).depth
        rw [Cbor.depth]
        exact Nat.lt_succ_of_le (Cbor.depth_le_depthEntries hmem)
      | _ => cases h
    | array =>
      cases v with
      | array xs =>
        obtain rfl := Except.ok.inj h
        show e.2.depth < (Cbor.array xs).depth
        rw [Cbor.depth]
        exact Nat.lt_succ_of_le (Cbor.depth_le_depthItems (mem_positioned e he))
      | _ => cases h
  | json =>
    cases v with
    | object members =>
      obtain rfl := Except.ok.inj h
      show e.2.depth < (Json.object members).depth
      rw [Json.depth]
      exact Nat.lt_succ_of_le (Json.depth_le_depthMembers he)
    | _ => cases h

end Format

/-! ## Readers that agree

Two readers of nested values that agree on the parts of a raw value read the same from it. -/

theorem Entries.mem_of_get? {f : Format} {entries : Entries f} {spec : FieldSpec} {v : Raw f}
    (h : entries.get? spec = some v) : ∃ e ∈ entries, e.2 = v := by
  obtain ⟨e, he, hv⟩ := Option.map_eq_some_iff.1 h
  exact ⟨e, List.mem_of_find?_eq_some he, hv⟩

theorem Entries.without_subset {f : Format} (entries : Entries f) (spec : FieldSpec) :
    ∀ e ∈ entries.without spec, e ∈ entries := fun _ he => (List.mem_filter.1 he).1

section

variable {f : Format} {decode decode' : Kind → Raw f → Coded Datum}

theorem takeCells_congr {entries : Entries f}
    (h : ∀ e ∈ entries, ∀ kind, decode kind e.2 = decode' kind e.2) (cells : List (Cell Datum)) :
    takeCells decode cells entries = takeCells decode' cells entries := by
  induction cells generalizing entries with
  | nil => rfl
  | cons c rest ih =>
    have hvalue : takeCell decode c.shape (entries.get? c.shape.spec) =
        takeCell decode' c.shape (entries.get? c.shape.spec) := by
      cases hget : entries.get? c.shape.spec with
      | none => rfl
      | some v =>
        obtain ⟨e, he, rfl⟩ := Entries.mem_of_get? hget
        rw [takeCell, takeCell, h e he]
    rw [takeCells, takeCells, hvalue,
      ih fun e he => h e (Entries.without_subset entries c.shape.spec e he)]

theorem Slot.take_congr {B : Type} {entries : Entries f}
    (h : ∀ e ∈ entries, ∀ kind, decode kind e.2 = decode' kind e.2) (slot : Slot B) :
    slot.take decode entries = slot.take decode' entries := by
  cases slot with
  | none => rfl
  | some hook =>
    obtain ⟨typeName, constraint, fields, flags⟩ := hook
    cases fields with
    | none => rfl
    | some cells =>
      show (takeCells decode cells entries).bind _ = (takeCells decode' cells entries).bind _
      rw [takeCells_congr h]

/-- What fields leave is some of what they were given. -/
theorem takeAll_subset {R : Type} {cx : Context} {members : List (Member R)} {r r' : R}
    {entries left : Entries f} (h : takeAll cx members r entries = .ok (r', left)) :
    ∀ e ∈ left, e ∈ entries := by
  induction members generalizing r entries with
  | nil =>
    obtain ⟨-, rfl⟩ := Prod.mk.inj (Except.ok.inj h)
    exact fun _ he => he
  | cons m rest ih =>
    obtain ⟨r₁, -, h⟩ := takeAll_cons_eq_ok_iff.1 h
    exact fun e he => Entries.without_subset entries m.spec e (ih h e he)

/-- A record with a hook depends on how the values within its raw value are read only. -/
theorem RecordShape.decodeExtended_congr {E : Type} [Hookable E] (s : RecordShape E) (cx : Context)
    (e : E) {v : Raw f} (h : ∀ x : Raw f, f.depth x < f.depth v → ∀ kind,
      decode kind x = decode' kind x) :
    s.decodeExtended f cx decode e v = s.decodeExtended f cx decode' e v := by
  unfold decodeExtended decodeWith
  cases hentries : f.toEntries s.schema.layout v with
  | error _ => rfl
  | ok entries =>
    show (takeAll cx s.members e entries).bind _ = (takeAll cx s.members e entries).bind _
    cases htake : takeAll cx s.members e entries with
    | error _ => rfl
    | ok taken =>
      obtain ⟨r, left⟩ := taken
      have hleft : ∀ a ∈ left, ∀ kind, decode kind a.2 = decode' kind a.2 := fun a ha =>
        h a.2 (Format.depth_lt_of_mem_toEntries hentries (takeAll_subset htake a ha))
      show ((Slot.take decode (Hookable.slot r) left).bind _).bind _ =
        ((Slot.take decode' (Hookable.slot r) left).bind _).bind _
      rw [Slot.take_congr hleft]

end

/-! ## The bound -/

namespace Datum

variable {f : Format} {cx : Context}

/-- Any bound beyond the nesting of a raw value gives what it is read as.  Both bounds go down by
one at each step, and the nesting of the parts by one at least. -/
theorem decodeWithin_eq_of_depth_lt {n m : Nat} {kind : Kind} {v : Raw f} (hn : f.depth v < n)
    (hm : f.depth v < m) : decodeWithin f cx n kind v = decodeWithin f cx m kind v := by
  induction n generalizing m kind v with
  | zero => exact absurd hn (Nat.not_lt_zero _)
  | succ n ih =>
    obtain ⟨m, rfl⟩ : ∃ k, m = k + 1 := ⟨m - 1, by omega⟩
    have hparts : ∀ x : Raw f, f.depth x < f.depth v → ∀ kind,
        decodeWithin f cx n kind x = decodeWithin f cx m kind x := fun x hx kind =>
      ih (by omega) (by omega)
    cases kind with
    | list item =>
      rw [decodeWithin, decodeWithin]
      cases hitems : f.toList v with
      | error _ => rfl
      | ok items =>
        show (encodeItems _ 0 items).bind _ = (encodeItems _ 0 items).bind _
        rw [encodeItems_congr fun x hx => hparts x (Format.depth_lt_of_mem_toList hitems hx) item]
    | entity =>
      rw [decodeWithin, decodeWithin]
      congr 1
      funext e
      rw [RecordShape.decodeExtended_congr entityShape cx e hparts]
    | _ => rfl

/-- A value is read as by any bound beyond its nesting. -/
theorem decodeWithin_eq_decode {n : Nat} (kind : Kind) {v : Raw f} (hn : f.depth v < n) :
    decodeWithin f cx n kind v = decode f cx kind v :=
  decodeWithin_eq_of_depth_lt hn (Nat.lt_succ_self _)

/-- A list is read item by item. -/
theorem decode_list (item : Kind) (v : Raw f) : decode f cx (.list item) v =
    ((FieldCodec.list (.datum item)).decode f cx v).map list := by
  rw [decode, decodeWithin]
  show (f.toList v).bind _ = ((f.toList v).bind (encodeItems (decode f cx item) 0)).map list
  cases hitems : f.toList v with
  | error _ => rfl
  | ok items =>
    show (encodeItems _ 0 items).bind _ = (encodeItems _ 0 items).map list
    rw [encodeItems_congr fun x hx =>
      decodeWithin_eq_decode item (Format.depth_lt_of_mem_toList hitems hx)]
    rfl

/-- An entity that is the value of a field is read as any other entity. -/
theorem decode_entity (v : Raw f) :
    decode f cx .entity v = (FieldCodec.entity.decode f cx v).map entity := by
  have hread : ∀ e, entityShape.decodeExtended f cx (decodeWithin f cx (f.depth v)) e v =
      entityShape.decodeAttached f cx e v := fun e =>
    RecordShape.decodeExtended_congr entityShape cx e fun x hx kind =>
      decodeWithin_eq_decode kind hx
  rw [decode, decodeWithin]
  show (Coded.ofHook (cx.attach default)).bind _ =
    ((Coded.ofHook (cx.attach default)).bind (entityShape.decodeAttached f cx · v)).map entity
  cases Coded.ofHook (cx.attach (default : Entity)) with
  | error _ => rfl
  | ok e =>
    show (entityShape.decodeExtended f cx _ e v).bind _ = _
    rw [hread]
    rfl

end Datum

end Rim
