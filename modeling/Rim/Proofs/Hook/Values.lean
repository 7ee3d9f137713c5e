import Rim.Proofs.Document.Travels
import Rim.Proofs.Record.Depth
/-!
# Values of hook fields travel

A hook may add fields of any kind, entities with hooks of their own among them.  What is written of
a value is plain if its integers are machine words and its choices are own variants, all the way
down.  So a hook whose values are of this sort, and are read as their settled form where they stand,
travels with its entity.  Values of the kinds that their fields declare are such values.

## Main definitions

* `Datum.IsOwn`: values without variants registered from outside.
* `Bundle.Extends`, `Context.Extends`: hooks that only add optional fields to their entities.
* `Datum.Survives`, `Slot.Survives`: values that survive being written and read, and the hook of a
  position with such values.
* `Datum.OfKind`: values of the kind that their field declares.

## Main results

* `Datum.IsOwn.exists_plain`: what is written of own values is plain.
* `Slot.Survives.exists_travels`: slots with surviving values travel.
* `Datum.OfKind.survives`: values of the declared kind survive.
-/

namespace Rim

/-! ## Plain values -/

/-- A value whose integers are machine words of either sign and whose choices are own variants, as
are those of the hook and of the items it holds. -/
inductive Datum.IsOwn : Datum → Prop where
  | bool (b : Bool) : IsOwn (.bool b)
  | int {v : Int} (low : -9223372036854775808 ≤ v) (high : v < 18446744073709551616) :
    IsOwn (.int v)
  | string (s : String) : IsOwn (.string s)
  | bytes (b : List UInt8) : IsOwn (.bytes b)
  | uuid (u : Uuid) : IsOwn (.uuid u)
  | tagId (id : TagId) : IsOwn (.tagId id)
  | ueid (u : Ueid) : IsOwn (.ueid u)
  | digest (d : Digest) : IsOwn (.digest d)
  | classId {x : ClassId} (h : TypeChoice.IsOwn x) : IsOwn (.classId x)
  | entity {e : Entity} (h : ∀ hook ∈ e.hook, ∀ c ∈ Hook.cells hook, ∀ x ∈ c.value, IsOwn x) :
    IsOwn (.entity e)
  | list {items : List Datum} (h : ∀ x ∈ items, IsOwn x) : IsOwn (.list items)

section

variable {f : Format}

/-- What travels in one context or another is written plainly in all. -/
theorem FieldCodec.Travels.exists_plain {α : Type} {c : FieldCodec α} {a b : α}
    (h : c.Travels f ⟨.standard, none⟩ 1 a b) {v : Raw f} (hv : c.encode f a = .ok v) :
    ∃ n, f.Plain n v :=
  ⟨1, h.plain v hv⟩

/-- What is written plainly, at whatever depth, and is read travels. -/
theorem FieldCodec.exists_travels {α : Type} {c : FieldCodec α} {cx : Context} {a b : α}
    (hreads : c.Reads f cx a b) (hplain : ∀ v, c.encode f a = .ok v → ∃ n, f.Plain n v) :
    ∃ n, c.Travels f cx n a b := by
  cases henc : c.encode f a with
  | error e =>
    refine ⟨0, hreads, fun v hv => ?_⟩
    rw [henc] at hv
    cases hv
  | ok w =>
    obtain ⟨n, hw⟩ := hplain w henc
    refine ⟨n, hreads, fun v hv => ?_⟩
    obtain rfl := Except.ok.inj (henc.symm.trans hv)
    exact hw

theorem Datum.encodeList_eq (f : Format) (index : Nat) (items : List Datum) :
    Datum.encodeList f index items = encodeItems (Datum.encode f) index items := by
  induction items generalizing index with
  | nil => rw [Datum.encodeList, encodeItems]
  | cons item rest ih => rw [Datum.encodeList, encodeItems, ih]

theorem Datum.slotPuts_eq (f : Format) (slot : Slot EntityBody) :
    Datum.slotPuts f slot = Slot.puts f slot := by
  cases slot with
  | none => rfl
  | some h =>
    obtain ⟨typeName, constraint, fields, flags⟩ := h
    rw [Slot.puts_some]
    cases fields with
    | none => rw [Datum.slotPuts, Datum.fieldPuts, Hook.cells, Option.getD_none, Datum.cellPuts]
    | some cells => rfl

/-- An entity that is the value of a field is written as any other entity. -/
theorem Datum.encode_entity (f : Format) (e : Entity) :
    Datum.encode f (.entity e) = FieldCodec.entity.encode f e := by
  rw [Datum.encode, Datum.slotPuts_eq]
  rfl

/-- What an entity writes is plain if what its hook writes is.  The own fields travel in a context
without hooks too, and plainness names no context. -/
theorem EntityOf.exists_plain {e : Entity}
    (h : ∀ hook ∈ e.hook, ∀ c ∈ Hook.cells hook, ∀ x ∈ c.value, ∀ v,
      Datum.encode f x = .ok v → ∃ n, f.Plain n v) {v : Raw f}
    (hv : FieldCodec.entity.encode f e = .ok v) : ∃ n, f.Plain n v := by
  obtain ⟨-, added, hputs, hapart, rfl⟩ := RecordShape.encodeWith_eq_ok_iff.1 hv
  have hown : entityShape.Travels f ⟨.standard, none⟩ 1 e { hook := none }
    { e.normalized with hook := none } := e.travels_own none
  have hadded : ∀ a ∈ added, ∃ n, f.Plain n a.2 := by
    intro a ha
    obtain ⟨hook, hhook, c, hc, hput⟩ := Slot.exists_of_puts_eq hputs ha
    obtain ⟨x, hx, -, henc⟩ := Cell.exists_of_put? hput
    exact h hook hhook c hc x hx a.2 henc
  obtain ⟨n, hadded⟩ := exists_bound
    (fun (a : FieldSpec × Raw f) n m hm (ha : f.Plain n a.2) => ha.mono hm) hadded
  refine ⟨max 1 n + 1, Format.plain_ofEntries _ hapart fun a ha => ?_⟩
  rcases List.mem_append.1 ha with ha | ha
  · exact (hown.plain_writtenBy a ha).mono (Nat.le_max_left 1 n)
  · exact (hadded a ha).mono (Nat.le_max_right 1 n)

/-- What is written of an own value is plain.  By induction on the evidence: what an entity or a
list holds has evidence of its own. -/
theorem Datum.IsOwn.exists_plain {x : Datum} (h : x.IsOwn) {v : Raw f}
    (hv : Datum.encode f x = .ok v) : ∃ n, f.Plain n v := by
  induction h generalizing v with
  | bool b => exact (FieldCodec.travels_bool b).exists_plain hv
  | int low high =>
    obtain rfl := Except.ok.inj hv
    cases f with
    | cbor => exact ⟨0, Cbor.Plain.int (by omega) high⟩
    | json => exact ⟨0, Json.Plain.int low high⟩
  | string s => exact (FieldCodec.travels_string s).exists_plain hv
  | bytes b => exact (FieldCodec.travels_bytes b).exists_plain hv
  | uuid u => exact (FieldCodec.travels_uuid u).exists_plain hv
  | tagId id =>
    cases id with
    | text s => exact (FieldCodec.travels_string s).exists_plain hv
    | uuid u => exact (FieldCodec.travels_uuid u).exists_plain hv
  | ueid u => exact (FieldCodec.travels_ueid u).exists_plain hv
  | digest d => exact (FieldCodec.travels_digest d).exists_plain hv
  | classId hown => exact ⟨2, @FieldCodec.plain_choice .classId _ hown _ _ hv⟩
  | entity _ ih =>
    rw [Datum.encode_entity] at hv
    exact EntityOf.exists_plain (fun hook hhook c hc x hx v => ih hook hhook c hc x hx) hv
  | list _ ih =>
    rw [Datum.encode] at hv
    obtain ⟨vs, hvs, rfl⟩ := exists_of_map_eq_ok hv
    rw [Datum.encodeList_eq] at hvs
    have hitems : ∀ v ∈ vs, ∃ n, f.Plain n v := fun v hmem => by
      obtain ⟨x, hx, hxv⟩ := mem_encodeItems hvs v hmem
      exact ih x hx hxv
    obtain ⟨n, hitems⟩ := exists_bound (fun v n m hm (hv : f.Plain n v) => hv.mono hm) hitems
    exact ⟨n + 1, FieldCodec.plain_ofList hitems⟩

end

/-! ## Slots of documents

A slot that holds the hook of a bundle has the fields that the bundle declares, with values of its
own. -/

/-- Every hook of a bundle adds optional fields only, and none that shares its key or its name with
another one or with a field of the entity. -/
def Bundle.Extends (b : Bundle) : Prop :=
  ∀ e ∈ b.entries, Hook.Extends e.hook e.kind ∧
    ∀ c ∈ Hook.cells e.hook, c.shape.spec.isOptional = true

/-- The hooks that a context attaches, if any, add such fields only. -/
def Context.Extends (cx : Context) : Prop := ∀ source ∈ cx.hooks, source.bundle.Extends

theorem Context.Extends.withStandIns {cx : Context} (h : cx.Extends) (standIns : List StandIn) :
    (cx.withStandIns standIns).Extends := by
  intro source hsource
  obtain ⟨own, hown, rfl⟩ := Option.map_eq_some_iff.1 hsource
  exact h own hown

/-- A hook that a slot takes from such a context adds such fields only.  The hook in the slot may
hold values, but its fields are those that the bundle declares. -/
theorem Context.Serves.extends {cx : Context} {k : EntityKind} {slot : Slot k.Body}
    (h : cx.Serves k slot) (hcx : cx.Extends) :
    ∀ hook ∈ slot, Hook.Extends hook k ∧
      ∀ c ∈ Hook.cells hook, c.shape.spec.isOptional = true := by
  intro hook hmem
  obtain ⟨slot₀, hfor, hsame⟩ := h
  cases slot₀ with
  | none =>
    rw [hsame.eq_none_of_left] at hmem
    cases hmem
  | some hook₀ =>
    obtain rfl := Option.mem_def.1 hmem
    unfold hookFor at hfor
    cases hhooks : cx.hooks with
    | none =>
      rw [hhooks] at hfor
      cases hfor
    | some source =>
      rw [hhooks] at hfor
      obtain ⟨hextends, hoptional⟩ := Bundle.forall_of_hookFor
        (P := fun k hook => Hook.Extends hook k ∧
          ∀ c ∈ Hook.cells hook, c.shape.spec.isOptional = true)
        (hcx source hhooks) hfor hook₀ rfl
      have hshapes := Slot.SameHook.shapes_eq hsame
      have hspecs : (Hook.cells hook).map (·.shape.spec) =
          (Hook.cells hook₀).map (·.shape.spec) := by
        have hmap := congrArg (List.map fun shape : FieldShape => shape.spec) hshapes
        rwa [List.map_map, List.map_map] at hmap
      refine ⟨?_, fun c hc => ?_⟩
      · rw [Hook.Extends, hspecs]
        exact hextends
      · have hmem : c.shape ∈ (Hook.cells hook₀).map (·.shape) := by
          rw [← hshapes]
          exact List.mem_map_of_mem hc
        obtain ⟨c₀, hc₀, hshape⟩ := List.mem_map.1 hmem
        rw [← hshape]
        exact hoptional c₀ hc₀

/-- An own value that is written and then read as a value of some kind is there again, settled. -/
structure Datum.Survives (x : Datum) (f : Format) (cx : Context) (kind : Kind) : Prop where
  own : x.IsOwn
  reads : (FieldCodec.datum kind).Reads f cx x x.settled

/-- A slot holds the hook of its position, and the values of the hook survive there. -/
structure Slot.Survives {k : EntityKind} (slot : Slot k.Body) (f : Format) (cx : Context) :
    Prop where
  serves : cx.Serves k slot
  values : ∀ hook ∈ slot, ∀ c ∈ Hook.cells hook, ∀ x ∈ c.value, x.Survives f cx c.shape.kind

/-- A slot travels if the bundle only adds optional fields and the values survive. -/
theorem Slot.Survives.exists_travels {k : EntityKind} {slot : Slot k.Body} {f : Format}
    {cx : Context} (h : slot.Survives f cx) (hcx : cx.Extends) :
    ∃ n, slot.Travels f cx n := by
  have hextends := h.serves.extends hcx
  cases slot with
  | none =>
    refine ⟨0, h.serves, fun hook hmem => (hextends hook hmem).1, fun hook hmem => ?_⟩
    cases hmem
  | some hook =>
    obtain ⟨-, hoptional⟩ := hextends hook rfl
    have hcells : ∀ c ∈ Hook.cells hook, ∃ n, c.Travels f cx n := by
      intro c hc
      have hvalues := h.values hook rfl c hc
      obtain ⟨shape, value⟩ := c
      cases value with
      | none => exact ⟨0, hoptional _ hc, fun x hx => by cases hx⟩
      | some x =>
        have hx := hvalues x rfl
        obtain ⟨n, htravels⟩ :=
          FieldCodec.exists_travels hx.reads fun v hv => hx.own.exists_plain hv
        refine ⟨n, hoptional _ hc, fun y hy => ?_⟩
        obtain rfl := Option.some.inj hy
        exact htravels
    obtain ⟨n, hcells⟩ := exists_bound (fun c n m hm (hc : Cell.Travels c f cx n) => hc.mono hm)
      hcells
    refine ⟨n, h.serves, fun hook hmem => (hextends hook hmem).1, fun hook' hmem => ?_⟩
    obtain rfl := Option.some.inj hmem
    exact hcells

/-! ## Values of the declared kind

Nothing beyond this is asked of the values of hook fields: a value of the kind that its field
declares survives. -/

/-- A value of a kind, as its field declares it: an integer within the bounds of the kind, a valid
choice with an own variant, an identifier that is not text spelling a UUID, an entity with the hook
of its position, and values of the kinds declared within. -/
inductive Datum.OfKind (cx : Context) : Kind → Datum → Prop where
  | bool (b : Bool) : OfKind cx .bool (.bool b)
  | unsigned {w : Width} {v : Int} (low : 0 ≤ v) (high : v ≤ Kind.unsignedHigh w) :
    OfKind cx (.unsigned w) (.int v)
  | signed {w : Width} {v : Int} (low : Kind.signedLow w ≤ v) (high : v ≤ Kind.signedHigh w) :
    OfKind cx (.signed w) (.int v)
  | string (s : String) : OfKind cx .string (.string s)
  | bytes (b : List UInt8) : OfKind cx .bytes (.bytes b)
  | uuid (u : Uuid) : OfKind cx .uuid (.uuid u)
  | tagId {id : TagId} (h : id.isMisheld = false) : OfKind cx .tagId (.tagId id)
  | ueid (u : Ueid) : OfKind cx .ueid (.ueid u)
  | digest (d : Digest) : OfKind cx .digest (.digest d)
  | classId {x : ClassId} (own : TypeChoice.IsOwn x) (valid : TypeChoice.validity x = .ok ()) :
    OfKind cx .classId (.classId x)
  | entity {e : Entity} (serves : cx.Serves .comidEntity e.hook)
    (h : ∀ hook ∈ e.hook, ∀ c ∈ Hook.cells hook, ∀ x ∈ c.value, OfKind cx c.shape.kind x) :
    OfKind cx .entity (.entity e)
  | list {kind : Kind} {items : List Datum} (h : ∀ x ∈ items, OfKind cx kind x) :
    OfKind cx (.list kind) (.list items)

section

variable {f : Format} {cx : Context}

theorem Format.toInt_ofInt {low high v : Int} (h : low ≤ v ∧ v ≤ high) (f : Format) :
    Format.toInt low high f (f.ofInt v) = .ok v := by
  cases f <;> exact if_pos h

theorem Kind.unsignedHigh_lt (w : Width) : unsignedHigh w < 18446744073709551616 := by
  cases w <;> decide

theorem Kind.le_signedLow (w : Width) : -9223372036854775808 ≤ signedLow w := by
  cases w <;> decide

theorem Kind.signedHigh_lt (w : Width) : signedHigh w < 18446744073709551616 := by
  cases w <;> decide

/-- A value of a kind without items survives if its payload is read back under a field. -/
theorem Datum.survives_of_reads {α : Type} {c : FieldCodec α} {wrap : α → Datum} {kind : Kind}
    {a : α} (hreads : c.Reads f cx a a) (hown : (wrap a).IsOwn)
    (hencode : Datum.encode f (wrap a) = c.encode f a)
    (hdecode : ∀ v, Datum.decode f cx kind v = (c.decode f cx v).map wrap)
    (hsettled : (wrap a).settled = wrap a) : (wrap a).Survives f cx kind where
  own := hown
  reads v hv := by
    show Datum.decode f cx kind v = _
    rw [hdecode, hreads v (hencode.symm.trans hv), hsettled]
    rfl

/-- An entity whose hook survives does so itself, as the value of a field. -/
theorem EntityOf.survives {e : Entity} (hslot : Slot.Survives (k := .comidEntity) e.hook f cx)
    (hcx : cx.Extends) :
    (Datum.entity e).Survives f cx .entity where
  own := .entity fun hook hmem c hc x hx => (hslot.values hook hmem c hc x hx).own
  reads v hv := by
    obtain ⟨n, htravels⟩ := hslot.exists_travels hcx
    have hread := (EntityOf.travels (htravels.mono (Nat.le_succ n))).reads v
      ((Datum.encode_entity f e).symm.trans hv)
    show Datum.decode f cx .entity v = _
    rw [Datum.decode_entity, hread, Datum.settled_entity]
    rfl

/-- A list whose items survive does so itself. -/
theorem Datum.survives_list {kind : Kind} {items : List Datum}
    (h : ∀ x ∈ items, x.Survives f cx kind) : (Datum.list items).Survives f cx (.list kind) where
  own := .list fun x hx => (h x hx).own
  reads v hv := by
    obtain ⟨vs, hvs, rfl⟩ := exists_of_map_eq_ok
      (show (Datum.encodeList f 0 items).map f.ofList = .ok v by rwa [← Datum.encode])
    rw [Datum.encodeList_eq] at hvs
    show Datum.decode f cx (.list kind) _ = _
    rw [Datum.decode_list, Datum.settled, Datum.settledList_eq]
    show ((f.toList (f.ofList vs)).bind _).map Datum.list = _
    rw [FieldCodec.toList_ofList]
    show (encodeItems _ 0 vs).map Datum.list = _
    rw [encodeItems_of_encodeItems 0 (fun x hx v hv => (h x hx).reads v hv) hvs]
    rfl

/-- A value of the kind that its field declares survives.  The values of the hook survive by
induction, so its slot does, and with it the entity. -/
theorem Datum.OfKind.survives (hcatalogs : cx.catalogs.Includes .standard)
    (hcx : cx.Extends) {kind : Kind} {x : Datum}
    (h : x.OfKind cx kind) : x.Survives f cx kind := by
  induction h with
  | bool b =>
    exact survives_of_reads (FieldCodec.travels_bool (n := 0) b).reads (.bool b) rfl
      (fun _ => rfl) rfl
  | @unsigned w v low high =>
    refine ⟨.int (by omega) (Int.lt_of_le_of_lt high (Kind.unsignedHigh_lt w)), fun v hv => ?_⟩
    obtain rfl := Except.ok.inj hv
    exact congrArg (Except.map Datum.int) (Format.toInt_ofInt ⟨low, high⟩ f)
  | @signed w v low high =>
    refine ⟨.int (Int.le_trans (Kind.le_signedLow w) low)
      (Int.lt_of_le_of_lt high (Kind.signedHigh_lt w)), fun v hv => ?_⟩
    obtain rfl := Except.ok.inj hv
    exact congrArg (Except.map Datum.int) (Format.toInt_ofInt ⟨low, high⟩ f)
  | string s =>
    exact survives_of_reads (FieldCodec.travels_string (n := 0) s).reads (.string s) rfl
      (fun _ => rfl) rfl
  | bytes b =>
    exact survives_of_reads (FieldCodec.travels_bytes (n := 0) b).reads (.bytes b) rfl
      (fun _ => rfl) rfl
  | uuid u =>
    exact survives_of_reads (FieldCodec.travels_uuid (n := 0) u).reads (.uuid u) rfl
      (fun _ => rfl) rfl
  | @tagId id h =>
    exact survives_of_reads (FieldCodec.travels_tagId (n := 0) h).reads (.tagId id) rfl
      (fun _ => rfl) rfl
  | ueid u =>
    exact survives_of_reads (FieldCodec.travels_ueid (n := 0) u).reads (.ueid u) rfl
      (fun _ => rfl) rfl
  | digest d =>
    exact survives_of_reads (FieldCodec.travels_digest (n := 0) d).reads (.digest d) rfl
      (fun _ => rfl) rfl
  | classId own valid =>
    exact survives_of_reads (TypeChoice.travels (n := 0) hcatalogs .classId own valid).reads
      (.classId own) rfl (fun _ => rfl) rfl
  | entity serves _ ih => exact EntityOf.survives ⟨serves, ih⟩ hcx
  | list _ ih => exact Datum.survives_list ih

end

end Rim
