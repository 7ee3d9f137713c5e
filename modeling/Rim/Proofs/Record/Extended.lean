import Rim.Proofs.Hook.Settled
import Rim.Proofs.Record.Travels
import Rim.Record.Comid
import Rim.Record.Corim
/-!
# Records with hooks travel

The fields of a hook are written after those of its entity, and the hook of the blank record claims
them from what the entity's own fields have left.  It finds them all, and leaves nothing, if the
blank record has the same hook and no field of the hook shares a key or a name with another one or
with a field of the entity.  For the hook alone it is enough that no field has the key of one that
writes something after it.

## Main definitions

* `Context.Serves`: a slot holds the hook of its position.
* `EntityKind.fields`: the fields an entity of a kind has of its own.
* `Cell.Reads`: hook fields whose values are read as settled.
* `Cell.Travels`, `Slot.Travels`: hook fields that travel.

## Main results

* `takeCells_of_perm`, `Slot.take_of_perm`: the fields of a hook claim all it has written.
* `RecordShape.Travels.extended`: a record with a hook travels if its fields and those of the hook
  do.
-/

namespace Rim

/-! ## Fields of hooks -/

theorem Datum.cellPuts_cons (f : Format) (c : Cell Datum) (rest : List (Cell Datum)) :
    Datum.cellPuts f (c :: rest) = (c.put? f).toList ++ Datum.cellPuts f rest := by
  rw [Datum.cellPuts]
  rcases c with ⟨shape, _ | x⟩ <;> rfl

theorem Datum.cellPuts_eq_filterMap (f : Format) (cells : List (Cell Datum)) :
    Datum.cellPuts f cells = cells.filterMap fun c => c.put? f := by
  induction cells with
  | nil => rw [Datum.cellPuts, List.filterMap_nil]
  | cons c rest ih =>
    rw [Datum.cellPuts_cons, ih, List.filterMap_cons]
    cases c.put? f <;> rfl

/-- The fields of a hook are written alike in a slot and in a value that holds the hook. -/
theorem Slot.puts_some {B : Type} (f : Format) (h : Hook B) :
    Slot.puts f (some h) = Datum.cellPuts f (Hook.cells h) :=
  (Datum.cellPuts_eq_filterMap f (Hook.cells h)).symm

/-- What a field of a hook writes, it writes of its value. -/
theorem Cell.exists_of_put? {f : Format} {c : Cell Datum} {e : FieldSpec × Raw f}
    (h : c.put? f = some (Put.ofEntry e)) :
    ∃ x ∈ c.value, e.1 = c.shape.spec ∧ Datum.encode f x = .ok e.2 := by
  obtain ⟨shape, value⟩ := c
  cases value with
  | none => cases h
  | some x =>
    change Datum.put? shape.spec x (Datum.encode f x) = _ at h
    unfold Datum.put? at h
    split at h
    · cases h
    · obtain ⟨hspec, hvalue⟩ := Put.mk.inj (Option.some.inj h)
      exact ⟨x, rfl, hspec.symm, hvalue⟩

/-- An entry that the fields of a hook have written is that of one of them. -/
theorem Datum.exists_of_cellPuts_eq {f : Format} {cells : List (Cell Datum)} {added : Written f}
    (hputs : Datum.cellPuts f cells = added.map Put.ofEntry) {e : FieldSpec × Raw f}
    (he : e ∈ added) : ∃ c ∈ cells, c.put? f = some (Put.ofEntry e) := by
  have hmem : Put.ofEntry e ∈ Datum.cellPuts f cells := by
    rw [hputs]
    exact List.mem_map_of_mem he
  rw [Datum.cellPuts_eq_filterMap] at hmem
  exact List.mem_filterMap.1 hmem

/-- An entry that a slot has written is that of a field of its hook. -/
theorem Slot.exists_of_puts_eq {B : Type} {f : Format} {slot : Slot B} {added : Written f}
    (hputs : Slot.puts f slot = added.map Put.ofEntry) {e : FieldSpec × Raw f} (he : e ∈ added) :
    ∃ hook ∈ slot, ∃ c ∈ Hook.cells hook, c.put? f = some (Put.ofEntry e) := by
  cases slot with
  | none =>
    obtain rfl := List.map_eq_nil_iff.1 hputs.symm
    cases he
  | some hook =>
    rw [Slot.puts_some] at hputs
    exact ⟨hook, rfl, Datum.exists_of_cellPuts_eq hputs he⟩

/-- An optional field whose value, once written, is read as settled, if it has one. -/
structure Cell.Reads (c : Cell Datum) (f : Format) (cx : Context) : Prop where
  optional : c.shape.spec.isOptional = true
  value : ∀ x ∈ c.value, (FieldCodec.datum c.shape.kind).Reads f cx x x.settled

/-- An optional field whose value travels, if it has one. -/
structure Cell.Travels (c : Cell Datum) (f : Format) (cx : Context) (n : Nat) : Prop where
  optional : c.shape.spec.isOptional = true
  value : ∀ x ∈ c.value, (FieldCodec.datum c.shape.kind).Travels f cx n x x.settled

section

variable {f : Format} {cx : Context} {n : Nat}

theorem Cell.Travels.reads {c : Cell Datum} (h : c.Travels f cx n) : c.Reads f cx :=
  ⟨h.optional, fun x hx => (h.value x hx).reads⟩

/-- A field that writes nothing finds nothing, and then is settled. -/
theorem Cell.Reads.takeCell_none {c : Cell Datum} (h : c.Reads f cx) (hput : c.put? f = none) :
    takeCell (Datum.decode f cx) c.shape none = .ok c.settled.value := by
  show c.shape.absent = _
  rw [FieldShape.absent_of_optional h.optional]
  obtain ⟨shape, value⟩ := c
  cases value with
  | none => rw [settled, Datum.settledValue]
  | some x =>
    change Datum.put? shape.spec x (Datum.encode f x) = _ at hput
    unfold Datum.put? at hput
    split at hput
    · rename_i hempty
      rw [settled, Datum.settledValue, if_pos hempty]
    · cases hput

/-- A field that writes its value finds it settled. -/
theorem Cell.Reads.takeCell_some {c : Cell Datum} (h : c.Reads f cx) {e : FieldSpec × Raw f}
    (hput : c.put? f = some (Put.ofEntry e)) :
    takeCell (Datum.decode f cx) c.shape (some e.2) = .ok c.settled.value := by
  obtain ⟨spec, v⟩ := e
  obtain ⟨shape, value⟩ := c
  cases value with
  | none => cases hput
  | some x =>
    change Datum.put? shape.spec x (Datum.encode f x) = _ at hput
    unfold Datum.put? at hput
    split at hput
    · cases hput
    · rename_i hempty
      obtain ⟨rfl, hv⟩ := Put.mk.inj (Option.some.inj hput)
      have hread : Datum.decode f cx shape.kind v = .ok x.settled := h.value x rfl v hv
      rw [settled, Datum.settledValue, if_neg hempty]
      show (Coded.underField _ (Datum.decode f cx shape.kind v)).map some = _
      rw [hread]
      rfl

/-- A key that no field of a hook has which writes something is not among those written. -/
theorem Datum.key_ne_of_cellPuts {cells : List (Cell Datum)} {spec : FieldSpec}
    (hkeys : ∀ c ∈ cells, c.put? f ≠ none → f.keyFor spec ≠ f.keyFor c.shape.spec)
    {added : Written f} (hputs : Datum.cellPuts f cells = added.map Put.ofEntry) :
    ∀ e ∈ added.map fun e => (f.keyFor e.1, e.2), e.1 ≠ f.keyFor spec := by
  intro e he
  obtain ⟨a, ha, rfl⟩ := List.mem_map.1 he
  obtain ⟨c, hc, hput⟩ := Datum.exists_of_cellPuts_eq hputs ha
  obtain ⟨-, -, hspec, -⟩ := Cell.exists_of_put? hput
  rw [hspec]
  exact (hkeys c hc (by simp [hput])).symm

/-- One field takes its value and the others take theirs. -/
theorem takeCells_cons {c c₀ : Cell Datum} (hshape : c₀.shape = c.shape)
    {cells fresh : List (Cell Datum)} {entries : Entries f}
    (hvalue : takeCell (Datum.decode f cx) c.shape (entries.get? c.shape.spec) =
      .ok c.settled.value)
    (hrest : takeCells (Datum.decode f cx) fresh (entries.without c.shape.spec) =
      .ok (cells.map Cell.settled, [])) :
    takeCells (Datum.decode f cx) (c₀ :: fresh) entries =
      .ok ((c :: cells).map Cell.settled, []) := by
  rw [takeCells, hshape, hvalue]
  show (takeCells (Datum.decode f cx) fresh _).bind _ = _
  rw [hrest]
  rfl

/-- The fields of a hook claim all it has written, in whatever order it comes, if no field has the
key of one that writes something after it. -/
theorem takeCells_of_perm {cells : List (Cell Datum)} (hcells : ∀ c ∈ cells, c.Reads f cx)
    (hkeys : cells.Pairwise fun c d =>
      d.put? f ≠ none → f.keyFor c.shape.spec ≠ f.keyFor d.shape.spec)
    {fresh : List (Cell Datum)} (hshapes : fresh.map (·.shape) = cells.map (·.shape))
    {added : Written f} (hputs : Datum.cellPuts f cells = added.map Put.ofEntry)
    {entries : Entries f} (h : entries.Perm (added.map fun e => (f.keyFor e.1, e.2))) :
    takeCells (Datum.decode f cx) fresh entries = .ok (cells.map Cell.settled, []) := by
  induction cells generalizing fresh added entries with
  | nil =>
    obtain rfl := List.map_eq_nil_iff.1 hputs.symm
    obtain rfl := List.map_eq_nil_iff.1 hshapes
    obtain rfl := h.eq_nil
    rfl
  | cons c cells ih =>
    obtain ⟨c₀, fresh, rfl, hshape, hshapes⟩ := List.map_eq_cons_iff.1 hshapes
    obtain ⟨hc, hcells⟩ := List.forall_mem_cons.1 hcells
    obtain ⟨hfirst, hkeys⟩ := List.pairwise_cons.1 hkeys
    rw [Datum.cellPuts_cons] at hputs
    cases hput : c.put? f with
    | none =>
      rw [hput] at hputs
      have habsent : ∀ e ∈ entries, e.1 ≠ f.keyFor c.shape.spec := fun e he =>
        Datum.key_ne_of_cellPuts hfirst hputs e (h.mem_iff.1 he)
      refine takeCells_cons hshape ?_ ?_
      · rw [Entries.get?_of_absent habsent]
        exact hc.takeCell_none hput
      · rw [Entries.without_of_absent habsent]
        exact ih hcells hkeys hshapes hputs h
    | some p =>
      rw [hput] at hputs
      have hputs : added.map Put.ofEntry = p :: Datum.cellPuts f cells := hputs.symm
      obtain ⟨e, added, rfl, rfl, htail⟩ := List.map_eq_cons_iff.1 hputs
      obtain ⟨-, -, hspec, -⟩ := Cell.exists_of_put? hput
      rw [List.map_cons, hspec] at h
      have hrest := Datum.key_ne_of_cellPuts hfirst htail.symm
      refine takeCells_cons hshape ?_
        (ih hcells hkeys hshapes htail.symm (Entries.without_of_perm h hrest))
      rw [Entries.get?_of_perm h hrest]
      exact hc.takeCell_some hput

/-- The same hook has the same fields. -/
theorem Slot.SameHook.shapes_eq {B : Type} {hook₀ hook : Hook B}
    (h : Slot.SameHook (some hook₀) (some hook)) :
    (Hook.cells hook).map (·.shape) = (Hook.cells hook₀).map (·.shape) := by
  obtain ⟨typeName₀, constraint₀, fields₀, flags₀⟩ := hook₀
  obtain ⟨typeName, constraint, fields, flags⟩ := hook
  obtain ⟨-, -, hfields, -⟩ := HookOf.mk.inj (Option.some.inj h)
  cases fields₀ with
  | none =>
    obtain rfl := Option.map_eq_none_iff.1 hfields.symm
    rfl
  | some cells₀ =>
    obtain ⟨cells, rfl, hblank⟩ := Option.map_eq_some_iff.1 hfields.symm
    have hshapes := congrArg (List.map fun c : Cell Datum => c.shape) hblank
    rwa [List.map_map, List.map_map] at hshapes

/-- A slot with the same hook takes what the hook has written, and leaves nothing. -/
theorem Slot.take_of_perm {B : Type} {slot fresh : Slot B} (hsame : fresh.SameHook slot)
    (hcells : ∀ h ∈ slot, ∀ c ∈ Hook.cells h, c.Reads f cx)
    (hkeys : ∀ h ∈ slot, (Hook.cells h).Pairwise fun c d =>
      d.put? f ≠ none → f.keyFor c.shape.spec ≠ f.keyFor d.shape.spec)
    {added : Written f} (hputs : Slot.puts f slot = added.map Put.ofEntry) {entries : Entries f}
    (hperm : entries.Perm (added.map fun e => (f.keyFor e.1, e.2))) :
    fresh.take (Datum.decode f cx) entries = .ok (slot.settled, []) := by
  cases slot with
  | none =>
    obtain rfl := hsame.symm.eq_none_of_left
    obtain rfl := List.map_eq_nil_iff.1 hputs.symm
    obtain rfl := hperm.eq_nil
    rfl
  | some hook =>
    cases fresh with
    | none => cases hsame
    | some hook₀ =>
      have hcells := hcells hook rfl
      have hkeys := hkeys hook rfl
      have hsameShapes := Slot.SameHook.shapes_eq hsame.symm
      obtain ⟨typeName, constraint, fields, flags⟩ := hook
      obtain ⟨typeName₀, constraint₀, fields₀, flags₀⟩ := hook₀
      obtain ⟨rfl, rfl, hfields, rfl⟩ := HookOf.mk.inj (Option.some.inj hsame)
      cases fields with
      | none =>
        obtain rfl := Option.map_eq_none_iff.1 hfields
        obtain rfl := List.map_eq_nil_iff.1 hputs.symm
        obtain rfl := hperm.eq_nil
        rfl
      | some cells =>
        obtain ⟨cells₀, rfl, -⟩ := Option.map_eq_some_iff.1 hfields
        have hshapes : cells₀.map (·.shape) = cells.map (·.shape) := hsameShapes
        rw [Slot.puts_some] at hputs
        show (takeCells (Datum.decode f cx) cells₀ entries).bind _ = _
        rw [takeCells_of_perm hcells hkeys hshapes hputs hperm]
        rfl

end

/-! ## Slots -/

/-- What a slot of an entity of a kind takes in a context. -/
def Context.hookFor (cx : Context) (k : EntityKind) : Except HookRefusal (Slot k.Body) :=
  match cx.hooks with
  | some h => h.bundle.hookFor k (h.pointFor k)
  | none => .ok none

/-- A slot holds the hook of its position, whatever the values of its fields. -/
def Context.Serves (cx : Context) (k : EntityKind) (slot : Slot k.Body) : Prop :=
  ∃ slot₀, cx.hookFor k = .ok slot₀ ∧ Slot.SameHook slot₀ slot

/-- The fields an entity of a kind has of its own, those it embeds among them. -/
def EntityKind.fields : EntityKind → List FieldSpec
  | comid => comidShape.schema.allFields
  | comidEntity => entityShape.schema.allFields
  | triples => triplesShape.schema.allFields
  | mval => mvalShape.schema.allFields
  | flags => flagsShape.schema.allFields
  | corim => corimShape.schema.allFields
  | corimEntity => corimEntityShape.schema.allFields
  | other _ => []

/-- No field of a hook shares its key or its name with another one or with one of the entity. -/
def Hook.Extends {B : Type} (h : Hook B) (k : EntityKind) : Prop :=
  (k.fields ++ (Hook.cells h).map (·.shape.spec)).Pairwise FieldSpec.Apart

/-- The hook of a slot extends the entity by fields that travel, if there is a hook. -/
structure Slot.Travels {k : EntityKind} (slot : Slot k.Body) (f : Format) (cx : Context) (n : Nat) :
    Prop where
  serves : cx.Serves k slot
  apart : ∀ h ∈ slot, Hook.Extends h k
  cells : ∀ h ∈ slot, ∀ c ∈ Hook.cells h, c.Travels f cx n

section

variable {f : Format} {cx : Context} {n : Nat} {k : EntityKind}

theorem Slot.Travels.of_none {slot : Slot k.Body} (hcx : cx.hooks = none) (h : slot = none) :
    slot.Travels f cx n where
  serves := by
    refine ⟨none, ?_, h ▸ .refl none⟩
    unfold Context.hookFor
    rw [hcx]
  apart hook hmem := by
    rw [h] at hmem
    cases hmem
  cells hook hmem := by
    rw [h] at hmem
    cases hmem

theorem Cell.Travels.mono {c : Cell Datum} {m : Nat} (h : c.Travels f cx n) (hm : n ≤ m) :
    c.Travels f cx m :=
  ⟨h.optional, fun x hx => (h.value x hx).mono hm⟩

theorem Slot.Travels.mono {slot : Slot k.Body} {m : Nat} (h : slot.Travels f cx n) (hm : n ≤ m) :
    slot.Travels f cx m :=
  ⟨h.serves, h.apart, fun hook hmem c hc => (h.cells hook hmem c hc).mono hm⟩

/-- A slot with the same hook takes what the hook has written, which is plain.  The fields of the
hook are apart from each other as those of entity and hook together are. -/
theorem Slot.Travels.take {slot fresh : Slot k.Body} (h : slot.Travels f cx n)
    (hsame : fresh.SameHook slot) {added : Written f}
    (hputs : Slot.puts f slot = added.map Put.ofEntry) {entries : Entries f}
    (hperm : entries.Perm (added.map fun e => (f.keyFor e.1, e.2))) :
    fresh.take (Datum.decode f cx) entries = .ok (slot.settled, []) ∧
      ∀ e ∈ added, f.Plain n e.2 := by
  have hkeys : ∀ hook ∈ slot, (Hook.cells hook).Pairwise fun c d =>
      d.put? f ≠ none → f.keyFor c.shape.spec ≠ f.keyFor d.shape.spec := by
    intro hook hmem
    have hapart := (List.pairwise_append.1 (h.apart hook hmem)).2.1
    exact (List.pairwise_map.1 hapart).imp fun hcd _ => hcd.keyFor_ne f
  refine ⟨Slot.take_of_perm hsame (fun hook hmem c hc => (h.cells hook hmem c hc).reads) hkeys
    hputs hperm, fun e he => ?_⟩
  obtain ⟨hook, hmem, c, hc, hput⟩ := Slot.exists_of_puts_eq hputs he
  obtain ⟨x, hx, -, henc⟩ := Cell.exists_of_put? hput
  exact ((h.cells hook hmem c hc).value x hx).plain _ henc

end

/-! ## Records -/

namespace RecordShape

variable {E : Type} [Hookable E] {s : RecordShape E} {f : Format} {cx : Context} {n : Nat}
  {e blank result : E}

/-- The entity and its hook write fields that are all told apart, and what the hook has written it
takes back.  The entity's own fields leave the entries of the hook, which it then claims. -/
theorem Travels.decodeAttached (h : s.Travels f cx n e blank result)
    (hlayout : s.schema.layout = .map) (hfields : s.schema.allFields = (Hookable.kind E).fields)
    (hslot : (Hookable.slot e).Travels f cx n)
    (hsame : Slot.SameHook (Hookable.slot result) (Hookable.slot e)) {v : Raw f}
    (hv : s.encodeExtended f e = .ok v) :
    s.decodeAttached f cx blank v =
        .ok (Hookable.withSlot result (Slot.settled (Hookable.slot e))) ∧ f.Plain (n + 1) v := by
  obtain ⟨hwrites, added, hputs, hapart, rfl⟩ := encodeWith_eq_ok_iff.1 hv
  obtain ⟨plan, hmembers, hplan, hresult⟩ := h.members.exists_plan
  have hothers : ∀ m ∈ s.members, ∀ e ∈ added, m.spec.Apart e.1 := by
    intro m hm a ha
    have hown : m.spec ∈ (Hookable.kind E).fields := by
      rw [← hfields]
      exact h.sound.fields.subset (List.mem_map_of_mem hm)
    obtain ⟨hook, hhook, c, hc, hput⟩ := Slot.exists_of_puts_eq hputs ha
    obtain ⟨-, -, hspec, -⟩ := Cell.exists_of_put? hput
    have hextends := List.pairwise_append.1 (hslot.apart hook hhook)
    rw [hspec]
    exact hextends.2.2 _ hown _ (List.mem_map_of_mem hc)
  have hfits : (writtenBy f e s.members ++ added).Fits s.schema.layout := by
    refine ⟨hapart, fun harray => ?_⟩
    rw [hlayout] at harray
    cases harray
  have hperm : (plan.map (·.1)).Perm s.members := by
    rw [hmembers]
  obtain ⟨left, hleft, hread⟩ := decodeWith_of_entries h.sound hperm
    (fun p hp => (hplan p hp).restores) hwrites hfits hothers blank
  rw [hmembers, hresult] at hread
  obtain ⟨htake, hplain⟩ := hslot.take hsame hputs hleft
  constructor
  · unfold RecordShape.decodeAttached decodeExtended
    refine (hread _).trans ?_
    show ((Slot.take (Datum.decode f cx) (Hookable.slot result) left).bind _).bind _ = _
    rw [htake]
    rfl
  · refine Format.plain_ofEntries _ hapart fun a ha => ?_
    rcases List.mem_append.1 ha with ha | ha
    · exact h.plain_writtenBy a ha
    · exact hplain a ha

/-- A record with a hook travels if its fields and those of the hook do. -/
theorem Travels.extended [Attachable E] {fresh final : E} (hattach : cx.attach fresh = .ok blank)
    (h : s.Travels f cx n e blank result) (hlayout : s.schema.layout = .map)
    (hfields : s.schema.allFields = (Hookable.kind E).fields)
    (hslot : (Hookable.slot e).Travels f cx n)
    (hsame : Slot.SameHook (Hookable.slot result) (Hookable.slot e))
    (hfinal : Hookable.withSlot result (Slot.settled (Hookable.slot e)) = final) :
    (s.extended fresh).Travels f cx (n + 1) e final where
  reads _ hv := by
    rw [← hfinal]
    exact decode_extended_eq_ok_iff.2
      ⟨blank, hattach, (h.decodeAttached hlayout hfields hslot hsame hv).1⟩
  plain _ hv := (h.decodeAttached hlayout hfields hslot hsame hv).2

end RecordShape

end Rim
