import Rim.Proofs.Document.Manifest
import Rim.Proofs.Document.Travels
/-!
# Hook fields under contested keys

Two fields that both write something are never written under one key, but a field that writes
nothing does not stand in the way of another one.  When the record is read, each field claims the
entry under its key, whoever wrote it: the fields of the entity in their order and then those of the
hook.  So a field of a hook comes back exactly if none of the fields before it has its key, whether
they hold a value or not; otherwise one of these takes its entry, and it is left without.

## Main definitions

* `RecordShape.IsExtensible`: the record types that carry a hook.
* `Cell.IsSet`, `Cell.IsTold`: fields that write a value, and fields whose value differs from what
  their absence says.
* `Hook.Uncontested`: no field before it has the key of such a field.

## Main results

* `takeAll_frame`: the members of a record leave the entries of other fields alone.
* `RecordShape.IsExtensible.decode_encode_extended`: when a record with a hook is read back.
-/

namespace Rim

/-! ## The record types that carry a hook -/

/-- The record types that carry a hook: module identifiers with their entities, triples, measured
values and flags, and manifests with their entities. -/
inductive RecordShape.IsExtensible : {E : Type} → [Hookable E] → RecordShape E → Prop where
  | comid : IsExtensible comidShape
  | entity : IsExtensible entityShape
  | triples : IsExtensible triplesShape
  | mval : IsExtensible mvalShape
  | flags : IsExtensible flagsShape
  | corim : IsExtensible corimShape
  | corimEntity : IsExtensible corimEntityShape

namespace RecordShape.IsExtensible

variable {E : Type} [Hookable E] {s : RecordShape E}

theorem sound (h : s.IsExtensible) : s.Sound := by
  cases h with
  | comid | triples | mval | corim => exact sound_flat rfl
  | entity | corimEntity => exact sound_identity_roles
  | flags => exact sound_flagsShape

theorem layout_eq (h : s.IsExtensible) : s.schema.layout = .map := by
  cases h <;> rfl

theorem lawfulHookable (h : s.IsExtensible) : LawfulHookable E := by
  cases h <;> infer_instance

/-- No field of an entity is about its slot. -/
theorem keepsSlot (h : s.IsExtensible) : ∀ m ∈ s.members, m.KeepsSlot := by
  cases h with
  | corim => exact keepsSlot_corim
  | corimEntity => exact keepsSlot_corimEntity
  | comid =>
    intro m hm
    simp only [comidShape, RecordShape.flat, List.mem_cons, List.not_mem_nil, or_false] at hm
    rcases hm with rfl | rfl | rfl | rfl | rfl
    · exact Member.keepsSlot_optional fun _ _ => rfl
    · exact Member.keepsSlot_required fun _ _ => rfl
    · exact Member.keepsSlot_defaulted fun _ _ => rfl
    · exact Member.keepsSlot_defaulted fun _ _ => rfl
    · exact Member.keepsSlot_required fun _ _ => rfl
  | entity =>
    intro m hm
    simp only [entityShape, identityShape, RecordShape.flat, List.map_cons, List.map_nil,
      List.cons_append, List.nil_append, List.mem_cons, List.not_mem_nil, or_false] at hm
    rcases hm with rfl | rfl | rfl
    · exact Member.keepsSlot_embedded fun _ _ => rfl
    · exact Member.keepsSlot_embedded fun _ _ => rfl
    · exact Member.keepsSlot_required fun _ _ => rfl
  | triples =>
    intro m hm
    simp only [triplesShape, RecordShape.flat, List.mem_cons, List.not_mem_nil, or_false] at hm
    rcases hm with rfl | rfl | rfl | rfl <;> exact Member.keepsSlot_defaulted fun _ _ => rfl
  | mval =>
    intro m hm
    simp only [mvalShape, RecordShape.flat, List.mem_cons, List.not_mem_nil, or_false] at hm
    rcases hm with rfl | hm
    · exact Member.keepsSlot_defaulted fun _ _ => rfl
    · rcases hm with rfl | rfl | rfl | rfl | rfl | rfl <;>
        exact Member.keepsSlot_optional fun _ _ => rfl
  | flags =>
    intro m hm
    obtain ⟨i, -, rfl⟩ := List.mem_map.1 hm
    exact Member.keepsSlot_optional fun _ _ => rfl

end RecordShape.IsExtensible

/-! ## Entries of other fields

As the keys of a record are distinct, entries under foreign keys change nothing for its members,
which leave them as they are. -/

section Frame

variable {f : Format} {entries base extra : Entries f} {spec : FieldSpec}

theorem Entries.get?_eq_some_iff (h : (entries.map (·.1)).Nodup) {v : Raw f} :
    entries.get? spec = some v ↔ (f.keyFor spec, v) ∈ entries := by
  unfold get?
  rw [Option.map_eq_some_iff]
  constructor
  · rintro ⟨e, hfind, rfl⟩
    obtain ⟨hmem, hkey⟩ := (find?_key_eq_some_iff h).1 hfind
    rwa [← hkey]
  · intro hmem
    exact ⟨_, (find?_key_eq_some_iff h).2 ⟨hmem, rfl⟩, rfl⟩

theorem Entries.get?_frame (hnodup : (entries.map (·.1)).Nodup) (h : entries.Perm (base ++ extra))
    (hextra : ∀ e ∈ extra, e.1 ≠ f.keyFor spec) : entries.get? spec = base.get? spec := by
  have hall : ((base ++ extra).map (·.1)).Nodup := (h.map _).nodup_iff.1 hnodup
  rw [List.map_append] at hall
  ext v
  rw [get?_eq_some_iff hnodup, get?_eq_some_iff hall.of_append_left, h.mem_iff, List.mem_append]
  constructor
  · rintro (hmem | hmem)
    · exact hmem
    · exact absurd rfl (hextra _ hmem)
  · exact .inl

/-- The members of a record take from some entries, and foreign ones among them, what they take from
the former alone, and leave the latter. -/
theorem takeAll_frame {R : Type} {cx : Context} {members : List (Member R)} {r r' : R}
    {left : Entries f} (hnodup : (entries.map (·.1)).Nodup) (h : entries.Perm (base ++ extra))
    (hextra : ∀ m ∈ members, ∀ e ∈ extra, e.1 ≠ f.keyFor m.spec)
    (hbase : takeAll cx members r base = .ok (r', left)) :
    ∃ left', takeAll cx members r entries = .ok (r', left') ∧ left'.Perm (left ++ extra) := by
  induction members generalizing r entries base with
  | nil =>
    obtain ⟨rfl, rfl⟩ := Prod.mk.inj (Except.ok.inj hbase)
    exact ⟨entries, rfl, h⟩
  | cons m members ih =>
    obtain ⟨hm, hextra⟩ := List.forall_mem_cons.1 hextra
    obtain ⟨r₁, hread, hbase⟩ := takeAll_cons_eq_ok_iff.1 hbase
    have hwithout : (entries.without m.spec).Perm (base.without m.spec ++ extra) := by
      have hfilter := h.filter fun e => decide (e.1 ≠ f.keyFor m.spec)
      rw [List.filter_append] at hfilter
      rwa [← Entries.without_of_absent hm]
    have hnodup' : ((entries.without m.spec).map (·.1)).Nodup :=
      hnodup.sublist (List.filter_sublist.map _)
    obtain ⟨left', htake, hleft⟩ := ih hnodup' hwithout hextra hbase
    refine ⟨left', takeAll_cons_eq_ok_iff.2 ⟨r₁, ?_, htake⟩, hleft⟩
    rwa [Entries.get?_frame hnodup h hm]

/-- What the members of a record leave is not under their keys. -/
theorem key_ne_of_takeAll {R : Type} {cx : Context} {members : List (Member R)} {r r' : R}
    {left : Entries f} (h : takeAll cx members r entries = .ok (r', left)) :
    left.Sublist entries ∧ ∀ m ∈ members, ∀ e ∈ left, e.1 ≠ f.keyFor m.spec := by
  induction members generalizing r entries with
  | nil =>
    obtain ⟨-, rfl⟩ := Prod.mk.inj (Except.ok.inj h)
    exact ⟨.refl _, List.forall_mem_nil _⟩
  | cons m members ih =>
    obtain ⟨r₁, -, h⟩ := takeAll_cons_eq_ok_iff.1 h
    obtain ⟨hsublist, hothers⟩ := ih h
    refine ⟨hsublist.trans List.filter_sublist, List.forall_mem_cons.2 ⟨fun e he => ?_, hothers⟩⟩
    simpa using (List.mem_filter.1 (hsublist.subset he)).2

end Frame

/-! ## Contested fields -/

/-- A field with a value that is not empty, which it writes. -/
def Cell.IsSet (c : Cell Datum) : Prop := ∃ x ∈ c.value, x.isEmpty = false

/-- A field with a value other than the one its absence stands for. -/
def Cell.IsTold (c : Cell Datum) : Prop := c.settled.value ≠ c.shape.implied?

/-- Where a field of a hook is as wanted, none of the fields that are read before it has its key:
neither one of the given fields nor an earlier one of the hook. -/
structure Hook.Uncontested {B : Type} (h : Hook B) (f : Format) (fields : List FieldSpec)
    (Wanted : Cell Datum → Prop) : Prop where
  own : ∀ c ∈ Hook.cells h, Wanted c → ∀ spec ∈ fields, f.keyFor spec ≠ f.keyFor c.shape.spec
  hook : (Hook.cells h).Pairwise fun c d =>
    Wanted d → f.keyFor c.shape.spec ≠ f.keyFor d.shape.spec

section Cells

variable {f : Format} {cx : Context}

/-- An optional field writes something exactly if it is set. -/
theorem Cell.put?_ne_none_iff {c : Cell Datum} (ho : c.shape.spec.isOptional = true) :
    c.put? f ≠ none ↔ c.IsSet := by
  obtain ⟨shape, value⟩ := c
  cases value with
  | none => simp [put?, IsSet]
  | some x =>
    have ho : shape.spec.isOptional = true := ho
    simp [put?, HookValue.isEmpty, IsSet, ho]

/-- A field that was read from nothing has the value its absence stands for. -/
theorem Cell.not_isTold_of_absent {c : Cell Datum} {entries : Entries f}
    (ho : c.shape.spec.isOptional = true) (habsent : ∀ e ∈ entries, e.1 ≠ f.keyFor c.shape.spec)
    (h : takeCell (Datum.decode f cx) c.shape (entries.get? c.shape.spec) = .ok c.settled.value) :
    ¬ c.IsTold := by
  rw [Entries.get?_of_absent habsent] at h
  have himplied := (FieldShape.absent_of_optional ho).symm.trans h
  exact not_not_intro (Except.ok.inj himplied).symm

/-- Fields that were read as settled were not contested, as far as they say more than their
absence. -/
theorem uncontested_of_takeCells {cells : List (Cell Datum)}
    (ho : ∀ c ∈ cells, c.shape.spec.isOptional = true) {fresh : List (Cell Datum)}
    (hshapes : fresh.map (·.shape) = cells.map (·.shape)) {fields : List FieldSpec}
    {entries left : Entries f} (habsent : ∀ spec ∈ fields, ∀ e ∈ entries, e.1 ≠ f.keyFor spec)
    (h : takeCells (Datum.decode f cx) fresh entries = .ok (cells.map Cell.settled, left)) :
    (∀ c ∈ cells, c.IsTold → ∀ spec ∈ fields, f.keyFor spec ≠ f.keyFor c.shape.spec) ∧
      cells.Pairwise fun c d => d.IsTold → f.keyFor c.shape.spec ≠ f.keyFor d.shape.spec := by
  induction cells generalizing fresh fields entries with
  | nil => exact ⟨List.forall_mem_nil _, .nil⟩
  | cons c cells ih =>
    obtain ⟨c₀, fresh, rfl, hshape, hshapes⟩ := List.map_eq_cons_iff.1 hshapes
    obtain ⟨hoc, ho⟩ := List.forall_mem_cons.1 ho
    rw [takeCells, hshape] at h
    obtain ⟨value, hvalue, h⟩ := exists_of_bind_eq_ok h
    obtain ⟨⟨others, left'⟩, hrest, h⟩ := exists_of_bind_eq_ok h
    obtain ⟨hcells, rfl⟩ := Prod.mk.inj (Except.ok.inj h)
    obtain ⟨hc, rfl⟩ := List.cons.inj hcells
    obtain rfl : value = c.settled.value := congrArg Cell.value hc
    have habsent' : ∀ spec ∈ c.shape.spec :: fields, ∀ e ∈ entries.without c.shape.spec,
        e.1 ≠ f.keyFor spec := by
      intro spec hspec e he
      obtain ⟨hmem, hkey⟩ := List.mem_filter.1 he
      rcases List.mem_cons.1 hspec with rfl | hspec
      · simpa using hkey
      · exact habsent spec hspec e hmem
    obtain ⟨hown, hhook⟩ := ih ho hshapes habsent' hrest
    refine ⟨List.forall_mem_cons.2
        ⟨fun htold spec hspec heq => ?_, fun d hd htold spec hspec => ?_⟩,
      List.pairwise_cons.2 ⟨fun d hd htold => ?_, hhook⟩⟩
    · refine Cell.not_isTold_of_absent hoc (fun e he => ?_) hvalue htold
      rw [← heq]
      exact habsent spec hspec e he
    · exact hown d hd htold spec (List.mem_cons_of_mem _ hspec)
    · exact hown d hd htold _ List.mem_cons_self

/-- The hook of a slot that was read as settled was not contested. -/
theorem Slot.uncontested_of_take {B : Type} {slot fresh : Slot B} (hsame : fresh.SameHook slot)
    (ho : ∀ h ∈ slot, ∀ c ∈ Hook.cells h, c.shape.spec.isOptional = true)
    {fields : List FieldSpec} {entries left : Entries f}
    (habsent : ∀ spec ∈ fields, ∀ e ∈ entries, e.1 ≠ f.keyFor spec)
    (h : fresh.take (Datum.decode f cx) entries = .ok (slot.settled, left)) :
    ∀ hook ∈ slot, Hook.Uncontested hook f fields Cell.IsTold := by
  rintro hook rfl
  cases fresh with
  | none => cases hsame
  | some hook₀ =>
    have ho := ho hook rfl
    have hsameShapes := Slot.SameHook.shapes_eq hsame.symm
    obtain ⟨typeName, constraint, fields', flags⟩ := hook
    obtain ⟨typeName₀, constraint₀, fields₀, flags₀⟩ := hook₀
    obtain ⟨-, -, hfields, -⟩ := HookOf.mk.inj (Option.some.inj hsame)
    cases fields' with
    | none => exact ⟨List.forall_mem_nil _, .nil⟩
    | some cells =>
      obtain ⟨cells₀, rfl, -⟩ := Option.map_eq_some_iff.1 hfields
      obtain ⟨⟨cells', left'⟩, htake, h⟩ := exists_of_bind_eq_ok h
      obtain ⟨hslot, rfl⟩ := Prod.mk.inj (Except.ok.inj h)
      obtain ⟨-, -, hcells, -⟩ := HookOf.mk.inj (Option.some.inj hslot)
      obtain rfl := Option.some.inj hcells
      have hshapes : cells₀.map (·.shape) = cells.map (·.shape) := hsameShapes
      obtain ⟨hown, hhook⟩ := uncontested_of_takeCells ho hshapes habsent htake
      exact ⟨hown, hhook⟩

end Cells

/-! ## Records -/

namespace RecordShape

variable {E : Type} [Hookable E] {s : RecordShape E} {f : Format} {cx : Context}
  {base own e : E} {v : Raw f}

/-- A record is read from all the entries of a raw value. -/
theorem entries_of_decode {R : Type} {s : RecordShape R} {r r' : R}
    (h : s.decode f cx r v = .ok r') :
    ∃ entries, f.toEntries s.schema.layout v = .ok entries ∧
      takeAll cx s.members r entries = .ok (r', []) := by
  obtain ⟨entries, hentries, h⟩ := exists_of_bind_eq_ok h
  obtain ⟨⟨r₁, left⟩, htake, h⟩ := exists_of_bind_eq_ok h
  obtain ⟨⟨result, left'⟩, hclaim, h⟩ := exists_of_bind_eq_ok h
  obtain ⟨rfl, rfl⟩ := Prod.mk.inj (Except.ok.inj hclaim)
  obtain ⟨_, hfinish, h⟩ := exists_of_bind_eq_ok h
  obtain rfl := Except.ok.inj h
  cases left with
  | nil => exact ⟨entries, hentries, htake⟩
  | cons a left => cases hfinish

/-- Reading the own fields of a record makes of what they wrote what it makes of them without the
hook, and leaves what the hook has written, if that is under other keys. -/
theorem IsExtensible.exists_takeAll (hs : s.IsExtensible) {added : Written f}
    (hwrites : ∀ m ∈ s.members, m.Writes f e)
    (hapart : ((writtenBy f e s.members ++ added).map (·.1)).Pairwise FieldSpec.Apart)
    (hown : ∀ w, s.encode f e = .ok w → s.decode f cx base w = .ok own)
    (hkeys : ∀ m ∈ s.members, ∀ a ∈ added, f.keyFor a.1 ≠ f.keyFor m.spec) :
    ∃ entries left, f.toEntries s.schema.layout
        (f.ofEntries s.schema.layout (writtenBy f e s.members ++ added)) = .ok entries ∧
      takeAll cx s.members base entries = .ok (own, left) ∧
      left.Perm (added.map fun a => (f.keyFor a.1, a.2)) := by
  have hfits : ∀ w : Written f, (w.map (·.1)).Pairwise FieldSpec.Apart →
      w.Fits s.schema.layout := by
    refine fun w hw => ⟨hw, fun harray => ?_⟩
    rw [hs.layout_eq] at harray
    cases harray
  have hapartOwn : ((writtenBy f e s.members).map (·.1)).Pairwise FieldSpec.Apart := by
    rw [List.map_append] at hapart
    exact (List.pairwise_append.1 hapart).1
  obtain ⟨alone, halone, hpermAlone⟩ := Format.toEntries_ofEntries (hfits _ hapartOwn)
  obtain ⟨alone', halone', htake⟩ :=
    entries_of_decode (hown _ ((encode_eq_ok_iff hs.sound).2 ⟨hwrites, rfl⟩))
  obtain rfl := Except.ok.inj (halone.symm.trans halone')
  obtain ⟨entries, hentries, hperm⟩ := Format.toEntries_ofEntries (hfits _ hapart)
  have hnodup : (entries.map (·.1)).Nodup := by
    refine ((hperm.map _).nodup_iff).2 ?_
    have hdistinct := nodup_keys_of_apart hapart f
    rw [List.map_map] at hdistinct ⊢
    exact hdistinct
  have hframe : entries.Perm (alone ++ added.map fun a => (f.keyFor a.1, a.2)) := by
    rw [List.map_append] at hperm
    exact hperm.trans (hpermAlone.symm.append_right _)
  have hforeign : ∀ m ∈ s.members, ∀ a ∈ added.map fun a => (f.keyFor a.1, a.2),
      a.1 ≠ f.keyFor m.spec := by
    intro m hm x hx
    obtain ⟨a, ha, rfl⟩ := List.mem_map.1 hx
    exact hkeys m hm a ha
  obtain ⟨left, htakes, hleft⟩ := takeAll_frame hnodup hframe hforeign htake
  exact ⟨entries, left, hentries, htakes, hleft⟩

/-- A record with a hook is read back if no field that is set in the hook is contested.  The own
fields are as they are without the hook. -/
theorem IsExtensible.decodeAttached_of_uncontested (hs : s.IsExtensible)
    (hsame : Slot.SameHook (Hookable.slot base) (Hookable.slot e))
    (hcells : ∀ h ∈ Hookable.slot e, ∀ c ∈ Hook.cells h, c.Reads f cx)
    (hown : ∀ w, s.encode f e = .ok w → s.decode f cx base w = .ok own)
    (hv : s.encodeExtended f e = .ok v)
    (hclear : ∀ h ∈ Hookable.slot e, Hook.Uncontested h f s.schema.allFields Cell.IsSet) :
    s.decodeAttached f cx base v =
      .ok (Hookable.withSlot own (Slot.settled (Hookable.slot e))) := by
  obtain ⟨hwrites, added, hputs, hapart, rfl⟩ := encodeWith_eq_ok_iff.1 hv
  have hkeys : ∀ m ∈ s.members, ∀ a ∈ added, f.keyFor a.1 ≠ f.keyFor m.spec := by
    intro m hm a ha
    obtain ⟨h, hmem, c, hc, hput⟩ := Slot.exists_of_puts_eq hputs ha
    obtain ⟨-, -, hspec, -⟩ := Cell.exists_of_put? hput
    have hset := (Cell.put?_ne_none_iff (f := f) (hcells h hmem c hc).optional).1 (by simp [hput])
    have hfield : m.spec ∈ s.schema.allFields := hs.sound.fields.subset (List.mem_map_of_mem hm)
    rw [hspec]
    exact ((hclear h hmem).own c hc hset _ hfield).symm
  obtain ⟨entries, left, hentries, htake, hleft⟩ :=
    hs.exists_takeAll hwrites hapart hown hkeys
  have hslot : Slot.SameHook (Hookable.slot own) (Hookable.slot e) := by
    rwa [slot_of_takeAll hs.keepsSlot htake]
  refine decodeAttached_eq_ok_iff.2 ⟨entries, own, left, _, hentries, htake, ?_, rfl⟩
  refine Slot.take_of_perm hslot hcells (fun h hmem => ?_) hputs hleft
  refine (hclear h hmem).hook.imp_of_mem fun {c d} _ hd hne hput => hne ?_
  exact (Cell.put?_ne_none_iff (hcells h hmem d hd).optional).1 hput

/-- If a record with a hook is read back, no field of the hook was contested that says more than its
absence. -/
theorem IsExtensible.uncontested_of_decodeAttached (hs : s.IsExtensible)
    (hsame : Slot.SameHook (Hookable.slot base) (Hookable.slot e))
    (ho : ∀ h ∈ Hookable.slot e, ∀ c ∈ Hook.cells h, c.shape.spec.isOptional = true)
    (hread : s.decodeAttached f cx base v =
      .ok (Hookable.withSlot own (Slot.settled (Hookable.slot e)))) :
    ∀ h ∈ Hookable.slot e, Hook.Uncontested h f s.schema.allFields Cell.IsTold := by
  have := hs.lawfulHookable
  obtain ⟨entries, r, left, slot, -, htake, hslot, heq⟩ := decodeAttached_eq_ok_iff.1 hread
  obtain rfl : slot = Slot.settled (Hookable.slot e) := by
    have hslots := congrArg Hookable.slot heq
    rwa [LawfulHookable.slot_withSlot, LawfulHookable.slot_withSlot, eq_comm] at hslots
  obtain ⟨-, hleft⟩ := key_ne_of_takeAll htake
  have hsame : Slot.SameHook (Hookable.slot r) (Hookable.slot e) := by
    rwa [slot_of_takeAll hs.keepsSlot htake]
  refine Slot.uncontested_of_take hsame ho (fun spec hspec => ?_) hslot
  obtain ⟨m, hm, rfl⟩ := List.mem_map.1 (hs.sound.fields.symm.subset hspec)
  exact hleft m hm

/-- What a record with a hook has written is read, by a fresh record that has the same hook
attached, as its own fields and those of the hook, if no field that is set in the hook is contested;
and only if none is contested that says more than its absence. -/
theorem IsExtensible.decode_encode_extended [Attachable E] (hs : s.IsExtensible) {fresh : E}
    (hattach : cx.attach fresh = .ok base)
    (hsame : Slot.SameHook (Hookable.slot base) (Hookable.slot e))
    (hcells : ∀ h ∈ Hookable.slot e, ∀ c ∈ Hook.cells h, c.Reads f cx)
    (hown : ∀ w, s.encode f e = .ok w → s.decode f cx base w = .ok own)
    (hv : (s.extended fresh).encode f e = .ok v) :
    ((∀ h ∈ Hookable.slot e, Hook.Uncontested h f s.schema.allFields Cell.IsSet) →
        (s.extended fresh).decode f cx v =
          .ok (Hookable.withSlot own (Slot.settled (Hookable.slot e)))) ∧
      ((s.extended fresh).decode f cx v =
          .ok (Hookable.withSlot own (Slot.settled (Hookable.slot e))) →
        ∀ h ∈ Hookable.slot e, Hook.Uncontested h f s.schema.allFields Cell.IsTold) := by
  constructor
  · intro hclear
    exact decode_extended_eq_ok_iff.2
      ⟨base, hattach, hs.decodeAttached_of_uncontested hsame hcells hown hv hclear⟩
  · intro hread
    obtain ⟨base', hattach', hread⟩ := decode_extended_eq_ok_iff.1 hread
    obtain rfl := Except.ok.inj (hattach.symm.trans hattach')
    exact hs.uncontested_of_decodeAttached hsame (fun h hmem c hc => (hcells h hmem c hc).optional)
      hread

end RecordShape

/-- A hook of entities that adds an alias under a key. -/
def aliasHook (key : UInt64) (value : Option String) : Hook EntityBody where
  typeName := "alias"
  fields := some [⟨⟨.optional "alias" key, .string, false⟩, value.map .string⟩]

/-- Where entities have aliases. -/
def aliasContext (key : UInt64) : Context :=
  ⟨.standard, some ⟨⟨[⟨.comidEntity, .comidEntity, aliasHook key none⟩]⟩, []⟩⟩

/-- An entity without a registration URI, with or without an alias. -/
def aliasedEntity (key : UInt64) (value : Option String) : Entity where
  identity := { name := "ACME" }
  roles := [.creator]
  hook := some (aliasHook key value)

theorem reads_aliasHook (f : Format) (key : UInt64) (value : Option String) :
    ∀ h ∈ (aliasedEntity key value).hook, ∀ c ∈ Hook.cells h, c.Reads f (aliasContext key) := by
  intro h hh c hc
  obtain rfl := Option.some.inj hh
  obtain rfl := List.mem_singleton.1 hc
  refine ⟨rfl, fun x hx v hv => ?_⟩
  obtain ⟨text, -, rfl⟩ := Option.map_eq_some_iff.1 hx
  obtain rfl := Except.ok.inj hv
  cases f <;> rfl

theorem entity_decode_encode_extended :
    ∃ v, FieldCodec.entity.encode .cbor (aliasedEntity 100 (some "x")) = .ok v ∧
      FieldCodec.entity.decode .cbor (aliasContext 100) v =
        .ok (aliasedEntity 100 (some "x")) := by
  have hattach : (aliasContext 100).attach (default : Entity) =
      .ok { hook := some (aliasHook 100 none) } := rfl
  have hown : ∀ w, entityShape.encode .cbor (aliasedEntity 100 (some "x")) = .ok w →
      entityShape.decode .cbor (aliasContext 100) { hook := some (aliasHook 100 none) } w =
        .ok (aliasedEntity 100 none) := by
    intro w hw
    obtain rfl := Except.ok.inj hw
    rfl
  have hv : FieldCodec.entity.encode .cbor (aliasedEntity 100 (some "x")) = .ok _ := rfl
  have hsame : Slot.SameHook (some (aliasHook 100 none)) (aliasedEntity 100 (some "x")).hook := rfl
  obtain ⟨hread, -⟩ := RecordShape.IsExtensible.decode_encode_extended .entity hattach hsame
    (reads_aliasHook .cbor 100 (some "x")) hown hv
  refine ⟨_, hv, hread fun h hh => ⟨fun c hc _ => ?_, ?_⟩⟩
  · obtain rfl := Option.some.inj hh
    obtain rfl := List.mem_singleton.1 hc
    decide
  · obtain rfl := Option.some.inj hh
    exact List.pairwise_singleton _ _

/-- An alias under the key of the registration URI, which the entity does not have, is read as the
registration URI, and the hook is left without its alias. -/
theorem entity_decode_alias_contested :
    (aliasContext 1).attach (default : Entity) = .ok { hook := some (aliasHook 1 none) } ∧
      (∀ h ∈ (aliasedEntity 1 (some "x")).hook, ∀ c ∈ Hook.cells h,
        c.Reads .cbor (aliasContext 1)) ∧
      (∀ w, entityShape.encode .cbor (aliasedEntity 1 (some "x")) = .ok w →
        entityShape.decode .cbor (aliasContext 1) { hook := some (aliasHook 1 none) } w =
          .ok (aliasedEntity 1 none)) ∧
      ∃ v, FieldCodec.entity.encode .cbor (aliasedEntity 1 (some "x")) = .ok v ∧
        FieldCodec.entity.decode .cbor (aliasContext 1) v =
          .ok { aliasedEntity 1 none with identity := { name := "ACME", regId := some "x" } } := by
  refine ⟨rfl, reads_aliasHook .cbor 1 (some "x"), fun w hw => ?_, _, rfl, rfl⟩
  obtain rfl := Except.ok.inj hw
  rfl

end Rim
