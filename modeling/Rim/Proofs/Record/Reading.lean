import Rim.Proofs.Basic
import Rim.Record.Datum
/-!
# What reading a record does

Reading goes through the members of a record type one after the other, and then lets the hook take
what is left.  Taken apart from the end, a record that was read tells what each of its members was
read from.  No member touches the slot, and the hook in it only gains values, so what is attached
before reading is attached afterwards.

## Main definitions

* `Slot.SameHook`: two slots hold the same hook, whatever the values of its fields.
* `Member.KeepsSlot`: reading a field leaves the slot as it is.
* `LawfulHookable`: a slot that is put into an entity is found there.
* `Bundle.Serves`: a slot holds the hook of a point.

## Main results

* `Member.decode_required_eq_ok_iff` and its like: what one field was read from.
* `RecordShape.decodeAttached_eq_ok_iff`: what a record with a slot was read from.
* `RecordShape.sameHook_of_decodeAttached`: reading keeps the hook.
-/

namespace Rim

/-! ## Items -/

/-- Items that are mapped first may as well be encoded another way, if that comes to the same. -/
theorem encodeItems_map {α β γ : Type} {one : α → Coded β} {one' : γ → Coded β} {g : γ → α}
    {l : List γ} (h : ∀ a ∈ l, one (g a) = one' a) (index : Nat) :
    encodeItems one index (l.map g) = encodeItems one' index l := by
  induction l generalizing index with
  | nil => rfl
  | cons a rest ih =>
    obtain ⟨ha, hrest⟩ := List.forall_mem_cons.1 h
    rw [List.map_cons, encodeItems, encodeItems, ha, ih hrest]

theorem encodeItems_congr {α β : Type} {one one' : α → Coded β} {l : List α}
    (h : ∀ a ∈ l, one a = one' a) (index : Nat) :
    encodeItems one index l = encodeItems one' index l := by
  have hid : encodeItems one index (l.map id) = encodeItems one' index l := encodeItems_map h index
  rwa [List.map_id] at hid

/-! ## Members

Each kind of member reads one value and puts it in. -/

namespace Member

variable {R α : Type} {c : FieldCodec α} {spec : FieldSpec} {f : Format} {cx : Context}
  {claimed : Option (Raw f)} {r r' : R}

/-- A field is read from the value claimed for it. -/
theorem decode_required_eq_ok_iff {get : R → α} {set : α → R → R} :
    (required spec c get set).decode f cx claimed r = .ok r' ↔
      ∃ a, decodeClaimed c spec f cx claimed = .ok (some a) ∧ r' = set a r := by
  unfold required
  dsimp only
  cases decodeClaimed c spec f cx claimed with
  | error e => simp [bind, Except.bind]
  | ok o => cases o <;> simp [bind, Except.bind, pure, Except.pure, eq_comm]

theorem decode_optional_eq_ok_iff {get : R → Option α} {set : Option α → R → R} :
    (optional spec c get set).decode f cx claimed r = .ok r' ↔
      ∃ o, decodeClaimed c spec f cx claimed = .ok o ∧ r' = set o r := by
  unfold optional
  dsimp only
  cases decodeClaimed c spec f cx claimed <;> simp [Except.map, eq_comm]

theorem decode_defaulted_eq_ok_iff {absent : α} {get : R → α} {set : α → R → R} :
    (defaulted spec c absent get set).decode f cx claimed r = .ok r' ↔
      ∃ o, decodeClaimed c spec f cx claimed = .ok o ∧ r' = set (o.getD absent) r := by
  unfold defaulted
  dsimp only
  cases decodeClaimed c spec f cx claimed <;> simp [Except.map, eq_comm]

theorem decode_embedded_eq_ok_iff {S : Type} {m : Member R} {get : S → R} {set : R → S → S}
    {s s' : S} :
    (m.embedded get set).decode f cx claimed s = .ok s' ↔
      ∃ r, m.decode f cx claimed (get s) = .ok r ∧ s' = set r s := by
  unfold embedded
  dsimp only
  cases m.decode f cx claimed (get s) <;> simp [Except.map, eq_comm]

/-- A value was read from an entry, or there was no entry. -/
theorem decodeClaimed_eq_ok_iff {o : Option α} :
    decodeClaimed c spec f cx claimed = .ok o ↔
      (claimed = none ∧ o = none) ∨
        ∃ v a, claimed = some v ∧ c.decode f cx v = .ok a ∧ o = some a := by
  cases claimed with
  | none => simp [decodeClaimed, eq_comm]
  | some v =>
    unfold decodeClaimed
    dsimp only
    cases hread : c.decode f cx v <;> simp [hread, Except.map, eq_comm]

end Member

/-- What the first of some members was read from, and what the others start from. -/
theorem takeAll_cons_eq_ok_iff {R : Type} {f : Format} {cx : Context} {m : Member R}
    {rest : List (Member R)} {r : R} {entries : Entries f} {x : R × Entries f} :
    takeAll cx (m :: rest) r entries = .ok x ↔
      ∃ r₁, m.decode f cx (entries.get? m.spec) r = .ok r₁ ∧
        takeAll cx rest r₁ (entries.without m.spec) = .ok x := by
  rw [takeAll]
  cases m.decode f cx (entries.get? m.spec) r <;> simp [bind, Except.bind]

/-- A claim leaves the entries of other fields. -/
theorem Entries.get?_without {f : Format} {spec other : FieldSpec}
    (h : f.keyFor other ≠ f.keyFor spec) (entries : Entries f) :
    (entries.without spec).get? other = entries.get? other := by
  unfold without get?
  rw [List.find?_filter]
  congr 2
  funext e
  by_cases he : e.1 = f.keyFor other
  · simp [he, h]
  · simp [he]

/-! ## Slots -/

/-- A slot that is put into an entity is found there, and nothing else is changed by it. -/
class LawfulHookable (E : Type) [Hookable E] : Prop where
  slot_withSlot : ∀ (e : E) s, Hookable.slot (Hookable.withSlot e s) = s
  withSlot_slot : ∀ e : E, Hookable.withSlot e (Hookable.slot e) = e
  withSlot_withSlot : ∀ (e : E) s t,
    Hookable.withSlot (Hookable.withSlot e s) t = Hookable.withSlot e t

instance : LawfulHookable Comid := ⟨fun _ _ => rfl, fun _ => rfl, fun _ _ _ => rfl⟩

instance : LawfulHookable Entity := ⟨fun _ _ => rfl, fun _ => rfl, fun _ _ _ => rfl⟩

instance : LawfulHookable Triples := ⟨fun _ _ => rfl, fun _ => rfl, fun _ _ _ => rfl⟩

instance : LawfulHookable Mval := ⟨fun _ _ => rfl, fun _ => rfl, fun _ _ _ => rfl⟩

instance : LawfulHookable FlagsMap := ⟨fun _ _ => rfl, fun _ => rfl, fun _ _ _ => rfl⟩

instance : LawfulHookable Corim := ⟨fun _ _ => rfl, fun _ => rfl, fun _ _ _ => rfl⟩

instance : LawfulHookable CorimEntity := ⟨fun _ _ => rfl, fun _ => rfl, fun _ _ _ => rfl⟩

/-- The hook without the values of its fields. -/
def HookOf.blanked {B V : Type} (h : HookOf B V) : HookOf B V :=
  { h with fields := h.fields.map fun cells => cells.map fun c => .blank c.shape }

/-- Two slots hold the same hook, whatever the values of its fields. -/
def Slot.SameHook {B : Type} (s t : Slot B) : Prop :=
  s.map HookOf.blanked = t.map HookOf.blanked

namespace Slot.SameHook

variable {B : Type} {s t u : Slot B}

theorem refl (s : Slot B) : s.SameHook s := rfl

theorem symm (h : s.SameHook t) : t.SameHook s := Eq.symm h

theorem isSome_eq (h : s.SameHook t) : s.isSome = t.isSome := by
  have hsome := congrArg Option.isSome h
  rwa [Option.isSome_map, Option.isSome_map] at hsome

theorem eq_none_of_left (h : SameHook none t) : t = none := by
  have hsome := h.isSome_eq
  cases t with
  | none => rfl
  | some _ => cases hsome

end Slot.SameHook

theorem shapes_of_takeCells {f : Format} {decode : Kind → Raw f → Coded Datum}
    {cells cells' : List (Cell Datum)} {entries left : Entries f}
    (h : takeCells decode cells entries = .ok (cells', left)) :
    cells'.map (·.shape) = cells.map (·.shape) := by
  induction cells generalizing cells' entries left with
  | nil =>
    obtain ⟨rfl, -⟩ := Prod.mk.inj (Except.ok.inj h)
    rfl
  | cons c rest ih =>
    rw [takeCells] at h
    obtain ⟨value, -, h⟩ := exists_of_bind_eq_ok h
    obtain ⟨⟨others, left'⟩, hrest, h⟩ := exists_of_bind_eq_ok h
    obtain ⟨rfl, -⟩ := Prod.mk.inj (Except.ok.inj h)
    rw [List.map_cons, List.map_cons, ih hrest]

/-- Taking fields gives a hook values and changes nothing else. -/
theorem Slot.sameHook_of_take {B : Type} {f : Format} {decode : Kind → Raw f → Coded Datum}
    {s s' : Slot B} {entries left : Entries f} (h : s.take decode entries = .ok (s', left)) :
    s.SameHook s' := by
  cases s with
  | none =>
    obtain ⟨rfl, -⟩ := Prod.mk.inj (Except.ok.inj h)
    rfl
  | some hook =>
    obtain ⟨typeName, constraint, fields, flags⟩ := hook
    cases fields with
    | none =>
      obtain ⟨rfl, -⟩ := Prod.mk.inj (Except.ok.inj h)
      rfl
    | some cells =>
      obtain ⟨⟨cells', left'⟩, htake, h⟩ := exists_of_bind_eq_ok h
      obtain ⟨rfl, -⟩ := Prod.mk.inj (Except.ok.inj h)
      have hblank : cells.map (fun c => Cell.blank (V := Datum) c.shape) =
          cells'.map fun c => .blank c.shape := by
        have hshapes := congrArg (List.map (Cell.blank (V := Datum))) (shapes_of_takeCells htake)
        simpa [Function.comp_def] using hshapes.symm
      show some _ = some _
      simp only [HookOf.blanked, Option.map_some, hblank]

/-! ## Records with a slot -/

/-- Reading a field leaves the slot as it is. -/
def Member.KeepsSlot {E : Type} [Hookable E] (m : Member E) : Prop :=
  ∀ f cx claimed e e', m.decode f cx claimed e = .ok e' → Hookable.slot e' = Hookable.slot e

section KeepsSlot

variable {E α : Type} [Hookable E] {c : FieldCodec α} {spec : FieldSpec}

theorem Member.keepsSlot_required {get : E → α} {set : α → E → E}
    (h : ∀ a e, Hookable.slot (set a e) = Hookable.slot e) :
    (required spec c get set).KeepsSlot := by
  intro f cx claimed e e' hread
  obtain ⟨a, -, rfl⟩ := decode_required_eq_ok_iff.1 hread
  exact h a e

theorem Member.keepsSlot_optional {get : E → Option α} {set : Option α → E → E}
    (h : ∀ a e, Hookable.slot (set a e) = Hookable.slot e) :
    (optional spec c get set).KeepsSlot := by
  intro f cx claimed e e' hread
  obtain ⟨o, -, rfl⟩ := decode_optional_eq_ok_iff.1 hread
  exact h o e

theorem Member.keepsSlot_defaulted {absent : α} {get : E → α} {set : α → E → E}
    (h : ∀ a e, Hookable.slot (set a e) = Hookable.slot e) :
    (defaulted spec c absent get set).KeepsSlot := by
  intro f cx claimed e e' hread
  obtain ⟨o, -, rfl⟩ := decode_defaulted_eq_ok_iff.1 hread
  exact h _ e

theorem Member.keepsSlot_embedded {R : Type} {m : Member R} {get : E → R} {set : R → E → E}
    (h : ∀ r e, Hookable.slot (set r e) = Hookable.slot e) : (m.embedded get set).KeepsSlot := by
  intro f cx claimed e e' hread
  obtain ⟨r, -, rfl⟩ := decode_embedded_eq_ok_iff.1 hread
  exact h r e

/-- Fields that leave the slot alone do so in turn. -/
theorem slot_of_takeAll {f : Format} {cx : Context} {members : List (Member E)} {e e' : E}
    {entries left : Entries f} (hkeeps : ∀ m ∈ members, m.KeepsSlot)
    (h : takeAll cx members e entries = .ok (e', left)) :
    Hookable.slot e' = Hookable.slot e := by
  induction members generalizing e entries with
  | nil =>
    obtain ⟨rfl, -⟩ := Prod.mk.inj (Except.ok.inj h)
    rfl
  | cons m rest ih =>
    obtain ⟨hm, hrest⟩ := List.forall_mem_cons.1 hkeeps
    obtain ⟨e₁, hfirst, h⟩ := takeAll_cons_eq_ok_iff.1 h
    exact (ih hrest h).trans (hm _ _ _ _ _ hfirst)

end KeepsSlot

namespace RecordShape

variable {E : Type} [Hookable E] {s : RecordShape E} {f : Format} {cx : Context} {e e' : E}
  {v : Raw f}

/-- What a record with a slot was read from: its own fields from the entries, and those of its hook
from what they left, which was all of it. -/
theorem decodeAttached_eq_ok_iff :
    s.decodeAttached f cx e v = .ok e' ↔
      ∃ entries r left slot, f.toEntries s.schema.layout v = .ok entries ∧
        takeAll cx s.members e entries = .ok (r, left) ∧
        Slot.take (Datum.decode f cx) (Hookable.slot r) left = .ok (slot, []) ∧
        e' = Hookable.withSlot r slot := by
  unfold decodeAttached decodeExtended decodeWith
  constructor
  · intro h
    obtain ⟨entries, hentries, h⟩ := exists_of_bind_eq_ok h
    obtain ⟨⟨r, left⟩, htake, h⟩ := exists_of_bind_eq_ok h
    obtain ⟨⟨result, rest⟩, hclaim, h⟩ := exists_of_bind_eq_ok h
    obtain ⟨⟨slot, rest'⟩, hslot, hclaim⟩ := exists_of_bind_eq_ok hclaim
    obtain ⟨rfl, rfl⟩ := Prod.mk.inj (Except.ok.inj hclaim)
    obtain ⟨_, hfinish, h⟩ := exists_of_bind_eq_ok h
    obtain rfl := Except.ok.inj h
    cases rest' with
    | nil => exact ⟨entries, r, left, slot, hentries, htake, hslot, rfl⟩
    | cons a rest' => cases hfinish
  · rintro ⟨entries, r, left, slot, hentries, htake, hslot, rfl⟩
    rw [hentries]
    show (takeAll cx s.members e entries).bind _ = _
    rw [htake]
    show ((Slot.take _ _ _).bind _).bind _ = _
    rw [hslot]
    rfl

/-- Reading keeps the hook of a record. -/
theorem sameHook_of_decodeAttached [LawfulHookable E] (hkeeps : ∀ m ∈ s.members, m.KeepsSlot)
    (h : s.decodeAttached f cx e v = .ok e') :
    Slot.SameHook (Hookable.slot e) (Hookable.slot e') := by
  obtain ⟨entries, r, left, slot, -, htake, hslot, rfl⟩ := decodeAttached_eq_ok_iff.1 h
  rw [LawfulHookable.slot_withSlot, ← slot_of_takeAll hkeeps htake]
  exact Slot.sameHook_of_take hslot

end RecordShape

/-! ## Attaching to an empty slot -/

namespace Bundle

variable {b : Bundle} {k : EntityKind} {p : Point} {slot : Slot k.Body}

/-- An empty slot takes the hook of its point as it is. -/
theorem attachTo_none (b : Bundle) (k : EntityKind) (p : Point) :
    b.attachTo k p none = b.hookFor k p := by
  unfold attachTo
  cases b.hookFor k p with
  | error e => rfl
  | ok o => cases o <;> rfl

theorem isSome_of_hookFor (h : b.hookFor k p = .ok slot) : slot.isSome = b.contains p := by
  unfold hookFor at h
  unfold contains
  cases hfind : b.find? p with
  | none =>
    rw [hfind] at h
    obtain rfl := Except.ok.inj h
    rfl
  | some e =>
    rw [hfind] at h
    dsimp only at h
    split at h
    · obtain rfl := Except.ok.inj h
      rfl
    · cases h

/-- What holds of all hooks of a bundle holds of the one that a point gives to a kind. -/
theorem forall_of_hookFor {P : (k : EntityKind) → Hook k.Body → Prop}
    (hall : ∀ e ∈ b.entries, P e.kind e.hook) (h : b.hookFor k p = .ok slot) :
    ∀ hook ∈ slot, P k hook := by
  intro hook hmem
  unfold hookFor at h
  cases hfind : b.find? p with
  | none =>
    rw [hfind] at h
    obtain rfl := Except.ok.inj h
    cases hmem
  | some e =>
    rw [hfind] at h
    dsimp only at h
    by_cases hkind : e.kind = k
    · subst hkind
      rw [dif_pos rfl] at h
      obtain rfl := Except.ok.inj h
      obtain rfl := Option.some.inj hmem
      exact hall e (List.mem_of_find?_eq_some hfind)
    · rw [dif_neg hkind] at h
      cases h

/-- A slot holds the hook that the bundle has at a point, whatever the values of its fields, and is
empty if it has none there. -/
def Serves (b : Bundle) (k : EntityKind) (p : Point) (slot : Slot k.Body) : Prop :=
  ∃ slot₀, b.hookFor k p = .ok slot₀ ∧ Slot.SameHook slot₀ slot

theorem Serves.isSome_eq (h : b.Serves k p slot) : slot.isSome = b.contains p := by
  obtain ⟨slot₀, hfor, hsame⟩ := h
  rw [← hsame.isSome_eq, isSome_of_hookFor hfor]

end Bundle

/-- An entity with an empty slot takes the hook of its position. -/
theorem HookSource.attach_eq_ok_iff {E : Type} [Hookable E] {h : HookSource} {e e' : E}
    (hempty : Hookable.slot e = none) :
    h.attach e = .ok e' ↔ ∃ slot, h.bundle.hookFor (Hookable.kind E)
        (h.pointFor (Hookable.kind E)) = .ok slot ∧ e' = Hookable.withSlot e slot := by
  unfold attach
  rw [hempty, Bundle.attachTo_none]
  cases h.bundle.hookFor (Hookable.kind E) (h.pointFor (Hookable.kind E)) <;>
    simp [Except.map, eq_comm]

theorem HookSource.attachOwn_of_hookFor {E : Type} [Hookable E] {h : HookSource} {e : E}
    {slot : Slot (Hookable.kind E).Body} (hempty : Hookable.slot e = none)
    (hfor : h.bundle.hookFor (Hookable.kind E) (h.pointFor (Hookable.kind E)) = .ok slot) :
    h.attachOwn e = ⟨Hookable.withSlot e slot, none⟩ := by
  have hattach : h.attach e = .ok (Hookable.withSlot e slot) :=
    (attach_eq_ok_iff hempty).2 ⟨slot, hfor, rfl⟩
  rw [attachOwn, hattach, Attached.ofExcept_ok]

theorem Coded.of_ofHook {α : Type} {x : Except HookRefusal α} {a : α}
    (h : Coded.ofHook x = .ok a) : x = .ok a := by
  cases x with
  | error e => cases h
  | ok b => exact congrArg Except.ok (Except.ok.inj h)

/-- A record of a type that carries a hook is read from a blank one with its hooks attached. -/
theorem RecordShape.decode_extended_eq_ok_iff {E : Type} [Hookable E] [Attachable E]
    {s : RecordShape E} {f : Format} {cx : Context} {blank e : E} {v : Raw f} :
    (s.extended blank).decode f cx v = .ok e ↔
      ∃ e₀, cx.attach blank = .ok e₀ ∧ s.decodeAttached f cx e₀ v = .ok e := by
  constructor
  · intro h
    obtain ⟨e₀, hattach, h⟩ := exists_of_bind_eq_ok h
    exact ⟨e₀, Coded.of_ofHook hattach, h⟩
  · rintro ⟨e₀, hattach, h⟩
    show (Coded.ofHook (cx.attach blank)).bind _ = _
    rw [hattach]
    exact h

end Rim
