import Rim.Proofs.Hook.Graft
import Rim.Proofs.Hook.Inert
import Rim.Proofs.Record.Grafts
/-!
# Records with inert hooks on the wire

An inert hook writes nothing and claims nothing.  So a record is written as its bare form is, and
reading with inert hooks differs from reading without hooks only in what is then in the slots: one
succeeds exactly if the other does, with the same bare form, and both fail alike.

## Main definitions

* `FieldCodec.WritesBare`, `Member.WritesBare`: a value and its bare form are written the same.
* `FieldCodec.ReadsBare`, `Member.ReadsBare`: reading with hooks and taking the bare form comes to
  reading without hooks.
* `Bundle.Inert`: bundles of inert hooks.

## Main results

* `RecordShape.writesBare_holding`, `RecordShape.writesBare_extended`: writing records.
* `RecordShape.readsBare_holding`, `RecordShape.readsBare_extended`: reading records.
-/

namespace Rim

variable {α R E : Type} {bare : α → α}

/-! ## Writing -/

/-- A value is written as its bare form is. -/
structure FieldCodec.WritesBare (c : FieldCodec α) (bare : α → α) : Prop where
  encode : ∀ f a, c.encode f (bare a) = c.encode f a
  isEmpty : ∀ a, c.isEmpty (bare a) = c.isEmpty a

/-- A member writes the same of a record and of its bare form. -/
def Member.WritesBare (m : Member R) (bare : R → R) : Prop :=
  ∀ f r, m.encode f (bare r) = m.encode f r

section Writing

variable {c : FieldCodec α} {spec : FieldSpec} {f : Format} {bareRecord : R → R}

/-- A list writes what it writes without inert hooks. -/
theorem FieldCodec.WritesBare.list (hc : c.WritesBare bare) :
    (FieldCodec.list c).WritesBare (List.map bare) where
  encode f items := by
    unfold FieldCodec.list
    dsimp only
    rw [encodeItems_map fun a _ => hc.encode f a]
  isEmpty _ := List.isEmpty_map

theorem FieldCodec.WritesBare.under (hc : c.WritesBare bare) (standIns : List StandIn) :
    (FieldCodec.under standIns c).WritesBare bare :=
  ⟨hc.encode, hc.isEmpty⟩

theorem FieldCodec.WritesBare.encodeUnlessEmpty (hc : c.WritesBare bare) (a : α) :
    Member.encodeUnlessEmpty c spec f (bare a) = Member.encodeUnlessEmpty c spec f a := by
  unfold Member.encodeUnlessEmpty
  rw [hc.encode, hc.isEmpty]

theorem Member.writesBare_required {get : R → α} {set : α → R → R} (hc : c.WritesBare bare)
    (hget : ∀ r, get (bareRecord r) = bare (get r)) :
    (required spec c get set).WritesBare bareRecord := by
  intro f r
  unfold required
  dsimp only
  rw [hget, hc.encodeUnlessEmpty]

theorem Member.writesBare_defaulted {absent : α} {get : R → α} {set : α → R → R}
    (hc : c.WritesBare bare) (hget : ∀ r, get (bareRecord r) = bare (get r)) :
    (defaulted spec c absent get set).WritesBare bareRecord := by
  intro f r
  unfold defaulted
  dsimp only
  rw [hget, hc.encodeUnlessEmpty]

theorem Member.writesBare_optional {get : R → Option α} {set : Option α → R → R}
    (hc : c.WritesBare bare) (hget : ∀ r, get (bareRecord r) = (get r).map bare) :
    (optional spec c get set).WritesBare bareRecord := by
  intro f r
  unfold optional
  dsimp only
  rw [hget]
  cases get r with
  | none => rfl
  | some a => exact hc.encodeUnlessEmpty a

/-- An inert hook writes no fields. -/
theorem Slot.puts_bare {B : Type} (f : Format) (s : Slot B) :
    Slot.puts f (Slot.bare s) = Slot.puts f s := by
  rcases Slot.bare_eq_or s with hbare | ⟨h, rfl, hinert, hbare⟩
  · rw [hbare]
  · rw [hbare]
    show _ = (Hook.cells h).filterMap _
    rw [Hook.cells_of_isInert hinert]
    rfl

namespace RecordShape

theorem puts_bare {s : RecordShape R} (hmembers : ∀ m ∈ s.members, m.WritesBare bareRecord)
    (f : Format) (r : R) : s.puts f (bareRecord r) = s.puts f r := by
  unfold puts
  apply List.filterMap_congr
  intro m hm
  rw [Member.put?, Member.put?, hmembers m hm]

theorem encode_bare {s : RecordShape R} (hmembers : ∀ m ∈ s.members, m.WritesBare bareRecord)
    (f : Format) (r : R) : s.encode f (bareRecord r) = s.encode f r := by
  rw [encode, encode, encodeWith, encodeWith, puts_bare hmembers]

theorem encodeExtended_bare [Hookable E] {s : RecordShape E} {bare : E → E}
    (hmembers : ∀ m ∈ s.members, m.WritesBare bare)
    (hslot : ∀ e, Hookable.slot (bare e) = Slot.bare (Hookable.slot e)) (f : Format) (e : E) :
    s.encodeExtended f (bare e) = s.encodeExtended f e := by
  rw [encodeExtended, encodeExtended, encodeWith, encodeWith, puts_bare hmembers, hslot,
    Slot.puts_bare]

/-- A record that holds records with hooks is written as it is without inert ones. -/
theorem writesBare_holding [Attachable R] {s : RecordShape R}
    (hmembers : ∀ m ∈ s.members, m.WritesBare bareRecord) (blank : R) :
    (s.holding blank).WritesBare bareRecord :=
  ⟨encode_bare hmembers, fun _ => rfl⟩

/-- A record that carries a hook is written as it is without an inert one. -/
theorem writesBare_extended [Hookable E] [Attachable E] {s : RecordShape E} {bare : E → E}
    (hmembers : ∀ m ∈ s.members, m.WritesBare bare)
    (hslot : ∀ e, Hookable.slot (bare e) = Slot.bare (Hookable.slot e)) (blank : E) :
    (s.extended blank).WritesBare bare :=
  ⟨encodeExtended_bare hmembers hslot, fun _ => rfl⟩

end RecordShape

end Writing

/-! ## Reading -/

/-- Reading with the hooks of a position and taking the bare form comes to reading without hooks. -/
def FieldCodec.ReadsBare (c : FieldCodec α) (f : Format) (catalogs : Catalogs) (h : HookSource)
    (bare : α → α) : Prop :=
  ∀ v, (c.decode f ⟨catalogs, some h⟩ v).map bare = c.decode f ⟨catalogs, none⟩ v

/-- Taking a field with the hooks of a position and then the bare form comes to taking it into the
bare record without hooks. -/
def Member.ReadsBare (m : Member R) (f : Format) (catalogs : Catalogs) (h : HookSource)
    (bare : R → R) : Prop :=
  ∀ claimed r, (m.decode f ⟨catalogs, some h⟩ claimed r).map bare =
    m.decode f ⟨catalogs, none⟩ claimed (bare r)

section Reading

variable {c : FieldCodec α} {spec : FieldSpec} {f : Format} {catalogs : Catalogs} {h : HookSource}
  {bareRecord : R → R}

theorem Coded.map_underField {α β : Type} (name : String) (x : Coded α) (g : α → β) :
    (Coded.underField name x).map g = Coded.underField name (x.map g) := by
  cases x <;> rfl

theorem Coded.map_underIndex {α β : Type} (index : Nat) (x : Coded α) (g : α → β) :
    (Coded.underIndex index x).map g = Coded.underIndex index (x.map g) := by
  cases x <;> rfl

theorem FieldCodec.IgnoresHooks.readsBare (hc : c.IgnoresHooks) :
    c.ReadsBare f catalogs h id := by
  intro v
  rw [hc]
  cases c.decode f ⟨catalogs, none⟩ v <;> rfl

theorem encodeItems_readsBare {read read' : Raw f → Coded α}
    (hitem : ∀ v, (read v).map bare = read' v) (index : Nat) (items : List (Raw f)) :
    (encodeItems read index items).map (List.map bare) = encodeItems read' index items := by
  induction items generalizing index with
  | nil => rfl
  | cons v rest ih =>
    have hfirst : (Coded.underIndex index (read v)).map bare =
        Coded.underIndex index (read' v) := by
      rw [Coded.map_underIndex, hitem]
    refine map_bind_eq_bind hfirst fun a => ?_
    exact map_bind_eq_bind (ih (index + 1)) fun as => rfl

/-- A list is read as it is without inert hooks. -/
theorem FieldCodec.ReadsBare.list (hc : c.ReadsBare f catalogs h bare) :
    (FieldCodec.list c).ReadsBare f catalogs h (List.map bare) :=
  fun _ => map_bind_congr fun items => encodeItems_readsBare hc 0 items

theorem FieldCodec.ReadsBare.under {standIns : List StandIn}
    (hc : c.ReadsBare f catalogs (h.withStandIns standIns) bare) :
    (FieldCodec.under standIns c).ReadsBare f catalogs h bare := hc

theorem FieldCodec.ReadsBare.decodeClaimed (hc : c.ReadsBare f catalogs h bare)
    (claimed : Option (Raw f)) :
    (Member.decodeClaimed c spec f ⟨catalogs, some h⟩ claimed).map (Option.map bare) =
      Member.decodeClaimed c spec f ⟨catalogs, none⟩ claimed := by
  cases claimed with
  | none => rfl
  | some v =>
    show ((Coded.underField spec.name _).map some).map (Option.map bare) =
      (Coded.underField spec.name _).map some
    rw [← hc v, ← Coded.map_underField]
    cases Coded.underField spec.name (c.decode f ⟨catalogs, some h⟩ v) <;> rfl

theorem Member.readsBare_required {get : R → α} {set : α → R → R}
    (hc : c.ReadsBare f catalogs h bare)
    (hset : ∀ a r, bareRecord (set a r) = set (bare a) (bareRecord r)) :
    (required spec c get set).ReadsBare f catalogs h bareRecord := by
  intro claimed r
  refine map_bind_eq_bind (hc.decodeClaimed claimed) fun o => ?_
  cases o with
  | none => rfl
  | some a => exact congrArg Except.ok (hset a r)

theorem Member.readsBare_optional {get : R → Option α} {set : Option α → R → R}
    (hc : c.ReadsBare f catalogs h bare)
    (hset : ∀ o r, bareRecord (set o r) = set (o.map bare) (bareRecord r)) :
    (optional spec c get set).ReadsBare f catalogs h bareRecord := by
  intro claimed r
  show ((decodeClaimed c spec f ⟨catalogs, some h⟩ claimed).map _).map bareRecord =
    (decodeClaimed c spec f ⟨catalogs, none⟩ claimed).map _
  rw [← hc.decodeClaimed claimed]
  cases decodeClaimed c spec f ⟨catalogs, some h⟩ claimed with
  | error e => rfl
  | ok o => exact congrArg Except.ok (hset o r)

/-- A field with a value to stand for its absence is read as it is without inert hooks. -/
theorem Member.readsBare_defaulted {absent : α} {get : R → α} {set : α → R → R}
    (hc : c.ReadsBare f catalogs h bare) (habsent : bare absent = absent)
    (hset : ∀ a r, bareRecord (set a r) = set (bare a) (bareRecord r)) :
    (defaulted spec c absent get set).ReadsBare f catalogs h bareRecord := by
  intro claimed r
  show ((decodeClaimed c spec f ⟨catalogs, some h⟩ claimed).map _).map bareRecord =
    (decodeClaimed c spec f ⟨catalogs, none⟩ claimed).map _
  rw [← hc.decodeClaimed claimed]
  cases decodeClaimed c spec f ⟨catalogs, some h⟩ claimed with
  | error e => rfl
  | ok o =>
    refine congrArg Except.ok ((hset _ r).trans ?_)
    cases o with
    | none => exact congrArg (set · (bareRecord r)) habsent
    | some a => rfl

/-! A value of a codec that ignores the hooks has no bare form but itself. -/

theorem Member.readsBare_required_of_ignores {get : R → α} {set : α → R → R}
    (hc : c.IgnoresHooks) (hset : ∀ a r, bareRecord (set a r) = set a (bareRecord r)) :
    (required spec c get set).ReadsBare f catalogs h bareRecord :=
  readsBare_required hc.readsBare hset

theorem Member.readsBare_optional_of_ignores {get : R → Option α} {set : Option α → R → R}
    (hc : c.IgnoresHooks) (hset : ∀ o r, bareRecord (set o r) = set o (bareRecord r)) :
    (optional spec c get set).ReadsBare f catalogs h bareRecord := by
  refine readsBare_optional hc.readsBare fun o r => ?_
  rw [Option.map_id]
  exact hset o r

theorem Member.readsBare_defaulted_of_ignores {absent : α} {get : R → α} {set : α → R → R}
    (hc : c.IgnoresHooks) (hset : ∀ a r, bareRecord (set a r) = set a (bareRecord r)) :
    (defaulted spec c absent get set).ReadsBare f catalogs h bareRecord :=
  readsBare_defaulted hc.readsBare rfl hset

/-- A record that is embedded in another one and has no slot is read as on its own. -/
theorem Member.readsBare_embedded {S : Type} {m : Member S} {get : R → S} {set : S → R → R}
    (hm : m.IgnoresHooks) (hget : ∀ r, get (bareRecord r) = get r)
    (hset : ∀ s r, bareRecord (set s r) = set s (bareRecord r)) :
    (m.embedded get set).ReadsBare f catalogs h bareRecord := by
  intro claimed r
  show ((m.decode f ⟨catalogs, some h⟩ claimed (get r)).map _).map bareRecord =
    (m.decode f ⟨catalogs, none⟩ claimed (get (bareRecord r))).map _
  rw [hm, hget]
  cases m.decode f ⟨catalogs, none⟩ claimed (get r) with
  | error e => rfl
  | ok s => exact congrArg Except.ok (hset s r)

/-- The members claim the same entries, so the same are left for whoever comes next.  By induction
on the members, for any record and entries: each run goes on with its own record. -/
theorem takeAll_readsBare {members : List (Member R)}
    (hmembers : ∀ m ∈ members, m.ReadsBare f catalogs h bareRecord) (r : R) (entries : Entries f) :
    (takeAll ⟨catalogs, some h⟩ members r entries).map (Prod.map bareRecord id) =
      takeAll ⟨catalogs, none⟩ members (bareRecord r) entries := by
  induction members generalizing r entries with
  | nil => rfl
  | cons m rest ih =>
    obtain ⟨hm, hrest⟩ := List.forall_mem_cons.1 hmembers
    exact map_bind_eq_bind (hm _ r) fun r' => ih hrest r' _

/-- A required field is taken into a changed record as into the record before the change. -/
theorem Member.decode_required_changed {get : R → α} {set : α → R → R} {cx : Context} {u : R → R}
    (hset : ∀ a r, set a (u r) = u (set a r)) (claimed : Option (Raw f)) (r : R) :
    (required spec c get set).decode f cx claimed (u r) =
      ((required spec c get set).decode f cx claimed r).map u := by
  unfold required
  dsimp only
  cases decodeClaimed c spec f cx claimed with
  | error e => rfl
  | ok o =>
    cases o with
    | none => rfl
    | some a => exact congrArg Except.ok (hset a r)

/-- A change that a member passes on and the members after it undo does not matter. -/
theorem takeAll_changed {m : Member R} {rest : List (Member R)} {cx : Context} {u : R → R}
    (hm : ∀ claimed r, m.decode f cx claimed (u r) = (m.decode f cx claimed r).map u)
    (hrest : ∀ r (entries : Entries f), takeAll cx rest (u r) entries = takeAll cx rest r entries)
    (r : R) (entries : Entries f) :
    takeAll cx (m :: rest) (u r) entries = takeAll cx (m :: rest) r entries := by
  rw [takeAll, takeAll, hm]
  cases m.decode f cx (entries.get? m.spec) r with
  | error e => rfl
  | ok r' => exact hrest r' _

/-! ## Records -/

namespace RecordShape

/-- A record is read as it is without inert hooks.  What is left over is the same, so it is an error
in both runs or in neither. -/
theorem decode_readsBare {s : RecordShape R}
    (hmembers : ∀ m ∈ s.members, m.ReadsBare f catalogs h bareRecord) (r : R) (v : Raw f) :
    (s.decode f ⟨catalogs, some h⟩ r v).map bareRecord =
      s.decode f ⟨catalogs, none⟩ (bareRecord r) v := by
  refine map_bind_congr fun entries => ?_
  refine map_bind_eq_bind (takeAll_readsBare hmembers r entries) fun (r', left) => ?_
  show ((Entries.finish s.schema.entity left).bind _).map bareRecord =
    (Entries.finish s.schema.entity left).bind _
  exact map_bind_congr fun _ => rfl

/-- A record that holds records with hooks is read as it is without inert ones. -/
theorem readsBare_holding [Attachable R] {s : RecordShape R} {blank fresh : R}
    (hmembers : ∀ m ∈ s.members, m.ReadsBare f catalogs h bareRecord)
    (hattach : Attachable.attach h blank = ⟨fresh, none⟩) (hfresh : bareRecord fresh = blank) :
    (s.holding blank).ReadsBare f catalogs h bareRecord := by
  intro v
  show ((Coded.ofHook (Attachable.attach h blank).toExcept).bind _).map bareRecord =
    s.decode f ⟨catalogs, none⟩ blank v
  rw [hattach, ← hfresh]
  exact decode_readsBare hmembers fresh v

section

variable [Hookable E] [LawfulHookable E] {s : RecordShape E} {bare : E → E}

/-- An entity whose slot is empty or holds an inert hook takes its own fields and no others.  The
slot is still the one that the record began with, so nothing is claimed for it. -/
theorem decodeAttached_of_bare (hkeeps : ∀ m ∈ s.members, m.KeepsSlot) {cx : Context} {e : E}
    (hbare : Slot.bare (Hookable.slot e) = none) (v : Raw f) :
    s.decodeAttached f cx e v = s.decode f cx e v := by
  have htake : ∀ left : Entries f, Slot.take (Datum.decode f cx) (Hookable.slot e) left =
      .ok (Hookable.slot e, left) := by
    intro left
    rcases Slot.bare_eq_or (Hookable.slot e) with hslot | ⟨hook, hslot, hinert, -⟩
    · rw [← hslot, hbare]
      rfl
    · obtain ⟨-, hfields, -⟩ := HookOf.isInert_iff.1 hinert
      rw [hslot]
      simp only [Slot.take, hfields]
  unfold decodeAttached decodeExtended decode decodeWith
  dsimp only
  congr 1
  funext entries
  cases hread : takeAll cx s.members e entries with
  | error cause => rfl
  | ok taken =>
    obtain ⟨e', left⟩ := taken
    have hslot : Hookable.slot e' = Hookable.slot e := slot_of_takeAll hkeeps hread
    show ((Slot.take (Datum.decode f cx) (Hookable.slot e') left).bind _).bind _ = _
    rw [hslot, htake, ← hslot]
    show (Entries.finish s.schema.entity left).bind
      (fun _ => .ok (Hookable.withSlot e' (Hookable.slot e'))) = _
    rw [LawfulHookable.withSlot_slot]
    rfl

theorem decodeAttached_readsBare (hkeeps : ∀ m ∈ s.members, m.KeepsSlot)
    (hmembers : ∀ m ∈ s.members, m.ReadsBare f catalogs h bare)
    (hslot : ∀ e, Hookable.slot (bare e) = Slot.bare (Hookable.slot e)) {e : E}
    (hbare : Slot.bare (Hookable.slot e) = none) (v : Raw f) :
    (s.decodeAttached f ⟨catalogs, some h⟩ e v).map bare =
      s.decodeAttached f ⟨catalogs, none⟩ (bare e) v := by
  have hnone : Hookable.slot (bare e) = none := (hslot e).trans hbare
  rw [decodeAttached_of_bare hkeeps hbare,
    decodeAttached_of_bare hkeeps (congrArg Slot.bare hnone), decode_readsBare hmembers]

/-- A record that carries a hook is read as it is without an inert one. -/
theorem readsBare_extended [Attachable E] {blank fresh : E}
    (hkeeps : ∀ m ∈ s.members, m.KeepsSlot)
    (hmembers : ∀ m ∈ s.members, m.ReadsBare f catalogs h bare)
    (hslot : ∀ e, Hookable.slot (bare e) = Slot.bare (Hookable.slot e))
    (hblank : Hookable.slot blank = none)
    (hattach : Attachable.attach h blank = ⟨fresh, none⟩) (hfresh : bare fresh = blank) :
    (s.extended blank).ReadsBare f catalogs h bare := by
  intro v
  show ((Coded.ofHook (Attachable.attach h blank).toExcept).bind _).map bare =
    s.decodeAttached f ⟨catalogs, none⟩ blank v
  have hbare : Slot.bare (Hookable.slot fresh) = none := by
    rw [← hslot, hfresh, hblank]
  rw [hattach, ← hfresh]
  exact decodeAttached_readsBare hkeeps hmembers hslot hbare v

end

end RecordShape

end Reading

/-! ## Bundles of inert hooks -/

/-- Every hook of a bundle is inert. -/
def Bundle.Inert (b : Bundle) : Prop := ∀ e ∈ b.entries, e.hook.isInert = true

/-- What a slot takes from a bundle of inert hooks is nothing in the bare form. -/
theorem HookSource.bare_slotFor {h : HookSource} (hinert : h.bundle.Inert) (k : EntityKind) :
    Slot.bare (h.slotFor k) = none := by
  unfold slotFor
  cases hfor : h.bundle.hookFor k (h.pointFor k) with
  | error refusal => rfl
  | ok slot =>
    cases slot with
    | none => rfl
    | some hook =>
      exact Slot.bare_of_isInert (Bundle.forall_of_hookFor
        (P := fun _ hook => hook.isInert = true) hinert hfor hook rfl)

end Rim
