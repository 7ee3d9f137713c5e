import Rim.Proofs.Hook.Graft
/-!
# Reading with hooks

A record that reads to its end without hooks leaves nothing for a hook to take.  Read again with
hooks whose fields are all optional and rest at what their absence stands for, it therefore is the
same record with the hooks of its position on it.  This is shown codec by codec and member by
member, by a relation between what the two readings find.

## Main definitions

* `Cell.AtRest`, `Bundle.AtRest`: fields that hold what their absence stands for.
* `FieldCodec.Grafts`, `Member.Grafts`: reading with hooks grafts them.
* `FieldCodec.IgnoresHooks`: reading does not look at the hooks at all.

## Main results

* `FieldCodec.grafts_list`, `FieldCodec.grafts_under`: codecs made of others.
* `Member.grafts_required` and its like: members.
* `RecordShape.grafts_extended`, `RecordShape.grafts_holding`: records.
-/

namespace Rim

/-! ## Hooks at rest

A field that is optional and has no value is at rest.  So is a defaulted one with its default. -/

/-- An optional field that holds what its absence stands for. -/
def Cell.AtRest (c : Cell Datum) : Prop :=
  c.shape.spec.isOptional = true ∧ c.shape.absent = .ok c.value

/-- An optional field without a value is at rest, unless its absence stands for a value. -/
theorem Cell.atRest_blank {shape : FieldShape} (hoptional : shape.spec.isOptional = true)
    (hplain : shape.defaulted = false) : (Cell.blank shape : Cell Datum).AtRest := by
  refine ⟨hoptional, ?_⟩
  simp [FieldShape.absent, blank, hoptional, hplain]

/-- All fields of a hook are at rest. -/
def Hook.AtRest {B : Type} (h : Hook B) : Prop := ∀ c ∈ Hook.cells h, c.AtRest

/-- The hook of a slot is at rest, if it has one. -/
def Slot.AtRest {B : Type} (s : Slot B) : Prop := ∀ h ∈ s, Hook.AtRest h

/-- All hooks of a bundle are at rest. -/
def Bundle.AtRest (b : Bundle) : Prop := ∀ e ∈ b.entries, Hook.AtRest e.hook

/-- Fields at rest take nothing from nothing. -/
theorem takeCells_nil {f : Format} {decode : Kind → Raw f → Coded Datum}
    {cells : List (Cell Datum)} (hrest : ∀ c ∈ cells, c.AtRest) :
    takeCells decode cells ([] : Entries f) = .ok (cells, []) := by
  induction cells with
  | nil => rfl
  | cons c cells ih =>
    obtain ⟨hc, hcells⟩ := List.forall_mem_cons.1 hrest
    have hvalue : takeCell decode c.shape (Entries.get? ([] : Entries f) c.shape.spec) =
        .ok c.value := hc.2
    rw [takeCells, hvalue]
    show (takeCells decode cells ([] : Entries f)).bind _ = _
    rw [ih hcells]
    rfl

/-- A slot at rest takes nothing from nothing. -/
theorem Slot.take_nil {B : Type} {f : Format} {decode : Kind → Raw f → Coded Datum} {s : Slot B}
    (hrest : s.AtRest) : s.take decode ([] : Entries f) = .ok (s, []) := by
  cases s with
  | none => rfl
  | some h =>
    obtain ⟨typeName, constraint, fields, flags⟩ := h
    cases fields with
    | none => rfl
    | some cells =>
      have hcells : ∀ c ∈ cells, c.AtRest := hrest _ rfl
      show (takeCells decode cells ([] : Entries f)).bind _ = _
      rw [takeCells_nil hcells]
      rfl

/-- What a slot takes from a bundle at rest is at rest. -/
theorem HookSource.slotFor_atRest {h : HookSource} (hrest : h.bundle.AtRest) (k : EntityKind) :
    Slot.AtRest (h.slotFor k) := by
  unfold slotFor
  cases hfor : h.bundle.hookFor k (h.pointFor k) with
  | error refusal =>
    intro hook hmem
    cases hmem
  | ok slot => exact Bundle.forall_of_hookFor (P := fun _ hook => Hook.AtRest hook) hrest hfor

/-! ## Codecs

The two readings differ in their hooks only. -/

section Codecs

variable {α : Type} {c : FieldCodec α} {f : Format} {catalogs : Catalogs} {h : HookSource}
  {P : α → Prop} {graft : α → α}

/-- What is read without hooks has a property, and is read with hooks as itself after grafting. -/
def FieldCodec.Grafts (c : FieldCodec α) (f : Format) (catalogs : Catalogs) (h : HookSource)
    (P : α → Prop) (graft : α → α) : Prop :=
  ∀ v a, c.decode f ⟨catalogs, none⟩ v = .ok a →
    P a ∧ c.decode f ⟨catalogs, some h⟩ v = .ok (graft a)

/-- Reading does not look at the hooks. -/
def FieldCodec.IgnoresHooks (c : FieldCodec α) : Prop :=
  ∀ f catalogs hooks, c.decode f ⟨catalogs, hooks⟩ = c.decode f ⟨catalogs, none⟩

theorem FieldCodec.IgnoresHooks.grafts (hc : c.IgnoresHooks) :
    c.Grafts f catalogs h (fun _ => True) id := by
  intro v a hread
  refine ⟨trivial, ?_⟩
  rw [hc]
  exact hread

theorem encodeItems_grafts {read read' : Raw f → Coded α}
    (hitem : ∀ v a, read v = .ok a → P a ∧ read' v = .ok (graft a)) {items : List (Raw f)}
    {as : List α} {index : Nat} (hread : encodeItems read index items = .ok as) :
    (∀ a ∈ as, P a) ∧ encodeItems read' index items = .ok (as.map graft) := by
  induction items generalizing as index with
  | nil =>
    obtain rfl := Except.ok.inj hread
    exact ⟨fun a ha => (List.not_mem_nil ha).elim, rfl⟩
  | cons v rest ih =>
    rw [encodeItems] at hread
    obtain ⟨a, ha, hread⟩ := exists_of_bind_eq_ok hread
    obtain ⟨others, hothers, hread⟩ := exists_of_bind_eq_ok hread
    obtain rfl := Except.ok.inj hread
    have ha : read v = .ok a := by
      cases hv : read v with
      | error e =>
        rw [hv] at ha
        cases ha
      | ok b =>
        rw [hv] at ha
        exact ha
    obtain ⟨hP, hgraft⟩ := hitem v a ha
    obtain ⟨hPs, hgrafts⟩ := ih hothers
    refine ⟨List.forall_mem_cons.2 ⟨hP, hPs⟩, ?_⟩
    rw [encodeItems, hgraft]
    show (encodeItems read' (index + 1) rest).bind _ = _
    rw [hgrafts]
    rfl

/-- The items of a list are grafted one by one. -/
theorem FieldCodec.grafts_list (hc : c.Grafts f catalogs h P graft) :
    (list c).Grafts f catalogs h (fun as => ∀ a ∈ as, P a) (List.map graft) := by
  intro v as hread
  obtain ⟨items, hitems, hread⟩ := exists_of_bind_eq_ok hread
  obtain ⟨hP, hgrafts⟩ := encodeItems_grafts hc hread
  refine ⟨hP, ?_⟩
  show (f.toList v).bind _ = _
  rw [hitems]
  exact hgrafts

/-- Where other stand-ins are in force the hooks of those are grafted. -/
theorem FieldCodec.grafts_under {standIns : List StandIn}
    (hc : c.Grafts f catalogs (h.withStandIns standIns) P graft) :
    (under standIns c).Grafts f catalogs h P graft := hc

theorem FieldCodec.IgnoresHooks.list (hc : c.IgnoresHooks) : (FieldCodec.list c).IgnoresHooks := by
  intro f catalogs hooks
  funext v
  show (f.toList v).bind (encodeItems (c.decode f ⟨catalogs, hooks⟩) 0) = _
  rw [hc]
  rfl

end Codecs

/-! ## Members

Putting in what was read must agree with grafting: what is put into a grafted record is the grafted
value, and the record so made is the grafted one. -/

section Members

variable {R α : Type} {c : FieldCodec α} {spec : FieldSpec} {f : Format} {catalogs : Catalogs}
  {h : HookSource} {P : R → Prop} {Q : α → Prop} {graft : R → R} {graftValue : α → α}

/-- Taking a field keeps a property of records, and a grafted record takes the field grafted. -/
def Member.Grafts (m : Member R) (f : Format) (catalogs : Catalogs) (h : HookSource)
    (P : R → Prop) (graft : R → R) : Prop :=
  ∀ claimed r r', P r → m.decode f ⟨catalogs, none⟩ claimed r = .ok r' →
    P r' ∧ m.decode f ⟨catalogs, some h⟩ claimed (graft r) = .ok (graft r')

theorem FieldCodec.Grafts.decodeClaimed (hc : c.Grafts f catalogs h Q graftValue)
    {claimed : Option (Raw f)} {o : Option α}
    (hread : Member.decodeClaimed c spec f ⟨catalogs, none⟩ claimed = .ok o) :
    (∀ a ∈ o, Q a) ∧
      Member.decodeClaimed c spec f ⟨catalogs, some h⟩ claimed = .ok (o.map graftValue) := by
  rcases Member.decodeClaimed_eq_ok_iff.1 hread with ⟨rfl, rfl⟩ | ⟨v, a, rfl, hv, rfl⟩
  · exact ⟨fun a ha => absurd ha (Option.not_mem_none a), rfl⟩
  · obtain ⟨hQ, hgraft⟩ := hc v a hv
    refine ⟨fun b hb => Option.some.inj hb ▸ hQ, ?_⟩
    exact Member.decodeClaimed_eq_ok_iff.2 (.inr ⟨v, _, rfl, hgraft, rfl⟩)

theorem Member.grafts_required {get : R → α} {set : α → R → R}
    (hc : c.Grafts f catalogs h Q graftValue)
    (hset : ∀ a r, Q a → P r → P (set a r) ∧ graft (set a r) = set (graftValue a) (graft r)) :
    (required spec c get set).Grafts f catalogs h P graft := by
  intro claimed r r' hP hread
  obtain ⟨a, ha, rfl⟩ := decode_required_eq_ok_iff.1 hread
  obtain ⟨hQ, hgraft⟩ := hc.decodeClaimed ha
  obtain ⟨hP', hcomm⟩ := hset a r (hQ a rfl) hP
  exact ⟨hP', decode_required_eq_ok_iff.2 ⟨_, hgraft, hcomm⟩⟩

theorem Member.grafts_optional {get : R → Option α} {set : Option α → R → R}
    (hc : c.Grafts f catalogs h Q graftValue)
    (hset : ∀ o r, (∀ a ∈ o, Q a) → P r →
      P (set o r) ∧ graft (set o r) = set (o.map graftValue) (graft r)) :
    (optional spec c get set).Grafts f catalogs h P graft := by
  intro claimed r r' hP hread
  obtain ⟨o, ho, rfl⟩ := decode_optional_eq_ok_iff.1 hread
  obtain ⟨hQ, hgraft⟩ := hc.decodeClaimed ho
  obtain ⟨hP', hcomm⟩ := hset o r hQ hP
  exact ⟨hP', decode_optional_eq_ok_iff.2 ⟨_, hgraft, hcomm⟩⟩

/-- What the absence of a field stands for must not change by grafting. -/
theorem Member.grafts_defaulted {absent : α} {get : R → α} {set : α → R → R}
    (hc : c.Grafts f catalogs h Q graftValue) (habsent : Q absent ∧ graftValue absent = absent)
    (hset : ∀ a r, Q a → P r → P (set a r) ∧ graft (set a r) = set (graftValue a) (graft r)) :
    (defaulted spec c absent get set).Grafts f catalogs h P graft := by
  intro claimed r r' hP hread
  obtain ⟨o, ho, rfl⟩ := decode_defaulted_eq_ok_iff.1 hread
  obtain ⟨hQ, hgraft⟩ := hc.decodeClaimed ho
  have hvalue : Q (o.getD absent) ∧
      (o.map graftValue).getD absent = graftValue (o.getD absent) := by
    cases o with
    | none => exact ⟨habsent.1, habsent.2.symm⟩
    | some a => exact ⟨hQ a rfl, rfl⟩
  obtain ⟨hP', hcomm⟩ := hset _ r hvalue.1 hP
  refine ⟨hP', decode_defaulted_eq_ok_iff.2 ⟨_, hgraft, ?_⟩⟩
  rw [hvalue.2]
  exact hcomm

/-! A value of a codec that ignores the hooks is put into a grafted record as it is. -/

theorem Member.grafts_required_of_ignores {get : R → α} {set : α → R → R} (hc : c.IgnoresHooks)
    (hset : ∀ a r, P r → P (set a r) ∧ graft (set a r) = set a (graft r)) :
    (required spec c get set).Grafts f catalogs h P graft :=
  grafts_required hc.grafts fun a r _ => hset a r

theorem Member.grafts_optional_of_ignores {get : R → Option α} {set : Option α → R → R}
    (hc : c.IgnoresHooks)
    (hset : ∀ o r, P r → P (set o r) ∧ graft (set o r) = set o (graft r)) :
    (optional spec c get set).Grafts f catalogs h P graft := by
  refine grafts_optional hc.grafts fun o r _ hP => ?_
  rw [Option.map_id]
  exact hset o r hP

theorem Member.grafts_defaulted_of_ignores {absent : α} {get : R → α} {set : α → R → R}
    (hc : c.IgnoresHooks)
    (hset : ∀ a r, P r → P (set a r) ∧ graft (set a r) = set a (graft r)) :
    (defaulted spec c absent get set).Grafts f catalogs h P graft :=
  grafts_defaulted hc.grafts ⟨trivial, rfl⟩ fun a r _ => hset a r

/-- A record that is embedded in another one and has no slot is read as on its own. -/
theorem Member.grafts_embedded {S : Type} {m : Member S} {get : R → S} {set : S → R → R}
    (hm : m.Grafts f catalogs h (fun _ => True) id) (hget : ∀ r, get (graft r) = get r)
    (hset : ∀ s r, P r → P (set s r) ∧ graft (set s r) = set s (graft r)) :
    (m.embedded get set).Grafts f catalogs h P graft := by
  intro claimed r r' hP hread
  obtain ⟨s, hs, rfl⟩ := decode_embedded_eq_ok_iff.1 hread
  obtain ⟨-, hgraft⟩ := hm claimed _ s trivial hs
  obtain ⟨hP', hcomm⟩ := hset s r hP
  refine ⟨hP', decode_embedded_eq_ok_iff.2 ⟨s, ?_, hcomm⟩⟩
  rw [hget]
  exact hgraft

/-- Taking a field does not look at the hooks. -/
def Member.IgnoresHooks (m : Member R) : Prop :=
  ∀ f catalogs hooks, m.decode f ⟨catalogs, hooks⟩ = m.decode f ⟨catalogs, none⟩

theorem FieldCodec.IgnoresHooks.decodeClaimed (hc : c.IgnoresHooks) (f : Format)
    (catalogs : Catalogs) (hooks : Option HookSource) :
    Member.decodeClaimed c spec f ⟨catalogs, hooks⟩ =
      Member.decodeClaimed c spec f ⟨catalogs, none⟩ := by
  funext claimed
  cases claimed with
  | none => rfl
  | some v =>
    unfold Member.decodeClaimed
    rw [hc f catalogs hooks]

theorem FieldCodec.IgnoresHooks.required (hc : c.IgnoresHooks) (get : R → α) (set : α → R → R) :
    (Member.required spec c get set).IgnoresHooks := by
  intro f catalogs hooks
  unfold Member.required
  dsimp only
  rw [hc.decodeClaimed]

theorem FieldCodec.IgnoresHooks.optional (hc : c.IgnoresHooks) (get : R → Option α)
    (set : Option α → R → R) : (Member.optional spec c get set).IgnoresHooks := by
  intro f catalogs hooks
  unfold Member.optional
  dsimp only
  rw [hc.decodeClaimed]

theorem Member.IgnoresHooks.grafts {m : Member R} (hm : m.IgnoresHooks) :
    m.Grafts f catalogs h (fun _ => True) id := by
  intro claimed r r' _ hread
  refine ⟨trivial, ?_⟩
  rw [hm]
  exact hread

theorem takeAll_ignoresHooks {members : List (Member R)} (hmembers : ∀ m ∈ members, m.IgnoresHooks)
    (f : Format) (catalogs : Catalogs) (hooks : Option HookSource) (r : R) (entries : Entries f) :
    takeAll ⟨catalogs, hooks⟩ members r entries = takeAll ⟨catalogs, none⟩ members r entries := by
  induction members generalizing r entries with
  | nil => rfl
  | cons m rest ih =>
    obtain ⟨hm, hrest⟩ := List.forall_mem_cons.1 hmembers
    rw [takeAll, takeAll, hm]
    congr 1
    funext r₁
    exact ih hrest r₁ _

/-- Fields taken in turn have their hooks grafted. -/
theorem takeAll_grafts {members : List (Member R)}
    (hmembers : ∀ m ∈ members, m.Grafts f catalogs h P graft) {r r' : R}
    {entries left : Entries f} (hP : P r)
    (hread : takeAll ⟨catalogs, none⟩ members r entries = .ok (r', left)) :
    P r' ∧ takeAll ⟨catalogs, some h⟩ members (graft r) entries = .ok (graft r', left) := by
  induction members generalizing r entries with
  | nil =>
    obtain ⟨rfl, rfl⟩ := Prod.mk.inj (Except.ok.inj hread)
    exact ⟨hP, rfl⟩
  | cons m rest ih =>
    obtain ⟨hm, hrest⟩ := List.forall_mem_cons.1 hmembers
    obtain ⟨r₁, hfirst, hread⟩ := takeAll_cons_eq_ok_iff.1 hread
    obtain ⟨hP₁, hgraft⟩ := hm _ _ _ hP hfirst
    obtain ⟨hP', hgrafts⟩ := ih hrest hP₁ hread
    exact ⟨hP', takeAll_cons_eq_ok_iff.2 ⟨_, hgraft, hgrafts⟩⟩

end Members

/-! ## Records -/

namespace RecordShape

section

variable {R : Type} {s : RecordShape R} {f : Format} {catalogs : Catalogs} {h : HookSource}
  {P : R → Prop} {graft : R → R} {blank : R}

/-- What a record without a slot was read from, which was all of it. -/
theorem decode_eq_ok_iff {cx : Context} {r r' : R} {v : Raw f} :
    s.decode f cx r v = .ok r' ↔
      ∃ entries, f.toEntries s.schema.layout v = .ok entries ∧
        takeAll cx s.members r entries = .ok (r', []) := by
  unfold decode decodeWith
  constructor
  · intro hread
    obtain ⟨entries, hentries, hread⟩ := exists_of_bind_eq_ok hread
    obtain ⟨⟨r₁, left⟩, htake, hread⟩ := exists_of_bind_eq_ok hread
    obtain ⟨_, hclaim, hread⟩ := exists_of_bind_eq_ok hread
    obtain rfl := Except.ok.inj hclaim
    obtain ⟨_, hfinish, hread⟩ := exists_of_bind_eq_ok hread
    obtain rfl := Except.ok.inj hread
    cases left with
    | nil => exact ⟨entries, hentries, htake⟩
    | cons a left => cases hfinish
  · rintro ⟨entries, hentries, htake⟩
    rw [hentries]
    show (takeAll cx s.members r entries).bind _ = _
    rw [htake]
    rfl

theorem decode_grafts (hmembers : ∀ m ∈ s.members, m.Grafts f catalogs h P graft) {r r' : R}
    {v : Raw f} (hP : P r) (hread : s.decode f ⟨catalogs, none⟩ r v = .ok r') :
    P r' ∧ s.decode f ⟨catalogs, some h⟩ (graft r) v = .ok (graft r') := by
  obtain ⟨entries, hentries, htake⟩ := decode_eq_ok_iff.1 hread
  obtain ⟨hP', hgraft⟩ := takeAll_grafts hmembers hP htake
  exact ⟨hP', decode_eq_ok_iff.2 ⟨entries, hentries, hgraft⟩⟩

/-- A record without a slot, and without parts that have one, is read alike under all hooks. -/
theorem ignoresHooks_codec (hmembers : ∀ m ∈ s.members, m.IgnoresHooks) :
    (s.codec blank).IgnoresHooks := by
  intro f catalogs hooks
  funext v
  unfold codec decode decodeWith
  dsimp only
  congr 1
  funext entries
  rw [takeAll_ignoresHooks hmembers]

/-- A record that holds records with hooks is read with them grafted onto these. -/
theorem grafts_holding [Attachable R]
    (hmembers : ∀ m ∈ s.members, m.Grafts f catalogs h P graft) (hblank : P blank)
    (hattach : Attachable.attach h blank = ⟨graft blank, none⟩) :
    (s.holding blank).Grafts f catalogs h P graft := by
  intro v r hread
  obtain ⟨hP, hgraft⟩ := decode_grafts hmembers hblank hread
  refine ⟨hP, ?_⟩
  show (Coded.ofHook (Attachable.attach h blank).toExcept).bind _ = _
  rw [hattach]
  exact hgraft

end

section

variable {E : Type} [Hookable E] [LawfulHookable E] {s : RecordShape E} {f : Format}
  {catalogs : Catalogs} {h : HookSource} {P : E → Prop} {graft : E → E} {blank : E}

/-- An entity takes nothing for the hook in its slot, whether it has one or not.  Without a hook
nothing was taken after the members, so they had left nothing. -/
theorem decodeAttached_grafts (hmembers : ∀ m ∈ s.members, m.Grafts f catalogs h P graft)
    (hempty : ∀ e, P e → Hookable.slot e = none)
    (hrest : ∀ e, Slot.AtRest (Hookable.slot (graft e))) {e e' : E} {v : Raw f} (hP : P e)
    (hread : s.decodeAttached f ⟨catalogs, none⟩ e v = .ok e') :
    P e' ∧ s.decodeAttached f ⟨catalogs, some h⟩ (graft e) v = .ok (graft e') := by
  obtain ⟨entries, r, left, slot, hentries, htake, hslot, rfl⟩ :=
    decodeAttached_eq_ok_iff.1 hread
  obtain ⟨hP', hgraft⟩ := takeAll_grafts hmembers hP htake
  rw [hempty r hP'] at hslot
  obtain ⟨rfl, rfl⟩ := Prod.mk.inj (Except.ok.inj hslot)
  have hsame : Hookable.withSlot r none = r := by
    rw [← hempty r hP']
    exact LawfulHookable.withSlot_slot r
  rw [hsame]
  refine ⟨hP', decodeAttached_eq_ok_iff.2 ⟨entries, graft r, [], _, hentries, hgraft,
    Slot.take_nil (hrest r), ?_⟩⟩
  exact (LawfulHookable.withSlot_slot _).symm

/-- A record that carries a hook is read with it grafted onto the record. -/
theorem grafts_extended [Attachable E]
    (hmembers : ∀ m ∈ s.members, m.Grafts f catalogs h P graft)
    (hempty : ∀ e, P e → Hookable.slot e = none)
    (hrest : ∀ e, Slot.AtRest (Hookable.slot (graft e))) (hblank : P blank)
    (hattach : Attachable.attach h blank = ⟨graft blank, none⟩) :
    (s.extended blank).Grafts f catalogs h P graft := by
  intro v e hread
  obtain ⟨hP, hgraft⟩ := decodeAttached_grafts hmembers hempty hrest hblank hread
  refine ⟨hP, decode_extended_eq_ok_iff.2 ⟨_, ?_, hgraft⟩⟩
  show (Attachable.attach h blank).toExcept = _
  rw [hattach]
  rfl

end

end RecordShape

end Rim
