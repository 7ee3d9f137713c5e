import Rim.Proofs.Choice.Calm
import Rim.Proofs.Hook.Graft
import Rim.Proofs.Record.Law
/-!
# Reading refuses no hook

Every record that is read is attached its hooks first, while it is still blank.  Where the hooks fit
this cannot fail: a blank record has empty slots, and what is registered at its point is for its
kind.  So whatever ends a reading comes from the raw value, and is an ordinary error.

## Main definitions

* `RecordError.Ordinary`: an error whose root cause is neither a refused hook nor, with calm
  catalogs, a conflict.
* `Coded.Ordinary`: a result whose error, if any, is ordinary.
* `Context.Fits`: the hooks of a context fit the kinds of entities.
* `FieldCodec.Ordinary`, `Member.Ordinary`: reading ends in ordinary errors wherever the hooks fit.
* `MemberLaw.ordinary`: this is handed on from the parts.

## Main results

* `Datum.ordinary_decode`: the fields of hooks end in ordinary errors.
* `RecordShape.ordinary_codec`, `RecordShape.ordinary_holding`, `RecordShape.ordinary_extended`: so
  do records whose members do.
-/

namespace Rim

variable {α β R : Type} {catalogs : Catalogs}

/-! ## Ordinary errors -/

/-- The root cause of an error is no refused hook, and if the catalogs are calm no conflict of any
sort. -/
structure RecordError.Ordinary (catalogs : Catalogs) (e : RecordError) : Prop where
  unrefused : ∀ refusal, e.innermost ≠ .hook refusal
  calm : catalogs.Calm → e.kind ≠ .registryConflict

/-- A refused hook is a conflict. -/
theorem RecordError.ordinary_of_kind {e : RecordError} (h : e.kind ≠ .registryConflict) :
    e.Ordinary catalogs where
  unrefused refusal hroot := by
    rw [← kind_innermost, hroot] at h
    exact h rfl
  calm _ := h

/-- A result whose error, if any, is ordinary. -/
def Coded.Ordinary (catalogs : Catalogs) (x : Coded α) : Prop :=
  ∀ e, x = .error e → e.Ordinary catalogs

namespace Coded

theorem ordinary_ok (a : α) : Coded.Ordinary catalogs (.ok a) := nofun

theorem ordinary_error {e : RecordError} (h : e.kind ≠ .registryConflict) :
    Coded.Ordinary catalogs (.error e : Coded α) := by
  rintro e ⟨⟩
  exact RecordError.ordinary_of_kind h

/-- Steps that fail in ordinary ways only do so together. -/
theorem Ordinary.bind {x : Coded α} {next : α → Coded β} (hx : x.Ordinary catalogs)
    (hnext : ∀ a, (next a).Ordinary catalogs) : Coded.Ordinary catalogs (x.bind next) := by
  intro e he
  cases x with
  | ok a => exact hnext a e he
  | error e' =>
    cases he
    exact hx e rfl

theorem Ordinary.map {x : Coded α} (hx : x.Ordinary catalogs) (g : α → β) :
    Coded.Ordinary catalogs (x.map g) := by
  intro e he
  cases x with
  | ok a => cases he
  | error e' =>
    cases he
    exact hx e rfl

/-- Wrappers do not change the root cause. -/
theorem Ordinary.underField {x : Coded α} (hx : x.Ordinary catalogs) (name : String) :
    (Coded.underField name x).Ordinary catalogs := by
  intro e he
  cases x with
  | ok a => cases he
  | error e' =>
    cases he
    exact ⟨(hx e' rfl).unrefused, (hx e' rfl).calm⟩

theorem Ordinary.underIndex {x : Coded α} (hx : x.Ordinary catalogs) (index : Nat) :
    (Coded.underIndex index x).Ordinary catalogs := by
  intro e he
  cases x with
  | ok a => cases he
  | error e' =>
    cases he
    exact ⟨(hx e' rfl).unrefused, (hx e' rfl).calm⟩

/-- A list fails as its items do. -/
theorem ordinary_encodeItems {one : α → Coded β} (hone : ∀ a, (one a).Ordinary catalogs)
    (index : Nat) (items : List α) : (encodeItems one index items).Ordinary catalogs := by
  induction items generalizing index with
  | nil => exact ordinary_ok []
  | cons a rest ih =>
    refine ((hone a).underIndex index).bind fun x => (ih (index + 1)).bind fun xs => ?_
    exact ordinary_ok (x :: xs)

/-- What a type choice answers is no refused hook. -/
theorem ordinary_ofChoice {x : Except VariantError α}
    (h : ∀ e, x = .error e → catalogs.Calm → e.kind ≠ .registryConflict) :
    (Coded.ofChoice x).Ordinary catalogs := by
  intro e he
  cases x with
  | ok a => cases he
  | error cause =>
    cases he
    exact ⟨nofun, h cause rfl⟩

/-- Malformed payloads are an ordinary failure. -/
theorem ordinary_ofMalformed {x : Except VariantError α} (h : VariantError.OnlyMalformed x) :
    (Coded.ofChoice x).Ordinary catalogs := by
  apply ordinary_ofChoice
  intro e he _
  rw [h e he]
  nofun

end Coded

open Coded (ordinary_ok ordinary_error)

/-! ## Raw values

A raw value of the wrong sort is a fault of the schema. -/

namespace Format

theorem ordinary_recordEntries (entries : List (Cbor × Cbor)) :
    (recordEntries entries).Ordinary catalogs := by
  induction entries with
  | nil => exact ordinary_ok []
  | cons entry rest ih =>
    obtain ⟨k, v⟩ := entry
    have hkey : (recordKey k).Ordinary catalogs := by
      unfold recordKey
      split
      · split
        · exact ordinary_ok _
        · exact ordinary_error nofun
      · exact ordinary_error nofun
    exact hkey.bind fun key => ih.bind fun others => ordinary_ok _

/-- Taking a raw value apart fails in ordinary ways only. -/
theorem ordinary_toEntries (f : Format) (layout : Layout) (v : Raw f) :
    (f.toEntries layout v).Ordinary catalogs := by
  unfold toEntries
  split
  · exact ordinary_recordEntries _
  · exact ordinary_ok _
  · exact ordinary_error nofun
  · exact ordinary_error nofun
  · exact ordinary_ok _
  · exact ordinary_error nofun

theorem ordinary_toBytes (f : Format) (v : Raw f) : (f.toBytes v).Ordinary catalogs := by
  unfold toBytes
  split
  · exact ordinary_ok _
  · exact ordinary_error nofun
  · split
    · exact ordinary_ok _
    · exact ordinary_error nofun
  · exact ordinary_error nofun

theorem ordinary_toList (f : Format) (v : Raw f) : (f.toList v).Ordinary catalogs := by
  unfold toList
  split
  · exact ordinary_ok _
  · exact ordinary_error nofun
  · exact ordinary_ok _
  · exact ordinary_error nofun

theorem ordinary_toText (f : Format) (v : Raw f) : (f.toText v).Ordinary catalogs := by
  unfold toText
  split
  · exact ordinary_ok _
  · split
    · exact ordinary_ok _
    · exact ordinary_error nofun
  · exact ordinary_ok _
  · exact ordinary_error nofun

theorem ordinary_toInt (low high : Int) (f : Format) (v : Raw f) :
    (toInt low high f v).Ordinary catalogs := by
  unfold toInt
  split
  · split
    · exact ordinary_ok _
    · exact ordinary_error nofun
  · split
    · exact ordinary_ok _
    · exact ordinary_error nofun
  · exact ordinary_error nofun

theorem ordinary_toBool (f : Format) (v : Raw f) : (f.toBool v).Ordinary catalogs := by
  unfold toBool
  split
  · exact ordinary_ok _
  · exact ordinary_ok _
  · exact ordinary_error nofun

end Format

/-! ## Contexts -/

/-- The hooks of a context, if it has any, fit the kinds of entities at its position. -/
def Context.Fits (cx : Context) : Prop := ∀ h ∈ cx.hooks, h.Fits

namespace Context

variable {cx : Context}

/-- Without hooks every context fits. -/
theorem fits_none : (Context.mk catalogs none).Fits := nofun

/-- The context of a bundle fits if the bundle does. -/
theorem fits_hooks {b : Bundle} (hb : b.Fits) : (Context.mk catalogs (some ⟨b, []⟩)).Fits := by
  rintro h ⟨⟩
  exact HookSource.fits_nil hb

/-- They do so under endorsed values as well, where other points stand in. -/
theorem Fits.endorsed (h : cx.Fits) : (cx.withStandIns StandIn.endorsed).Fits := by
  intro source hsource
  obtain ⟨source', hsource', rfl⟩ := Option.map_eq_some_iff.1 hsource
  exact HookSource.fits_endorsed (h source' hsource').bundle

/-- A blank entity is never refused its hook. -/
theorem Fits.exists_attach {E : Type} [Hookable E] [Attachable E] (h : cx.Fits)
    (hk : (Hookable.kind E).OfDocument) {e : E} (hempty : Hookable.slot e = none)
    (hown : ∀ source : HookSource, Attachable.attach source e = source.attachOwn e) :
    ∃ e', cx.attach e = .ok e' := by
  unfold attach
  cases hhooks : cx.hooks with
  | none => exact ⟨e, rfl⟩
  | some source =>
    refine ⟨source.graft e, ?_⟩
    dsimp only
    rw [hown, (h source hhooks).attachOwn_eq hk hempty]
    rfl

end Context

/-! ## Codecs -/

/-- Reading a value ends in ordinary errors only. -/
def FieldCodec.Ordinary (c : FieldCodec α) : Prop :=
  ∀ f cx v, cx.Fits → (c.decode f cx v).Ordinary cx.catalogs

namespace FieldCodec

theorem ordinary_bool : bool.Ordinary := fun f _ v _ => f.ordinary_toBool v

theorem ordinary_uint64 : uint64.Ordinary := fun f _ v _ => (Format.ordinary_toInt _ _ f v).map _

theorem ordinary_string : string.Ordinary := fun f _ v _ => f.ordinary_toText v

theorem ordinary_bytes : bytes.Ordinary := fun f _ v _ => f.ordinary_toBytes v

theorem ordinary_ueid : ueid.Ordinary := fun f _ v _ => (f.ordinary_toBytes v).map _

theorem ordinary_code [OpenCode α] : (code α).Ordinary := by
  intro f cx v hfits
  unfold code
  dsimp only
  split
  · split
    · exact ordinary_ok _
    · exact ordinary_error nofun
  · exact (ordinary_uint64 _ _ _ hfits).map _

theorem ordinary_uuid : uuid.Ordinary := by
  intro f cx v _
  cases f with
  | cbor =>
    exact (Format.ordinary_toBytes .cbor v).bind fun b =>
      Coded.ordinary_ofMalformed (VariantError.onlyMalformed_uuid _)
  | json =>
    exact (Format.ordinary_toText .json v).bind fun t =>
      Coded.ordinary_ofMalformed (VariantError.onlyMalformed_uuid _)

theorem ordinary_digest : digest.Ordinary := by
  intro f cx v hfits
  cases f with
  | cbor =>
    refine (Format.ordinary_toList .cbor v).bind fun items => ?_
    split
    · refine (ordinary_uint64 .cbor cx _ hfits).bind fun id => ?_
      exact (Format.ordinary_toBytes .cbor _).bind fun b =>
        Coded.ordinary_ofMalformed (VariantError.onlyMalformed_ofParts _ b)
    · exact ordinary_error nofun
  | json =>
    exact (Format.ordinary_toText .json v).bind fun t =>
      Coded.ordinary_ofMalformed (VariantError.onlyMalformed_ofText t)

theorem ordinary_tagId : tagId.Ordinary := by
  intro f cx v _
  unfold tagId
  dsimp only
  split
  · exact (Coded.ordinary_ofMalformed (VariantError.onlyMalformed_uuid _)).map _
  · exact (Format.ordinary_toText .cbor _).map _
  · exact (Format.ordinary_toText .json _).map _

/-- The catalogs answer for what their builders do. -/
theorem ordinary_decodeChoice {T : Type} [TypeChoice T] {g : Catalog T}
    (hcalm : catalogs.Calm → g.Calm) (f : Format) (v : Raw f) :
    (decodeChoice g f v).Ordinary catalogs := by
  cases f with
  | cbor =>
    show (decodeTagged g v).Ordinary catalogs
    unfold decodeTagged
    split
    · exact Coded.ordinary_ofChoice fun e he h => (hcalm h).buildTagged he
    · exact ordinary_error nofun
  | json =>
    show (decodeNamed g v).Ordinary catalogs
    unfold decodeNamed
    dsimp only
    split
    · split
      · exact ordinary_error nofun
      · split
        · exact ordinary_error nofun
        · split
          · exact ordinary_error nofun
          · exact Coded.ordinary_ofChoice fun e he h => (hcalm h).buildNamed he
        · exact ordinary_error nofun
    · exact ordinary_error nofun

theorem ordinary_choice (family : Family) : (choice family).Ordinary := by
  intro f cx v _
  show Coded.Ordinary _ ((Coded.ofChoice (cx.catalogs.family family)).bind _)
  unfold CatalogsOver.family
  cases hg : cx.catalogs.get? family with
  | none => exact ordinary_error nofun
  | some g => exact ordinary_decodeChoice (fun hcalm => hcalm family g hg) f v

/-- A list of values that are read in the ordinary way is read so. -/
theorem Ordinary.list {c : FieldCodec α} (hc : c.Ordinary) : (FieldCodec.list c).Ordinary := by
  intro f cx v hfits
  exact (f.ordinary_toList v).bind fun items =>
    Coded.ordinary_encodeItems (fun a => hc f cx a hfits) 0 items

/-- The stand-ins of endorsed values fit where the others do. -/
theorem Ordinary.endorsed {c : FieldCodec α} (hc : c.Ordinary) :
    (under StandIn.endorsed c).Ordinary :=
  fun f _ v hfits => hc f _ v hfits.endorsed

end FieldCodec

/-! ## Members -/

/-- Taking a field ends in ordinary errors only. -/
def Member.Ordinary (m : Member R) : Prop :=
  ∀ f cx claimed r, cx.Fits → (m.decode f cx claimed r).Ordinary cx.catalogs

section Members

variable {c : FieldCodec α} {spec : FieldSpec}

theorem FieldCodec.Ordinary.decodeClaimed (hc : c.Ordinary) {f : Format} {cx : Context}
    (hfits : cx.Fits) (claimed : Option (Raw f)) :
    (Member.decodeClaimed c spec f cx claimed).Ordinary cx.catalogs := by
  cases claimed with
  | none => exact ordinary_ok none
  | some v => exact ((hc f cx v hfits).underField spec.name).map some

/-- A field of such values is read in the ordinary way. -/
theorem FieldCodec.Ordinary.required (hc : c.Ordinary) (get : R → α) (set : α → R → R) :
    (Member.required spec c get set).Ordinary := by
  intro f cx claimed r hfits
  refine (hc.decodeClaimed hfits claimed).bind fun o => ?_
  cases o with
  | none => exact ordinary_error nofun
  | some a => exact ordinary_ok _

theorem FieldCodec.Ordinary.optional (hc : c.Ordinary) (get : R → Option α)
    (set : Option α → R → R) : (Member.optional spec c get set).Ordinary :=
  fun _ _ claimed _ hfits => (hc.decodeClaimed hfits claimed).map _

theorem FieldCodec.Ordinary.defaulted (hc : c.Ordinary) (absent : α) (get : R → α)
    (set : α → R → R) : (Member.defaulted spec c absent get set).Ordinary :=
  fun _ _ claimed _ hfits => (hc.decodeClaimed hfits claimed).map _

theorem Member.Ordinary.embedded {S : Type} {m : Member R} (hm : m.Ordinary) (get : S → R)
    (set : R → S → S) : (m.embedded get set).Ordinary :=
  fun f cx claimed s hfits => (hm f cx claimed (get s) hfits).map _

/-- Ending in ordinary errors is handed on from the parts. -/
def MemberLaw.ordinary : MemberLaw where
  codec c := c.Ordinary
  member m := m.Ordinary
  bool := FieldCodec.ordinary_bool
  uint64 := FieldCodec.ordinary_uint64
  string := FieldCodec.ordinary_string
  bytes := FieldCodec.ordinary_bytes
  code := FieldCodec.ordinary_code
  uuid := FieldCodec.ordinary_uuid
  ueid := FieldCodec.ordinary_ueid
  digest := FieldCodec.ordinary_digest
  tagId := FieldCodec.ordinary_tagId
  choice := FieldCodec.ordinary_choice
  list hc := hc.list
  endorsed hc := hc.endorsed
  required hc := hc.required _ _
  optional hc := hc.optional _ _
  defaulted hc := hc.defaulted _ _ _
  embedded hm := hm.embedded _ _

/-- Fields that are taken in the ordinary way are so in turn. -/
theorem ordinary_takeAll {members : List (Member R)} (hmembers : ∀ m ∈ members, m.Ordinary)
    {f : Format} {cx : Context} (hfits : cx.Fits) (r : R) (entries : Entries f) :
    (takeAll cx members r entries).Ordinary cx.catalogs := by
  induction members generalizing r entries with
  | nil => exact ordinary_ok _
  | cons m rest ih =>
    obtain ⟨hm, hrest⟩ := List.forall_mem_cons.1 hmembers
    exact (hm f cx _ r hfits).bind fun r' => ih hrest r' _

end Members

/-! ## The fields of hooks -/

section Cells

variable {f : Format} {decode : Kind → Raw f → Coded Datum}

/-- The fields of a hook are taken in the ordinary way. -/
theorem ordinary_takeCells (hdecode : ∀ kind v, (decode kind v).Ordinary catalogs)
    (cells : List (Cell Datum)) (entries : Entries f) :
    (takeCells decode cells entries).Ordinary catalogs := by
  induction cells generalizing entries with
  | nil => exact ordinary_ok _
  | cons c rest ih =>
    have hcell : (takeCell decode c.shape (entries.get? c.shape.spec)).Ordinary catalogs := by
      cases entries.get? c.shape.spec with
      | some v => exact ((hdecode _ v).underField _).map some
      | none =>
        show c.shape.absent.Ordinary catalogs
        unfold FieldShape.absent
        split
        · exact ordinary_ok _
        · split
          · exact ordinary_ok _
          · exact ordinary_error nofun
    exact hcell.bind fun value => (ih _).bind fun taken => ordinary_ok _

theorem Slot.ordinary_take {B : Type} (hdecode : ∀ kind v, (decode kind v).Ordinary catalogs)
    (s : Slot B) (entries : Entries f) : (Slot.take decode s entries).Ordinary catalogs := by
  unfold Slot.take
  split
  · exact ordinary_ok _
  · split
    · exact ordinary_ok _
    · exact (ordinary_takeCells hdecode _ entries).bind fun taken => ordinary_ok _

end Cells

/-! ## Records -/

namespace RecordShape

section

variable {s : RecordShape R} {f : Format} {cx : Context}

/-- A record is read in the ordinary way if its fields and its hook are.  What nobody claimed is a
fault of the schema. -/
theorem ordinary_decodeWith {S : Type} (hmembers : ∀ m ∈ s.members, m.Ordinary) (hfits : cx.Fits)
    {claim : R → Entries f → Coded (S × Entries f)}
    (hclaim : ∀ r entries, (claim r entries).Ordinary cx.catalogs) (r : R) (v : Raw f) :
    (s.decodeWith f cx r claim v).Ordinary cx.catalogs := by
  refine (f.ordinary_toEntries s.schema.layout v).bind fun entries => ?_
  refine (ordinary_takeAll hmembers hfits r entries).bind fun taken => ?_
  refine (hclaim taken.1 taken.2).bind fun result => ?_
  have hfinish : (Entries.finish s.schema.entity result.2).Ordinary cx.catalogs := by
    unfold Entries.finish
    split
    · exact ordinary_ok ()
    · exact ordinary_error nofun
  exact hfinish.bind fun _ => ordinary_ok result.1

theorem ordinary_decode (hmembers : ∀ m ∈ s.members, m.Ordinary) (hfits : cx.Fits) (r : R)
    (v : Raw f) : (s.decode f cx r v).Ordinary cx.catalogs :=
  ordinary_decodeWith hmembers hfits (fun _ _ => ordinary_ok _) r v

theorem ordinary_codec (hmembers : ∀ m ∈ s.members, m.Ordinary) (blank : R) :
    (s.codec blank).Ordinary :=
  fun _ _ v hfits => ordinary_decode hmembers hfits blank v

/-- Reading a record that holds records with hooks ends in ordinary errors only, if a blank record
is never refused its hooks. -/
theorem ordinary_holding [Attachable R] (hmembers : ∀ m ∈ s.members, m.Ordinary) {blank : R}
    (hattach : ∀ cx : Context, cx.Fits → ∃ r, cx.attach blank = .ok r) :
    (s.holding blank).Ordinary := by
  intro f cx v hfits
  obtain ⟨r, hr⟩ := hattach cx hfits
  show Coded.Ordinary _ ((Coded.ofHook (cx.attach blank)).bind _)
  rw [hr]
  exact ordinary_decode hmembers hfits r v

end

section

variable {E : Type} [Hookable E] {s : RecordShape E} {f : Format} {cx : Context}

theorem ordinary_decodeExtended (hmembers : ∀ m ∈ s.members, m.Ordinary) (hfits : cx.Fits)
    {decode : Kind → Raw f → Coded Datum}
    (hdecode : ∀ kind v, (decode kind v).Ordinary cx.catalogs) (e : E) (v : Raw f) :
    (s.decodeExtended f cx decode e v).Ordinary cx.catalogs :=
  ordinary_decodeWith hmembers hfits (fun e entries =>
    (Slot.ordinary_take hdecode (Hookable.slot e) entries).bind fun _ => ordinary_ok _) e v

end

end RecordShape

/-! ## Entities and data

The fields of a hook may hold entities, which have hooks again. -/

/-- A hook that fits is never refused by an entity. -/
theorem EntityOf.exists_attach {cx : Context} (hfits : cx.Fits) :
    ∃ e, cx.attach (default : Entity) = .ok e :=
  hfits.exists_attach (fun _ => by simp [Hookable.kind]) rfl fun _ => rfl

namespace Datum

variable {f : Format} {cx : Context}

theorem ordinary_decodePlain (hfits : cx.Fits) (v : Raw f) (kind : Kind) :
    (decodePlain f cx v kind).Ordinary cx.catalogs := by
  cases kind with
  | bool => exact (FieldCodec.ordinary_bool f cx v hfits).map _
  | unsigned w => exact (Format.ordinary_toInt _ _ f v).map _
  | signed w => exact (Format.ordinary_toInt _ _ f v).map _
  | string => exact (FieldCodec.ordinary_string f cx v hfits).map _
  | bytes => exact (FieldCodec.ordinary_bytes f cx v hfits).map _
  | uuid => exact (FieldCodec.ordinary_uuid f cx v hfits).map _
  | tagId => exact (FieldCodec.ordinary_tagId f cx v hfits).map _
  | ueid => exact (FieldCodec.ordinary_ueid f cx v hfits).map _
  | digest => exact (FieldCodec.ordinary_digest f cx v hfits).map _
  | classId => exact (FieldCodec.ordinary_choice .classId f cx v hfits).map _
  | entity => exact ordinary_error nofun
  | list item => exact ordinary_error nofun

/-- Values of hook fields are read in the ordinary way, down to any depth. -/
theorem ordinary_decodeWithin (hfits : cx.Fits) (depth : Nat) (kind : Kind) (v : Raw f) :
    (decodeWithin f cx depth kind v).Ordinary cx.catalogs := by
  induction depth generalizing kind v with
  | zero =>
    unfold decodeWithin
    exact ordinary_decodePlain hfits v kind
  | succ depth ih =>
    cases kind with
    | list item =>
      rw [decodeWithin]
      refine (f.ordinary_toList v).bind fun items => ?_
      exact (Coded.ordinary_encodeItems (ih item) 0 items).bind fun _ => ordinary_ok _
    | entity =>
      obtain ⟨e, he⟩ := EntityOf.exists_attach hfits
      rw [decodeWithin, he]
      have hentity := RecordShape.ordinary_decodeExtended
        (fun _ hm => MemberLaw.ordinary.member_entityShape hm) hfits ih e v
      exact hentity.bind fun _ => ordinary_ok _
    | _ =>
      rw [decodeWithin]
      · exact ordinary_decodePlain hfits v _
      all_goals intros; contradiction

theorem ordinary_decode (hfits : cx.Fits) (kind : Kind) (v : Raw f) :
    (Datum.decode f cx kind v).Ordinary cx.catalogs :=
  ordinary_decodeWithin hfits _ kind v

end Datum

namespace RecordShape

variable {E : Type} [Hookable E] {s : RecordShape E}

/-- A record with its hook attached is read in the ordinary way. -/
theorem ordinary_decodeAttached (hmembers : ∀ m ∈ s.members, m.Ordinary) {f : Format}
    {cx : Context} (hfits : cx.Fits) (e : E) (v : Raw f) :
    (s.decodeAttached f cx e v).Ordinary cx.catalogs :=
  ordinary_decodeExtended hmembers hfits (Datum.ordinary_decode hfits) e v

/-- Reading a record that carries a hook ends in ordinary errors only, if a blank record is never
refused its hook. -/
theorem ordinary_extended [Attachable E] (hmembers : ∀ m ∈ s.members, m.Ordinary) {blank : E}
    (hattach : ∀ cx : Context, cx.Fits → ∃ e, cx.attach blank = .ok e) :
    (s.extended blank).Ordinary := by
  intro f cx v hfits
  obtain ⟨e, he⟩ := hattach cx hfits
  show Coded.Ordinary _ ((Coded.ofHook (cx.attach blank)).bind _)
  rw [he]
  exact ordinary_decodeAttached hmembers hfits e v

end RecordShape

end Rim
