import Rim.Proofs.Choice.Indifferent
import Rim.Proofs.Record.Depth
import Rim.Proofs.Record.Law
/-!
# Reading records that look the same

A record is read member by member, in the order of the members and not of the entries, and so are
the fields of a hook.  Whatever a member claims is found by key, so reading raw values that look the
same is alike, down to which of several faults is met first.

## Main definitions

* `FieldCodec.Indifferent`, `Member.Indifferent`: values that look the same are read alike.
* `MemberLaw.indifferent`: this is handed on from the parts.

## Main results

* `Datum.alike_decode`: so are the fields of hooks.
* `RecordShape.indifferent_codec`, `RecordShape.indifferent_holding`,
  `RecordShape.indifferent_extended`: so are records whose members are.
-/

namespace Rim

variable {α R : Type}

/-! ## Codecs -/

/-- Values that look the same are read alike. -/
def FieldCodec.Indifferent (c : FieldCodec α) : Prop :=
  ∀ (f : Format) (cx : Context) (v w : Raw f), cx.catalogs.Indifferent → f.Like v w →
    Alike Eq (c.decode f cx v) (c.decode f cx w)

namespace FieldCodec

theorem indifferent_bool : bool.Indifferent := fun _ _ _ _ _ h => h.toBool

theorem indifferent_uint64 : uint64.Indifferent := fun _ _ _ _ _ h => (h.toInt _ _).map_eq _

theorem indifferent_string : string.Indifferent := fun _ _ _ _ _ h => h.toText

theorem indifferent_bytes : bytes.Indifferent := fun _ _ _ _ _ h => h.toBytes

theorem indifferent_ueid : ueid.Indifferent := fun _ _ _ _ _ h => h.toBytes.map_eq _

theorem indifferent_code [OpenCode α] : (code α).Indifferent := by
  intro f cx v w hcatalogs h
  cases f with
  | cbor => exact (indifferent_uint64 .cbor cx v w hcatalogs h).map_eq _
  | json =>
    refine h.readPlain (f := .json) (fun u hu => ?_)
    cases hu <;> exact ⟨_, rfl, rfl, rfl⟩

theorem indifferent_uuid : uuid.Indifferent := by
  intro f cx v w _ h
  cases f with
  | cbor => exact h.toBytes.bind_eq fun b => .same _
  | json => exact h.toText.bind_eq fun t => .same _

theorem indifferent_digest : digest.Indifferent := by
  intro f cx v w hcatalogs h
  cases f with
  | cbor =>
    refine h.toList.bind fun items items' hitems => ?_
    rcases hitems with _ | ⟨halg, _ | ⟨hvalue, _ | _⟩⟩
    · exact .error rfl rfl
    · exact .error rfl rfl
    · refine (indifferent_uint64 .cbor cx _ _ hcatalogs halg).bind_eq fun id => ?_
      exact (Format.Like.toBytes hvalue).bind_eq fun b => .same _
    · exact .error rfl rfl
  | json => exact h.toText.bind_eq fun t => .same _

theorem indifferent_tagId : tagId.Indifferent := by
  intro f cx v w _ h
  cases f with
  | cbor =>
    refine h.readPlain (f := .cbor) (fun u hu => ?_)
    cases hu <;> exact ⟨_, rfl, rfl, rfl⟩
  | json => exact h.toText.map_eq _

/-- Choices are read alike if their payload types are indifferent. -/
theorem indifferent_choice (family : Family) : (choice family).Indifferent := by
  intro f cx v w hcatalogs h
  show Alike Eq ((Coded.ofChoice (cx.catalogs.family family)).bind _)
    ((Coded.ofChoice (cx.catalogs.family family)).bind _)
  unfold CatalogsOver.family
  cases hg : cx.catalogs.get? family with
  | none => exact .same _
  | some g => exact alike_decodeChoice (hcatalogs family g hg) h

/-- Lists of such values are read alike. -/
theorem Indifferent.list {c : FieldCodec α} (hc : c.Indifferent) :
    (FieldCodec.list c).Indifferent := by
  intro f cx v w hcatalogs h
  refine h.toList.bind fun items items' hitems => ?_
  exact Alike.encodeItems (fun a b hab => hc f cx a b hcatalogs hab) hitems 0

theorem Indifferent.under {c : FieldCodec α} (hc : c.Indifferent) (standIns : List StandIn) :
    (FieldCodec.under standIns c).Indifferent :=
  fun f _ v w hcatalogs h => hc f _ v w hcatalogs h

end FieldCodec

/-! ## Members -/

/-- Claims that look the same are taken alike. -/
def Member.Indifferent (m : Member R) : Prop :=
  ∀ (f : Format) (cx : Context) (claimed claimed' : Option (Raw f)) (r : R),
    cx.catalogs.Indifferent → Option.Rel f.Like claimed claimed' →
    Alike Eq (m.decode f cx claimed r) (m.decode f cx claimed' r)

section Members

variable {c : FieldCodec α} {spec : FieldSpec} {f : Format} {cx : Context}

theorem FieldCodec.Indifferent.decodeClaimed (hc : c.Indifferent)
    (hcatalogs : cx.catalogs.Indifferent) {claimed claimed' : Option (Raw f)}
    (h : Option.Rel f.Like claimed claimed') :
    Alike Eq (Member.decodeClaimed c spec f cx claimed)
      (Member.decodeClaimed c spec f cx claimed') := by
  cases h with
  | none => exact .same _
  | some h => exact ((hc f cx _ _ hcatalogs h).underField spec.name).map_eq some

/-- A field of such values is read alike, whatever the order of entries. -/
theorem FieldCodec.Indifferent.required (hc : c.Indifferent) (get : R → α) (set : α → R → R) :
    (Member.required spec c get set).Indifferent :=
  fun _ _ _ _ _ hcatalogs h => (hc.decodeClaimed hcatalogs h).bind_eq fun _ => .same _

theorem FieldCodec.Indifferent.optional (hc : c.Indifferent) (get : R → Option α)
    (set : Option α → R → R) : (Member.optional spec c get set).Indifferent :=
  fun _ _ _ _ _ hcatalogs h => (hc.decodeClaimed hcatalogs h).map_eq _

theorem FieldCodec.Indifferent.defaulted (hc : c.Indifferent) (absent : α) (get : R → α)
    (set : α → R → R) : (Member.defaulted spec c absent get set).Indifferent :=
  fun _ _ _ _ _ hcatalogs h => (hc.decodeClaimed hcatalogs h).map_eq _

theorem Member.Indifferent.embedded {S : Type} {m : Member R} (hm : m.Indifferent) (get : S → R)
    (set : R → S → S) : (m.embedded get set).Indifferent :=
  fun f cx _ _ s hcatalogs h => (hm f cx _ _ (get s) hcatalogs h).map_eq _

/-- Reading alike what looks the same is handed on from the parts. -/
def MemberLaw.indifferent : MemberLaw where
  codec c := c.Indifferent
  member m := m.Indifferent
  bool := FieldCodec.indifferent_bool
  uint64 := FieldCodec.indifferent_uint64
  string := FieldCodec.indifferent_string
  bytes := FieldCodec.indifferent_bytes
  code := FieldCodec.indifferent_code
  uuid := FieldCodec.indifferent_uuid
  ueid := FieldCodec.indifferent_ueid
  digest := FieldCodec.indifferent_digest
  tagId := FieldCodec.indifferent_tagId
  choice := FieldCodec.indifferent_choice
  list hc := hc.list
  endorsed hc := hc.under _
  required hc := hc.required _ _
  optional hc := hc.optional _ _
  defaulted hc := hc.defaulted _ _ _
  embedded hm := hm.embedded _ _

/-- What has been read is the same, and the same is found in what is left. -/
def Entries.LikeAfter {S : Type} (x y : S × Entries f) : Prop := x.1 = y.1 ∧ x.2.Like y.2

/-- Fields taken in turn from entries that look alike are taken alike. -/
theorem alike_takeAll {members : List (Member R)} (hmembers : ∀ m ∈ members, m.Indifferent)
    (hcatalogs : cx.catalogs.Indifferent) (r : R) {es es' : Entries f} (h : es.Like es') :
    Alike Entries.LikeAfter (takeAll cx members r es) (takeAll cx members r es') := by
  induction members generalizing r es es' with
  | nil => exact .ok ⟨rfl, h⟩
  | cons m rest ih =>
    obtain ⟨hm, hrest⟩ := List.forall_mem_cons.1 hmembers
    refine (hm f cx _ _ r hcatalogs (h.get? m.spec)).bind_eq fun r' => ?_
    exact ih hrest r' (h.without m.spec)

end Members

/-! ## The fields of hooks -/

section Cells

variable {f : Format} {decode : Kind → Raw f → Coded Datum}

/-- Values of hook fields that look the same are read alike. -/
def ReadsAlike (decode : Kind → Raw f → Coded Datum) : Prop :=
  ∀ kind v w, f.Like v w → Alike Eq (decode kind v) (decode kind w)

theorem ReadsAlike.takeCell (hdecode : ReadsAlike decode) (shape : FieldShape)
    {claimed claimed' : Option (Raw f)} (h : Option.Rel f.Like claimed claimed') :
    Alike Eq (Rim.takeCell decode shape claimed) (Rim.takeCell decode shape claimed') := by
  cases h with
  | none => exact .same _
  | some h => exact ((hdecode shape.kind _ _ h).underField shape.spec.name).map_eq some

theorem ReadsAlike.takeCells (hdecode : ReadsAlike decode)
    (cells : List (Cell Datum)) {es es' : Entries f} (h : es.Like es') :
    Alike Entries.LikeAfter (Rim.takeCells decode cells es) (Rim.takeCells decode cells es') := by
  induction cells generalizing es es' with
  | nil => exact .ok ⟨rfl, h⟩
  | cons c rest ih =>
    refine (hdecode.takeCell c.shape (h.get? c.shape.spec)).bind_eq fun value => ?_
    refine (ih (h.without c.shape.spec)).bind ?_
    rintro ⟨taken, left⟩ ⟨_, left'⟩ ⟨rfl, hleft⟩
    exact .ok ⟨rfl, hleft⟩

theorem ReadsAlike.take (hdecode : ReadsAlike decode) {B : Type} (s : Slot B)
    {es es' : Entries f} (h : es.Like es') :
    Alike Entries.LikeAfter (Slot.take decode s es) (Slot.take decode s es') := by
  unfold Slot.take
  split
  · exact .ok ⟨rfl, h⟩
  · split
    · exact .ok ⟨rfl, h⟩
    · refine (hdecode.takeCells _ h).bind ?_
      rintro ⟨taken, left⟩ ⟨_, left'⟩ ⟨rfl, hleft⟩
      exact .ok ⟨rfl, hleft⟩

end Cells

/-! ## Records -/

namespace RecordShape

section

variable {s : RecordShape R} {f : Format} {cx : Context} {v w : Raw f}

theorem alike_decodeWith {S : Type} (hmembers : ∀ m ∈ s.members, m.Indifferent)
    (hcatalogs : cx.catalogs.Indifferent) {claim : R → Entries f → Coded (S × Entries f)}
    (hclaim : ∀ r es es', Entries.Like es es' →
      Alike Entries.LikeAfter (claim r es) (claim r es'))
    (r : R) (h : f.Like v w) :
    Alike Eq (s.decodeWith f cx r claim v) (s.decodeWith f cx r claim w) := by
  refine (h.toEntries s.schema.layout).bind fun es es' hes => ?_
  refine (alike_takeAll hmembers hcatalogs r hes).bind ?_
  rintro ⟨r, left⟩ ⟨_, left'⟩ ⟨rfl, hleft⟩
  refine (hclaim r left left' hleft).bind ?_
  rintro ⟨result, rest⟩ ⟨_, rest'⟩ ⟨rfl, hrest⟩
  exact (hrest.finish s.schema.entity).bind_eq fun _ => .same _

/-- A record without a hook is read alike from raw values that look alike. -/
theorem alike_decode (hmembers : ∀ m ∈ s.members, m.Indifferent)
    (hcatalogs : cx.catalogs.Indifferent) (r : R) (h : f.Like v w) :
    Alike Eq (s.decode f cx r v) (s.decode f cx r w) := by
  refine alike_decodeWith hmembers hcatalogs ?_ r h
  intro r es es' hes
  exact .ok ⟨rfl, hes⟩

/-- Its codec is indifferent to the order of entries. -/
theorem indifferent_codec (hmembers : ∀ m ∈ s.members, m.Indifferent) (blank : R) :
    (s.codec blank).Indifferent :=
  fun _ _ _ _ hcatalogs h => alike_decode hmembers hcatalogs blank h

/-- The hooks that are attached to a blank record do not depend on what is read. -/
theorem indifferent_holding [Attachable R] (hmembers : ∀ m ∈ s.members, m.Indifferent)
    (blank : R) : (s.holding blank).Indifferent := by
  intro f cx v w hcatalogs h
  exact (Alike.same (Coded.ofHook (cx.attach blank))).bind_eq fun r =>
    alike_decode hmembers hcatalogs r h

end

/-- A record with a hook is read alike too. -/
theorem alike_decodeExtended {E : Type} [Hookable E] {s : RecordShape E} {f : Format}
    {cx : Context} {v w : Raw f} (hmembers : ∀ m ∈ s.members, m.Indifferent)
    (hcatalogs : cx.catalogs.Indifferent) {decode : Kind → Raw f → Coded Datum}
    (hdecode : ReadsAlike decode) (e : E) (h : f.Like v w) :
    Alike Eq (s.decodeExtended f cx decode e v) (s.decodeExtended f cx decode e w) := by
  refine alike_decodeWith hmembers hcatalogs (fun e es es' hes => ?_) e h
  refine (hdecode.take (Hookable.slot e) hes).bind ?_
  rintro ⟨slot, left⟩ ⟨_, left'⟩ ⟨rfl, hleft⟩
  exact .ok ⟨rfl, hleft⟩

end RecordShape

/-! ## The values of hook fields -/

namespace Datum

variable {f : Format} {cx : Context}

theorem alike_decodePlain (hcatalogs : cx.catalogs.Indifferent) {v w : Raw f} (h : f.Like v w)
    (kind : Kind) : Alike Eq (decodePlain f cx v kind) (decodePlain f cx w kind) := by
  cases kind with
  | bool => exact (FieldCodec.indifferent_bool f cx v w hcatalogs h).map_eq _
  | unsigned width => exact (h.toInt _ _).map_eq _
  | signed width => exact (h.toInt _ _).map_eq _
  | string => exact (FieldCodec.indifferent_string f cx v w hcatalogs h).map_eq _
  | bytes => exact (FieldCodec.indifferent_bytes f cx v w hcatalogs h).map_eq _
  | uuid => exact (FieldCodec.indifferent_uuid f cx v w hcatalogs h).map_eq _
  | tagId => exact (FieldCodec.indifferent_tagId f cx v w hcatalogs h).map_eq _
  | ueid => exact (FieldCodec.indifferent_ueid f cx v w hcatalogs h).map_eq _
  | digest => exact (FieldCodec.indifferent_digest f cx v w hcatalogs h).map_eq _
  | classId => exact (FieldCodec.indifferent_choice .classId f cx v w hcatalogs h).map_eq _
  | entity | list => exact .error rfl rfl

/-- Values of hook fields are read alike, down to any depth. -/
theorem alike_decodeWithin (hcatalogs : cx.catalogs.Indifferent) (depth : Nat) :
    ReadsAlike (decodeWithin f cx depth) := by
  induction depth with
  | zero =>
    intro kind v w h
    unfold decodeWithin
    exact alike_decodePlain hcatalogs h kind
  | succ depth ih =>
    intro kind v w h
    cases kind with
    | list item =>
      rw [decodeWithin, decodeWithin]
      refine h.toList.bind fun items items' hitems => ?_
      exact (Alike.encodeItems (ih item) hitems 0).bind_eq fun _ => .same _
    | entity =>
      rw [decodeWithin, decodeWithin]
      refine (Alike.same (Coded.ofHook (cx.attach (default : Entity)))).bind_eq fun e => ?_
      have hentity := RecordShape.alike_decodeExtended
        (fun _ hm => MemberLaw.indifferent.member_entityShape hm) hcatalogs ih e h
      exact hentity.bind_eq fun _ => .same _
    | _ =>
      rw [decodeWithin, decodeWithin]
      · exact alike_decodePlain hcatalogs h _
      all_goals intros; contradiction

/-- The fields of hooks.  The two values may be nested differently, so what is allowed for is the
greater of the two. -/
theorem alike_decode (hcatalogs : cx.catalogs.Indifferent) :
    ReadsAlike (Datum.decode f cx) := by
  intro kind v w h
  have hv : f.depth v < max (f.depth v) (f.depth w) + 1 := by omega
  have hw : f.depth w < max (f.depth v) (f.depth w) + 1 := by omega
  rw [← decodeWithin_eq_decode kind hv, ← decodeWithin_eq_decode kind hw]
  exact alike_decodeWithin hcatalogs _ kind v w h

end Datum

namespace RecordShape

variable {E : Type} [Hookable E] {s : RecordShape E}

/-- A record with its hook attached is read alike. -/
theorem alike_decodeAttached (hmembers : ∀ m ∈ s.members, m.Indifferent) {f : Format}
    {cx : Context} (hcatalogs : cx.catalogs.Indifferent) (e : E) {v w : Raw f} (h : f.Like v w) :
    Alike Eq (s.decodeAttached f cx e v) (s.decodeAttached f cx e w) :=
  alike_decodeExtended hmembers hcatalogs (Datum.alike_decode hcatalogs) e h

/-- The codec of records with hooks is indifferent to the order of entries. -/
theorem indifferent_extended [Attachable E] (hmembers : ∀ m ∈ s.members, m.Indifferent)
    (blank : E) : (s.extended blank).Indifferent := by
  intro f cx v w hcatalogs h
  exact (Alike.same (Coded.ofHook (cx.attach blank))).bind_eq fun e =>
    alike_decodeAttached hmembers hcatalogs e h

end RecordShape

end Rim
