import Rim.Proofs.Record.Peek
import Rim.Proofs.Record.RoundTrip
/-!
# Which values are records

Reading takes a value apart into entries, lets each field claim its own in turn, and refuses what is
left.  As a checked schema tells the fields apart, no claim disturbs another: each field finds what
the value holds under its key, whichever fields came before.  So a value is a record exactly if it
has the shape of one, every field can be read off it and no key is foreign; and the error of any
other value is that of the first of these steps to fail.

## Main definitions

* `Format.IsRecord`, `Format.Misshapen`: values of the shape of a record, and what is wrong with the
  others.
* `Format.valueAt?`, `Format.keysOf`: what a record holds under a key, and its keys.
* `FieldOf.Readable`, `FieldOf.Fault`: fields that can be read, and what is wrong with the others.
* `RecordTree.Accepts`, `RecordTree.Refuses`: the values that are records, and why others are not.

## Main results

* `exists_takeAll`, `takeAll_of_fault`: what fields claim that are told apart.
* `RecordTree.decode_classified`: reading accepts what is a record, and tells why anything else is
  not.
-/

namespace Rim

/-! ## Shapes -/

namespace Format

/-- A key of the binary form of a record. -/
def IsRecordKey (k : Cbor) : Prop := ∃ n : UInt64, k = .int n.toNat

/-- A value of the shape of a record: a map under unsigned integers, an array if the record is one,
and an object in the text form. -/
def IsRecord : (f : Format) → Layout → Raw f → Prop
  | .cbor, .map, v =>
    ∃ entries : List (Cbor × Cbor), v = Cbor.map entries ∧ ∀ e ∈ entries, IsRecordKey e.1
  | .cbor, .array, v => ∃ items : List Cbor, v = Cbor.array items
  | .json, _, v => ∃ members : List (String × Json), v = Json.object members

/-- The word messages use for what is no key of a record. -/
def keyWord : Cbor → String
  | .int _ => "negative integer"
  | k => k.sortName

/-- What is wrong with the shape of a value; of several keys that no record has, the first. -/
inductive Misshapen : (f : Format) → Layout → Raw f → RecordError → Prop
  | noMap {v : Cbor} (h : ∀ entries, v ≠ .map entries) :
    Misshapen .cbor .map v (.wrongType "map" v.sortName)
  | foreignKey {before after : List (Cbor × Cbor)} {k x : Cbor}
    (hbefore : ∀ e ∈ before, IsRecordKey e.1) (hk : ¬ IsRecordKey k) :
    Misshapen .cbor .map (Cbor.map (before ++ (k, x) :: after))
      (.wrongType "unsigned integer key" (keyWord k))
  | noArray {v : Cbor} (h : ∀ items, v ≠ .array items) :
    Misshapen .cbor .array v (.wrongType "array" v.sortName)
  | noObject {layout : Layout} {v : Json} (h : ∀ members, v ≠ .object members) :
    Misshapen .json layout v (.wrongType "object" v.sortName)

/-- What a record holds under the key of a field: an entry of a map, an item of an array, or a
member of an object. -/
def valueAt? : (f : Format) → Layout → Raw f → FieldSpec → Option (Raw f)
  | .cbor, .array, .array items, spec => items[spec.key.toNat]?
  | f, _, v, spec => f.entry? v spec

/-- The keys of a record: those of a map, the positions of an array, or the names of an object. -/
def keysOf : (f : Format) → Layout → Raw f → List (Key f)
  | .cbor, .map, .map entries =>
    entries.filterMap fun
      | (.int k, _) => some (UInt64.ofNat k.toNat)
      | _ => none
  | .cbor, .array, .array items => (List.range items.length).map UInt64.ofNat
  | .json, _, .object members => members.map (·.1)
  | _, _, _ => []

/-- A map or an object without what it holds under the key of a field. -/
def remove : (f : Format) → FieldSpec → Raw f → Raw f
  | .cbor, spec, .map entries =>
    Cbor.map (entries.filter fun
      | (.int k, _) => k ≠ spec.key.toNat
      | _ => true)
  | .json, spec, .object members => Json.object (members.filter fun e => e.1 ≠ spec.name)
  | _, _, v => v

/-! ### Maps by key -/

theorem recordKey_of_not {k : Cbor} (h : ¬ IsRecordKey k) :
    recordKey k = .error (.wrongType "unsigned integer key" (keyWord k)) := by
  cases k with
  | int v =>
    unfold recordKey
    refine if_neg fun hv => h ⟨UInt64.ofNat v.toNat, ?_⟩
    rw [UInt64.toNat_ofNat', Nat.mod_eq_of_lt (by omega), Int.toNat_of_nonneg hv.1]
  | null | bool _ | float _ | bytes _ | text _ | array _ | map _ | tag _ _ => rfl

theorem exists_eq_map_keyed {entries : List (Cbor × Cbor)} (h : ∀ e ∈ entries, IsRecordKey e.1) :
    ∃ es : List (UInt64 × Cbor), entries = es.map Cbor.keyed := by
  induction entries with
  | nil => exact ⟨[], rfl⟩
  | cons e rest ih =>
    obtain ⟨⟨n, hn⟩, hrest⟩ := List.forall_mem_cons.1 h
    obtain ⟨es, rfl⟩ := ih hrest
    refine ⟨(n, e.2) :: es, ?_⟩
    rw [List.map_cons, Cbor.keyed, ← hn]

theorem recordEntries_of_foreignKey {before after : List (Cbor × Cbor)} {k x : Cbor}
    (hbefore : ∀ e ∈ before, IsRecordKey e.1) (hk : ¬ IsRecordKey k) :
    recordEntries (before ++ (k, x) :: after) =
      .error (.wrongType "unsigned integer key" (keyWord k)) := by
  induction before with
  | nil =>
    rw [List.nil_append, recordEntries, recordKey_of_not hk]
    rfl
  | cons e before ih =>
    obtain ⟨⟨n, hn⟩, hrest⟩ := List.forall_mem_cons.1 hbefore
    obtain ⟨key, value⟩ := e
    have hkey : recordKey key = .ok n := (congrArg recordKey hn).trans (recordKey_toNat n)
    rw [List.cons_append, recordEntries, hkey, ih hrest]
    rfl

theorem keys_map_keyed (es : List (UInt64 × Cbor)) :
    keysOf .cbor .map (Cbor.map (es.map Cbor.keyed)) = es.map (·.1) := by
  show (es.map Cbor.keyed).filterMap _ = _
  rw [List.filterMap_map, ← List.filterMap_eq_map]
  refine List.filterMap_congr fun e _ => ?_
  simp [Cbor.keyed]

/-! ### Arrays by position -/

/-- An item is found under the number of its position. -/
theorem get?_positioned (items : List Cbor) (spec : FieldSpec) :
    Entries.get? (f := .cbor) (positioned 0 items) spec = items[spec.key.toNat]? := by
  have hbound := spec.key.toNat_lt
  have hfind : ∀ n ≤ spec.key.toNat,
      Entries.get? (f := .cbor) (positioned n items) spec = items[spec.key.toNat - n]? := by
    induction items with
    | nil =>
      intro n _
      rfl
    | cons v rest ih =>
      intro n hn
      unfold Entries.get?
      rw [positioned, List.find?_cons]
      by_cases heq : spec.key.toNat = n
      · have hkey : UInt64.ofNat n = spec.key := by rw [← heq, UInt64.ofNat_toNat]
        simp [Format.keyFor, hkey, heq]
      · have hkey : UInt64.ofNat n ≠ spec.key := by
          intro h
          have hnat := congrArg UInt64.toNat h
          rw [UInt64.toNat_ofNat', Nat.mod_eq_of_lt (by omega)] at hnat
          exact heq hnat.symm
        have hrest := ih (n + 1) (by omega)
        have hsub : spec.key.toNat - n = spec.key.toNat - (n + 1) + 1 := by omega
        rw [hsub, List.getElem?_cons_succ, ← hrest]
        simp [Entries.get?, Format.keyFor, hkey]
  exact hfind 0 (Nat.zero_le _)

theorem keys_positioned (items : List Cbor) (n : Nat) :
    (positioned n items).map (·.1) = (List.range' n items.length).map UInt64.ofNat := by
  induction items generalizing n with
  | nil => rfl
  | cons v rest ih =>
    rw [positioned, List.map_cons, ih, List.length_cons, List.range'_succ, List.map_cons]

/-! ### Taking apart -/

variable {f : Format} {layout : Layout} {v : Raw f}

/-- A value of the shape of a record is taken apart into entries, which hold what it holds. -/
theorem IsRecord.exists_toEntries (h : f.IsRecord layout v) :
    ∃ es : Entries f, f.toEntries layout v = .ok es ∧ es.map (·.1) = f.keysOf layout v ∧
      ∀ spec, es.get? spec = f.valueAt? layout v spec := by
  cases f with
  | json =>
    obtain ⟨members, rfl⟩ : ∃ members, v = Json.object members := h
    refine ⟨members, rfl, rfl, fun spec => ?_⟩
    exact (find?_eq_find? spec.name members).symm
  | cbor =>
    cases layout with
    | map =>
      obtain ⟨entries, rfl, hkeys⟩ := h
      obtain ⟨es, rfl⟩ := exists_eq_map_keyed hkeys
      have hes : toEntries .cbor .map (Cbor.map (es.map Cbor.keyed)) = .ok es :=
        recordEntries_keyed es
      exact ⟨es, hes, (keys_map_keyed es).symm, fun spec => (entry_eq_get? hes spec).symm⟩
    | array =>
      obtain ⟨items, rfl⟩ := h
      refine ⟨positioned 0 items, rfl, ?_, get?_positioned items⟩
      show (positioned 0 items).map (·.1) = (List.range items.length).map UInt64.ofNat
      rw [keys_positioned, List.range_eq_range']

theorem Misshapen.toEntries_eq {e : RecordError} (h : f.Misshapen layout v e) :
    f.toEntries layout v = .error e := by
  cases h with
  | @noMap v h =>
    cases v with
    | map entries => exact absurd rfl (h entries)
    | null | bool _ | int _ | float _ | bytes _ | text _ | array _ | tag _ _ => rfl
  | foreignKey hbefore hk => exact recordEntries_of_foreignKey hbefore hk
  | @noArray v h =>
    cases v with
    | array items => exact absurd rfl (h items)
    | null | bool _ | int _ | float _ | bytes _ | text _ | map _ | tag _ _ => rfl
  | @noObject layout v h =>
    cases v with
    | object members => exact absurd rfl (h members)
    | null | bool _ | int _ | float _ | string _ | array _ => rfl

/-- A raw value is a record of a layout or misshapen for it. -/
theorem isRecord_or_misshapen (f : Format) (layout : Layout) (v : Raw f) :
    f.IsRecord layout v ∨ ∃ e, f.Misshapen layout v e := by
  cases f with
  | json =>
    by_cases h : ∃ members, v = Json.object members
    · exact .inl h
    · exact .inr ⟨_, .noObject (not_exists.1 h)⟩
  | cbor =>
    cases layout with
    | array =>
      by_cases h : ∃ items, v = Cbor.array items
      · exact .inl h
      · exact .inr ⟨_, .noArray (not_exists.1 h)⟩
    | map =>
      by_cases h : ∃ entries, v = Cbor.map entries
      · obtain ⟨entries, rfl⟩ := h
        rcases forall_mem_or_exists_first (fun e : Cbor × Cbor => IsRecordKey e.1) entries with
          hall | ⟨before, ⟨k, x⟩, after, rfl, hbefore, hk⟩
        · exact .inl ⟨entries, rfl, hall⟩
        · exact .inr ⟨_, .foreignKey hbefore hk⟩
      · exact .inr ⟨_, .noMap (not_exists.1 h)⟩

/-! ### Removing -/

theorem filter_keyed (es : List (UInt64 × Cbor)) (spec : FieldSpec) :
    remove .cbor spec (Cbor.map (es.map Cbor.keyed)) =
      Cbor.map ((Entries.without (f := .cbor) es spec).map Cbor.keyed) := by
  show Cbor.map ((es.map Cbor.keyed).filter _) = Cbor.map ((es.filter _).map Cbor.keyed)
  rw [List.filter_map]
  congr 2
  refine List.filter_congr fun e _ => ?_
  have hkey : (e.1.toNat : Int) = spec.key.toNat ↔ e.1 = spec.key := by
    rw [Int.natCast_inj, UInt64.toNat_inj]
  by_cases h : e.1 = spec.key <;> simp [Cbor.keyed, Format.keyFor, hkey, h]

/-- A map or an object from which a field is removed keeps the shape of a record and what it holds
under other keys.  What is taken apart after removing are the entries that another field's claim
leaves. -/
theorem IsRecord.remove (h : f.IsRecord layout v) (hmap : f = .json ∨ layout = .map)
    (spec : FieldSpec) :
    f.IsRecord layout (f.remove spec v) ∧ f.valueAt? layout (f.remove spec v) spec = none ∧
      ∀ other, f.keyFor other ≠ f.keyFor spec →
        f.valueAt? layout (f.remove spec v) other = f.valueAt? layout v other := by
  obtain ⟨es, hes, -, hget⟩ := h.exists_toEntries
  have hremove : f.IsRecord layout (f.remove spec v) ∧
      f.toEntries layout (f.remove spec v) = .ok (Entries.without es spec) := by
    cases f with
    | json =>
      obtain ⟨members, rfl⟩ : ∃ members, v = Json.object members := h
      obtain rfl := Except.ok.inj hes
      exact ⟨⟨_, rfl⟩, rfl⟩
    | cbor =>
      obtain rfl := hmap.resolve_left (by simp)
      obtain ⟨entries, rfl, hkeys⟩ := h
      obtain ⟨keyed, rfl⟩ := exists_eq_map_keyed hkeys
      obtain rfl := Except.ok.inj ((recordEntries_keyed keyed).symm.trans hes)
      rw [filter_keyed]
      refine ⟨⟨_, rfl, fun e he => ?_⟩, recordEntries_keyed _⟩
      obtain ⟨a, -, rfl⟩ := List.mem_map.1 he
      exact ⟨a.1, rfl⟩
  obtain ⟨hrecord, hwithout⟩ := hremove
  obtain ⟨es', hes', -, hget'⟩ := hrecord.exists_toEntries
  obtain rfl := Except.ok.inj (hes'.symm.trans hwithout)
  refine ⟨hrecord, ?_, fun other hother => ?_⟩
  · rw [← hget']
    refine Entries.get?_of_absent fun e he => ?_
    simpa using (List.mem_filter.1 he).2
  · rw [← hget', ← hget, Entries.get?_without hother]

end Format

/-! ## Fields -/

namespace FieldOf

variable {R : Type} {φ : FieldOf R} {f : Format} {cx : Context} {o : Option (Raw f)}

/-- A field can be read off what a record holds under its key. -/
structure Readable (φ : FieldOf R) (f : Format) (cx : Context) (o : Option (Raw f)) : Prop where
  present : φ.spec.isOptional = false → o ≠ none
  decodes : ∀ v, o = some v → ∃ a, φ.codec.decode f cx v = .ok a

/-- What is wrong with a field: it is mandatory and missing, or its value cannot be read. -/
inductive Fault (φ : FieldOf R) (f : Format) (cx : Context) : Option (Raw f) → RecordError → Prop
  | missing (h : φ.spec.isOptional = false) : Fault φ f cx none (.missingField φ.spec)
  | undecodable {v : Raw f} {e : RecordError} (h : φ.codec.decode f cx v = .error e) :
    Fault φ f cx (some v) (.field φ.spec.name e)

/-- What a field is given can be read, or is at fault. -/
theorem readable_or_fault (φ : FieldOf R) (f : Format) (cx : Context) (o : Option (Raw f)) :
    φ.Readable f cx o ∨ ∃ e, φ.Fault f cx o e := by
  cases o with
  | none =>
    cases ho : φ.spec.isOptional with
    | false => exact .inr ⟨_, .missing ho⟩
    | true => exact .inl ⟨fun h => absurd (h.symm.trans ho) (by simp), by simp⟩
  | some v =>
    cases hv : φ.codec.decode f cx v with
    | error e => exact .inr ⟨_, .undecodable hv⟩
    | ok a =>
      refine .inl ⟨by simp, fun w hw => ⟨a, ?_⟩⟩
      rw [← Option.some.inj hw, hv]

theorem decodeClaimed_of_readable (h : φ.Readable f cx o) :
    ∃ a, Member.decodeClaimed φ.codec φ.spec f cx o = .ok a ∧ (o ≠ none → a ≠ none) := by
  cases o with
  | none => exact ⟨none, rfl, fun hne => absurd rfl hne⟩
  | some v =>
    obtain ⟨a, ha⟩ := h.decodes v rfl
    refine ⟨some a, ?_, by simp⟩
    show (Coded.underField φ.spec.name (φ.codec.decode f cx v)).map some = _
    rw [ha]
    rfl

theorem exists_decode_of_readable (hp : φ.spec.isOptional = φ.presence.mayBeAbsent)
    (h : φ.Readable f cx o) (r : R) : ∃ r', φ.member.decode f cx o r = .ok r' := by
  obtain ⟨a, ha, hsome⟩ := decodeClaimed_of_readable h
  have hpresent := h.present
  obtain ⟨spec, presence, codec, get, set⟩ := φ
  cases presence with
  | required =>
    obtain ⟨x, rfl⟩ := Option.ne_none_iff_exists'.1 (hsome (hpresent hp))
    exact ⟨_, Member.decode_required_eq_ok_iff.2 ⟨x, ha, rfl⟩⟩
  | optional => exact ⟨_, Member.decode_optional_eq_ok_iff.2 ⟨a, ha, rfl⟩⟩
  | defaulted absent => exact ⟨_, Member.decode_defaulted_eq_ok_iff.2 ⟨a, ha, rfl⟩⟩

theorem Fault.decode_eq {e : RecordError} (hp : φ.spec.isOptional = φ.presence.mayBeAbsent)
    (h : φ.Fault f cx o e) (r : R) : φ.member.decode f cx o r = .error e := by
  cases h with
  | missing ho =>
    obtain ⟨spec, presence, codec, get, set⟩ := φ
    cases presence with
    | required => rfl
    | optional => exact absurd (hp.symm.trans ho) (by simp [Presence.mayBeAbsent])
    | defaulted absent => exact absurd (hp.symm.trans ho) (by simp [Presence.mayBeAbsent])
  | @undecodable v e hv =>
    have hclaimed : Member.decodeClaimed φ.codec φ.spec f cx (some v) =
        .error (.field φ.spec.name e) := by
      show (Coded.underField φ.spec.name (φ.codec.decode f cx v)).map some = _
      rw [hv]
      rfl
    obtain ⟨spec, presence, codec, get, set⟩ := φ
    cases presence <;>
      simp only [member, Presence.member, Member.required, Member.optional, Member.defaulted] <;>
      rw [hclaimed] <;> rfl

end FieldOf

/-! ## Claims

What a field finds does not depend on the fields before it, as they claim under other keys. -/

section Claims

variable {R : Type} {f : Format} {cx : Context}

theorem takeAll_cons_eq (m : Member R) (rest : List (Member R)) (r : R) (entries : Entries f) :
    takeAll cx (m :: rest) r entries =
      (m.decode f cx (entries.get? m.spec) r).bind fun r =>
        takeAll cx rest r (entries.without m.spec) := rfl

theorem readable_without {φ : FieldOf R} {fields : List (FieldOf R)}
    (hapart : ∀ spec ∈ fields.map (·.spec), φ.spec.Apart spec) {entries : Entries f}
    (h : ∀ ψ ∈ fields, ψ.Readable f cx (entries.get? ψ.spec)) :
    ∀ ψ ∈ fields, ψ.Readable f cx ((entries.without φ.spec).get? ψ.spec) := by
  intro ψ hψ
  rw [Entries.get?_without ((hapart _ (List.mem_map_of_mem hψ)).symm.keyFor_ne f)]
  exact h ψ hψ

/-- Fields that can all be read claim their entries and leave the others. -/
theorem exists_takeAll {fields : List (FieldOf R)}
    (hp : ∀ φ ∈ fields, φ.spec.isOptional = φ.presence.mayBeAbsent)
    (hapart : (fields.map (·.spec)).Pairwise FieldSpec.Apart) {entries : Entries f}
    (h : ∀ φ ∈ fields, φ.Readable f cx (entries.get? φ.spec)) (r : R) :
    ∃ r', takeAll cx (fields.map FieldOf.member) r entries =
      .ok (r', List.filter (fun e => e.1 ∉ fields.map fun φ => f.keyFor φ.spec) entries) := by
  induction fields generalizing entries r with
  | nil => exact ⟨r, by simp [takeAll]⟩
  | cons φ fields ih =>
    obtain ⟨hφp, hp⟩ := List.forall_mem_cons.1 hp
    obtain ⟨hfirst, hapart⟩ := List.pairwise_cons.1 hapart
    obtain ⟨hφ, hfields⟩ := List.forall_mem_cons.1 h
    obtain ⟨r₁, hr₁⟩ := FieldOf.exists_decode_of_readable hφp hφ r
    obtain ⟨r', hr'⟩ := ih hp hapart (readable_without hfirst hfields) r₁
    refine ⟨r', ?_⟩
    rw [List.map_cons, takeAll_cons_eq, FieldOf.spec_member, hr₁]
    show takeAll cx (fields.map FieldOf.member) r₁ (entries.without φ.spec) = _
    rw [hr', Entries.without, List.filter_filter]
    congr 3
    funext e
    simp [Bool.and_comm]

/-- The first field that cannot be read ends reading with its error. -/
theorem takeAll_of_fault {before after : List (FieldOf R)} {φ : FieldOf R}
    (hp : ∀ ψ ∈ before ++ φ :: after, ψ.spec.isOptional = ψ.presence.mayBeAbsent)
    (hapart : ((before ++ φ :: after).map (·.spec)).Pairwise FieldSpec.Apart)
    {entries : Entries f} (hbefore : ∀ ψ ∈ before, ψ.Readable f cx (entries.get? ψ.spec))
    {e : RecordError} (h : φ.Fault f cx (entries.get? φ.spec) e) (r : R) :
    takeAll cx ((before ++ φ :: after).map FieldOf.member) r entries = .error e := by
  induction before generalizing entries r with
  | nil =>
    rw [List.nil_append, List.map_cons, takeAll_cons_eq, FieldOf.spec_member,
      h.decode_eq (hp φ List.mem_cons_self)]
    rfl
  | cons ψ before ih =>
    rw [List.cons_append] at hp hapart
    obtain ⟨hψp, hp⟩ := List.forall_mem_cons.1 hp
    obtain ⟨hfirst, hapart⟩ := List.pairwise_cons.1 hapart
    obtain ⟨hψ, hbefore⟩ := List.forall_mem_cons.1 hbefore
    obtain ⟨r₁, hr₁⟩ := FieldOf.exists_decode_of_readable hψp hψ r
    have hrest : ∀ spec ∈ before.map (·.spec), ψ.spec.Apart spec := fun spec hspec =>
      hfirst spec (by rw [List.map_append]; exact List.mem_append_left _ hspec)
    have hφ : ψ.spec.Apart φ.spec := hfirst φ.spec (by simp)
    rw [List.cons_append, List.map_cons, takeAll_cons_eq, FieldOf.spec_member, hr₁]
    refine ih hp hapart (readable_without hrest hbefore) ?_ r₁
    rwa [Entries.get?_without (hφ.symm.keyFor_ne f)]

end Claims

/-! ## Records -/

namespace RecordTree

variable {R : Type}

/-- The keys of a value that no field of the record type has. -/
def foreignKeys (t : RecordTree R) (f : Format) (v : Raw f) : List (Key f) :=
  (f.keysOf t.schema.layout v).filter fun k => k ∉ t.schema.allFields.map f.keyFor

/-- A value is a record: it has the shape of one, all mandatory fields are there, all fields that
are there can be read, and there is nothing else. -/
structure Accepts (t : RecordTree R) (f : Format) (cx : Context) (v : Raw f) : Prop where
  shape : f.IsRecord t.schema.layout v
  fields : ∀ φ ∈ t.fields, φ.Readable f cx (f.valueAt? t.schema.layout v φ.spec)
  keys : ∀ k ∈ f.keysOf t.schema.layout v, k ∈ t.schema.allFields.map f.keyFor

/-- Why a value is no record: its shape, or else the first field that is missing or cannot be read,
in the order the fields are taken, or else the keys that no field has, in ascending order. -/
inductive Refuses (t : RecordTree R) (taken : List (FieldOf R)) (f : Format) (cx : Context)
    (v : Raw f) : RecordError → Prop
  | shape {e : RecordError} (h : f.Misshapen t.schema.layout v e) : Refuses t taken f cx v e
  | field {before after : List (FieldOf R)} {φ : FieldOf R} {e : RecordError}
    (hshape : f.IsRecord t.schema.layout v) (htaken : taken = before ++ φ :: after)
    (hbefore : ∀ ψ ∈ before, ψ.Readable f cx (f.valueAt? t.schema.layout v ψ.spec))
    (h : φ.Fault f cx (f.valueAt? t.schema.layout v φ.spec) e) : Refuses t taken f cx v e
  | foreign (hshape : f.IsRecord t.schema.layout v)
    (hfields : ∀ φ ∈ taken, φ.Readable f cx (f.valueAt? t.schema.layout v φ.spec))
    (h : t.foreignKeys f v ≠ []) :
    Refuses t taken f cx v
      (.unclaimed t.schema.entity (((t.foreignKeys f v).mergeSort f.keyLe).map f.showKey))

variable {t : RecordTree R} {taken : List (FieldOf R)} {f : Format} {cx : Context} {v : Raw f}

/-- A tree accepts a raw value or refuses it with an error. -/
theorem accepts_or_refuses (htaken : taken.Perm t.fields) :
    t.Accepts f cx v ∨ ∃ e, t.Refuses taken f cx v e := by
  rcases f.isRecord_or_misshapen t.schema.layout v with hshape | ⟨e, h⟩
  swap
  · exact .inr ⟨e, .shape h⟩
  rcases forall_mem_or_exists_first
      (fun φ : FieldOf R => φ.Readable f cx (f.valueAt? t.schema.layout v φ.spec)) taken with
    hall | ⟨before, φ, after, hsplit, hbefore, hφ⟩
  swap
  · obtain ⟨e, h⟩ := (φ.readable_or_fault f cx _).resolve_left hφ
    exact .inr ⟨e, .field hshape hsplit hbefore h⟩
  by_cases hforeign : t.foreignKeys f v = []
  · refine .inl ⟨hshape, fun φ hφ => hall φ (htaken.mem_iff.2 hφ), fun k hk => ?_⟩
    have hnot := List.filter_eq_nil_iff.1 hforeign k hk
    simpa using hnot
  · exact .inr ⟨_, .foreign hshape hall hforeign⟩

section Decoding

variable (hcheck : t.schema.check = .ok ())
  (hp : ∀ φ ∈ t.fields, φ.spec.isOptional = φ.presence.mayBeAbsent)
  (htaken : taken.Perm t.fields)

include hcheck htaken in
theorem apart_taken : (taken.map (·.spec)).Pairwise FieldSpec.Apart := by
  have hapart := (Schema.check_eq_ok_iff.1 hcheck).1
  rw [← t.map_spec_fields] at hapart
  exact ((htaken.map _).pairwise_iff FieldSpec.Apart.symm).2 hapart

include hcheck hp htaken in
/-- Reading a value of the right shape whose fields can all be read comes down to its keys. -/
theorem exists_decode_eq (hshape : f.IsRecord t.schema.layout v)
    (hfields : ∀ φ ∈ taken, φ.Readable f cx (f.valueAt? t.schema.layout v φ.spec)) (blank : R) :
    ∃ r, (RecordShape.mk t.schema (taken.map FieldOf.member)).decode f cx blank v =
      if t.foreignKeys f v = [] then .ok r
      else .error (.unclaimed t.schema.entity
        (((t.foreignKeys f v).mergeSort f.keyLe).map f.showKey)) := by
  obtain ⟨es, hes, hkeys, hget⟩ := hshape.exists_toEntries
  have hreadable : ∀ φ ∈ taken, φ.Readable f cx (es.get? φ.spec) := by
    intro φ hφ
    rw [hget]
    exact hfields φ hφ
  obtain ⟨r, hr⟩ := exists_takeAll (fun φ hφ => hp φ (htaken.mem_iff.1 hφ))
    (apart_taken hcheck htaken) hreadable blank
  refine ⟨r, ?_⟩
  have hmem : ∀ k, (k ∈ taken.map fun φ => f.keyFor φ.spec) ↔
      k ∈ t.schema.allFields.map f.keyFor := by
    intro k
    rw [← t.map_spec_fields, List.map_map]
    exact (htaken.map _).mem_iff
  have hleft : (List.filter (fun e => e.1 ∉ taken.map fun φ => f.keyFor φ.spec) es).map (·.1) =
      t.foreignKeys f v := by
    unfold foreignKeys
    rw [← hkeys, List.filter_map]
    congr 1
    refine List.filter_congr fun e _ => ?_
    simp only [hmem, Function.comp_apply]
  unfold RecordShape.decode RecordShape.decodeWith
  rw [hes]
  show (takeAll cx (taken.map FieldOf.member) blank es).bind _ = _
  rw [hr]
  show (Entries.finish t.schema.entity _).map (fun _ => r) = _
  unfold Entries.finish Entries.keys
  rw [hleft]
  by_cases hnil : t.foreignKeys f v = []
  · rw [hnil, List.map_eq_nil_iff] at hleft
    rw [hleft, if_pos hnil]
    rfl
  · have hne : List.filter (fun e => e.1 ∉ taken.map fun φ => f.keyFor φ.spec) es ≠ [] := by
      intro h
      rw [h] at hleft
      exact hnil hleft.symm
    rw [if_neg (by simpa using hne), if_neg hnil]
    rfl

include hcheck hp htaken in
/-- What a tree accepts is read. -/
theorem Accepts.exists_decode (h : t.Accepts f cx v) (blank : R) :
    ∃ r, (RecordShape.mk t.schema (taken.map FieldOf.member)).decode f cx blank v = .ok r := by
  obtain ⟨r, hr⟩ := exists_decode_eq hcheck hp htaken h.shape
    (fun φ hφ => h.fields φ (htaken.mem_iff.1 hφ)) blank
  refine ⟨r, hr.trans (if_pos ?_)⟩
  exact List.filter_eq_nil_iff.2 fun k hk => by simpa using h.keys k hk

include hcheck hp htaken in
/-- What a tree refuses fails with the error it is refused with. -/
theorem Refuses.decode_eq {e : RecordError} (h : t.Refuses taken f cx v e) (blank : R) :
    (RecordShape.mk t.schema (taken.map FieldOf.member)).decode f cx blank v = .error e := by
  cases h with
  | shape h =>
    unfold RecordShape.decode RecordShape.decodeWith
    rw [h.toEntries_eq]
    rfl
  | @field before after φ e hshape hsplit hbefore h =>
    obtain ⟨es, hes, -, hget⟩ := hshape.exists_toEntries
    have hapart := apart_taken hcheck htaken
    subst hsplit
    unfold RecordShape.decode RecordShape.decodeWith
    rw [hes]
    show (takeAll cx _ blank es).bind _ = _
    rw [takeAll_of_fault (fun ψ hψ => hp ψ (htaken.mem_iff.1 hψ)) hapart
      (fun ψ hψ => by rw [hget]; exact hbefore ψ hψ) (by rw [hget]; exact h)]
    rfl
  | foreign hshape hfields h =>
    obtain ⟨r, hr⟩ := exists_decode_eq hcheck hp htaken hshape hfields blank
    exact hr.trans (if_neg h)

include hcheck hp htaken in
/-- A record that lost a mandatory field is missed that field, as all others can still be read. -/
theorem Accepts.decode_remove (h : t.Accepts f cx v) (hmap : f = .json ∨ t.schema.layout = .map)
    {φ : FieldOf R} (hφ : φ ∈ t.fields) (hmandatory : φ.spec.isOptional = false) (blank : R) :
    (RecordShape.mk t.schema (taken.map FieldOf.member)).decode f cx blank (f.remove φ.spec v) =
      .error (.missingField φ.spec) := by
  obtain ⟨hshape, hnone, hothers⟩ := h.shape.remove hmap φ.spec
  obtain ⟨before, after, hsplit⟩ := List.append_of_mem (htaken.mem_iff.2 hφ)
  have hapart := apart_taken hcheck htaken
  refine Refuses.decode_eq hcheck hp htaken (.field hshape hsplit (fun ψ hψ => ?_) ?_) blank
  · rw [hsplit, List.map_append, List.map_cons] at hapart
    have hψφ := (List.pairwise_append.1 hapart).2.2 ψ.spec (List.mem_map_of_mem hψ) φ.spec
      List.mem_cons_self
    rw [hothers _ (hψφ.keyFor_ne f)]
    exact h.fields ψ (htaken.mem_iff.1 (hsplit ▸ List.mem_append_left _ hψ))
  · rw [hnone]
    exact .missing hmandatory

end Decoding

/-- Reading a record of a checked schema, whose fields may be absent as the schema says and are
taken in any order, accepts exactly the values that are records; any other value is refused for the
first reason there is against it.  A record that loses one of its mandatory fields is refused for
want of that field.  One of the two holds of any value, and reading has one outcome. -/
theorem decode_classified (t : RecordTree R) (hcheck : t.schema.check = .ok ())
    (hp : ∀ φ ∈ t.fields, φ.spec.isOptional = φ.presence.mayBeAbsent) (taken : List (FieldOf R))
    (htaken : taken.Perm t.fields) (f : Format) (cx : Context) (blank : R) (v : Raw f) :
    ((∃ r, (RecordShape.mk t.schema (taken.map FieldOf.member)).decode f cx blank v = .ok r) ↔
        t.Accepts f cx v) ∧
      (∀ e, (RecordShape.mk t.schema (taken.map FieldOf.member)).decode f cx blank v = .error e ↔
        t.Refuses taken f cx v e) ∧
      ((∃ r, (RecordShape.mk t.schema (taken.map FieldOf.member)).decode f cx blank v = .ok r) →
        (f = .json ∨ t.schema.layout = .map) → ∀ φ ∈ t.fields, φ.spec.isOptional = false →
          (RecordShape.mk t.schema (taken.map FieldOf.member)).decode f cx blank
            (f.remove φ.spec v) = .error (.missingField φ.spec)) := by
  have haccepts := fun h : t.Accepts f cx v => h.exists_decode hcheck hp htaken blank
  have hrefuses := fun (e : RecordError) (h : t.Refuses taken f cx v e) =>
    h.decode_eq hcheck hp htaken blank
  have hok : (∃ r, (RecordShape.mk t.schema (taken.map FieldOf.member)).decode f cx blank v =
      .ok r) → t.Accepts f cx v := by
    rintro ⟨r, hr⟩
    refine (accepts_or_refuses htaken).resolve_right ?_
    rintro ⟨e, he⟩
    cases hr.symm.trans (hrefuses e he)
  refine ⟨⟨hok, haccepts⟩, fun e => ⟨fun he => ?_, hrefuses e⟩, fun h hmap φ hφ hmandatory => ?_⟩
  · have hdecided : t.Accepts f cx v ∨ ∃ e, t.Refuses taken f cx v e := accepts_or_refuses htaken
    rcases hdecided with h | ⟨e', he'⟩
    · obtain ⟨r, hr⟩ := haccepts h
      cases hr.symm.trans he
    · obtain rfl := Except.error.inj (he.symm.trans (hrefuses e' he'))
      exact he'
  · exact (hok h).decode_remove hcheck hp htaken hmap hφ hmandatory blank

end RecordTree

/-- The text form of an entity with a registration URI. -/
def registeredEntity : Json :=
  .object [("name", .string "ACME"), ("roles", .array [.string "creator"]),
    ("regid", .string "https://acme.example")]

theorem entity_decode_classified :
    entityTree.schema.check = .ok () ∧
      (∀ φ ∈ entityTree.fields, φ.spec.isOptional = φ.presence.mayBeAbsent) ∧
      entityFields.Perm entityTree.fields ∧
      entityTree.Accepts .json ⟨.standard, none⟩ registeredEntity ∧
      entityShape.decode .json ⟨.standard, none⟩ default
          (Format.remove .json rolesField.spec registeredEntity) =
        .error (.missingField rolesField.spec) := by
  have hp : ∀ φ ∈ entityTree.fields, φ.spec.isOptional = φ.presence.mayBeAbsent := fun φ hφ =>
    (lawful_entityTree.fields.1 φ hφ).presence
  have hroles : rolesField ∈ entityTree.fields :=
    perm_entityFields.mem_iff.1 (by simp [entityFields])
  obtain ⟨haccepts, -, hremove⟩ := RecordTree.decode_classified entityTree rfl hp entityFields
    perm_entityFields .json ⟨.standard, none⟩ default registeredEntity
  rw [← entityShape_eq] at haccepts hremove
  have hread : ∃ r, entityShape.decode .json ⟨.standard, none⟩ default registeredEntity = .ok r :=
    ⟨_, rfl⟩
  exact ⟨rfl, hp, perm_entityFields, haccepts.1 hread,
    hremove hread (.inl rfl) rolesField hroles rfl⟩

end Rim
