import Rim.Document.Records
import Rim.Proofs.Hook.Contested
import Rim.Proofs.Record.Bare
/-!
# What the fields of records are declared as

The fields of all record types together hold few types of values: plain ones, type choices, lists,
and records again.  Once it is known what each field is declared as, whatever is found at any depth
of a document has a declared type too.

## Main definitions

* `FieldType`, `FieldType.codec`: the types of fields, and how their values travel.
* `RecordType.fieldTypes`, `RecordType.typeOf?`: what the fields of a record type are declared as.
* `Member.Declares`: a member writes and reads the values of a type under its own name.

## Main results

* `RecordType.declares`: every member of a record type writes and reads what its field is declared
  as.
* `RecordType.exists_typeOf?`: the fields of a record type are told by their names.
* `RecordType.decode_codec`: without hooks a record is read from a blank one.
-/

namespace Rim

/-! ## Types -/

/-- The types of fields. -/
inductive FieldType where
  | bool
  | uint64
  | string
  | bytes
  | uuid
  | ueid
  | digest
  | tagId
  | role
  | tagRel
  | corimRole
  | choice (family : Family)
  | list (item : FieldType)
  | record (type : RecordType)
  deriving DecidableEq, Repr

namespace FieldType

/-- The values of a type. -/
abbrev Value : FieldType → Type
  | bool => Bool
  | uint64 => UInt64
  | string => String
  | bytes => List UInt8
  | uuid => Uuid
  | ueid => Ueid
  | digest => Digest
  | tagId => TagId
  | role => Role
  | tagRel => TagRel
  | corimRole => CorimRole
  | choice family => family.Value
  | list item => List item.Value
  | record type => type.Value

/-- How the values of a type travel. -/
def codec : (d : FieldType) → FieldCodec d.Value
  | bool => .bool
  | uint64 => .uint64
  | string => .string
  | bytes => .bytes
  | uuid => .uuid
  | ueid => .ueid
  | digest => .digest
  | tagId => .tagId
  | role => .code Role
  | tagRel => .code TagRel
  | corimRole => .code CorimRole
  | choice family => .choice family
  | list item => .list item.codec
  | record type => type.codec

end FieldType

namespace RecordType

/-- What the fields of a record type are declared as, in the order they are written. -/
def fieldTypes : RecordType → List FieldType
  | comid =>
    [.string, .record tagIdentity, .list (.record comidEntity), .list (.record linkedTag),
      .record triples]
  | tagIdentity => [.tagId, .uint64]
  | comidEntity => [.string, .string, .list .role]
  | linkedTag => [.tagId, .tagRel]
  | triples =>
    [.list (.record valueTriple), .list (.record valueTriple), .list (.record keyTriple),
      .list (.record keyTriple)]
  | valueTriple => [.record environment, .list (.record measurement)]
  | keyTriple => [.record environment, .list (.choice .cryptoKey)]
  | environment => [.record envClass, .choice .instanceId, .choice .groupId]
  | envClass => [.choice .classId, .string, .string, .uint64, .uint64]
  | measurement => [.choice .mkey, .record mval, .list (.choice .cryptoKey)]
  | mval => [.list .digest, .record flags, .bytes, .string, .ueid, .uuid, .string]
  | flags => (List.finRange 10).map fun _ => .bool
  | corim =>
    [.tagId, .list (.choice .conciseTag), .choice .profileId, .list (.record corimEntity)]
  | corimEntity => [.string, .string, .list .corimRole]
  | identity => [.string, .string]

/-- What the field of a name is declared as. -/
def typeOf? (t : RecordType) (name : String) : Option FieldType :=
  ((t.shape.members.map (·.spec.name)).zip t.fieldTypes).lookup name

/-- The record of a type that reading starts from. -/
def blank : (t : RecordType) → t.Value
  | comid | tagIdentity | comidEntity | linkedTag | triples | valueTriple | keyTriple
  | environment | envClass | measurement | mval | flags | corim | corimEntity | identity => default

end RecordType

/-! ## Members

A member that may leave its field out writes it as declared whenever it writes it at all. -/

/-- A member writes the values of a codec; without hooks it reads them from the entry claimed for
it, its errors being those of the value under the name of the field, and refuses the lack of an
entry only for want of the field. -/
structure Member.Declares {R α : Type} (m : Member R) (c : FieldCodec α) : Prop where
  writes : ∀ r, (∀ f, m.encode f r = none) ∨ ∃ x, ∀ f, m.encode f r = some (c.encode f x)
  reads : ∀ f catalogs x r e, m.decode f ⟨catalogs, none⟩ (some x) r = .error e ↔
    ∃ e', c.decode f ⟨catalogs, none⟩ x = .error e' ∧ e = .field m.spec.name e'
  misses : ∀ f catalogs r e, m.decode f ⟨catalogs, none⟩ none r = .error e →
    e = .missingField m.spec

namespace Member

variable {R α : Type} {c : FieldCodec α} {spec : FieldSpec}

theorem writes_encodeUnlessEmpty (a : α) :
    (∀ f, encodeUnlessEmpty c spec f a = none) ∨
      ∃ x, ∀ f, encodeUnlessEmpty c spec f a = some (c.encode f x) := by
  by_cases hempty : (spec.isOptional && c.isEmpty a) = true
  · exact .inl fun f => if_pos hempty
  · exact .inr ⟨a, fun f => if_neg hempty⟩

/-- A field fails with the error of its value, wrapped with its name. -/
theorem decodeClaimed_eq_error_iff {f : Format} {cx : Context} {x : Raw f} {e : RecordError} :
    decodeClaimed c spec f cx (some x) = .error e ↔
      ∃ e', c.decode f cx x = .error e' ∧ e = .field spec.name e' := by
  unfold decodeClaimed
  dsimp only
  cases c.decode f cx x <;> simp [Except.map, eq_comm]

/-- A mandatory field declares its codec. -/
theorem declares_required {get : R → α} {set : α → R → R} :
    (required spec c get set).Declares c where
  writes r := writes_encodeUnlessEmpty (get r)
  reads f catalogs x r e := by
    refine Iff.trans ?_ decodeClaimed_eq_error_iff
    show (decodeClaimed c spec f ⟨catalogs, none⟩ (some x)).bind _ = _ ↔
      decodeClaimed c spec f ⟨catalogs, none⟩ (some x) = _
    cases hread : decodeClaimed c spec f ⟨catalogs, none⟩ (some x) with
    | error e' => simp [Except.bind]
    | ok o =>
      rcases decodeClaimed_eq_ok_iff.1 hread with ⟨hnone, -⟩ | ⟨_, a, -, -, rfl⟩
      · cases hnone
      · simp [Except.bind, pure, Except.pure]
  misses f catalogs r e h := by
    cases h
    rfl

theorem declares_optional {get : R → Option α} {set : Option α → R → R} :
    (optional spec c get set).Declares c where
  writes r := by
    unfold optional
    dsimp only
    cases get r with
    | none => exact .inl fun f => rfl
    | some a => exact writes_encodeUnlessEmpty a
  reads f catalogs x r e := by
    refine Iff.trans ?_ decodeClaimed_eq_error_iff
    show (decodeClaimed c spec f ⟨catalogs, none⟩ (some x)).map _ = _ ↔
      decodeClaimed c spec f ⟨catalogs, none⟩ (some x) = _
    cases decodeClaimed c spec f ⟨catalogs, none⟩ (some x) <;> simp [Except.map]
  misses f catalogs r e h := by cases h

theorem declares_defaulted {absent : α} {get : R → α} {set : α → R → R} :
    (defaulted spec c absent get set).Declares c where
  writes r := writes_encodeUnlessEmpty (get r)
  reads f catalogs x r e := by
    refine Iff.trans ?_ decodeClaimed_eq_error_iff
    show (decodeClaimed c spec f ⟨catalogs, none⟩ (some x)).map _ = _ ↔
      decodeClaimed c spec f ⟨catalogs, none⟩ (some x) = _
    cases decodeClaimed c spec f ⟨catalogs, none⟩ (some x) <;> simp [Except.map]
  misses f catalogs r e h := by cases h

theorem Declares.embedded {S : Type} {m : Member R} {get : S → R} {set : R → S → S}
    (hm : m.Declares c) : (m.embedded get set).Declares c where
  writes s := hm.writes (get s)
  reads f catalogs x s e := by
    refine Iff.trans ?_ (hm.reads f catalogs x (get s) e)
    show (m.decode f ⟨catalogs, none⟩ (some x) (get s)).map _ = _ ↔ _
    cases m.decode f ⟨catalogs, none⟩ (some x) (get s) <;> simp [Except.map]
  misses f catalogs s e h := by
    refine hm.misses f catalogs (get s) e ?_
    change (m.decode f ⟨catalogs, none⟩ none (get s)).map _ = _ at h
    cases hread : m.decode f ⟨catalogs, none⟩ none (get s) with
    | ok r =>
      rw [hread] at h
      cases h
    | error e' =>
      rw [hread] at h
      exact congrArg Except.error (Except.error.inj h)

/-- Without hooks nothing can stand in for one. -/
theorem Declares.of_under {m : Member R} {standIns : List StandIn}
    (hm : m.Declares (c.under standIns)) : m.Declares c :=
  ⟨hm.writes, hm.reads, hm.misses⟩

end Member

/-! ## Record types -/

/-- What is looked up by the key of an item is related to the item, as the whole lists are. -/
theorem lookup_zip_of_forall₂ {α β γ : Type} [DecidableEq γ] {P : α → β → Prop} {l : List α}
    {l' : List β} {key : α → γ} (h : List.Forall₂ P l l') (hnodup : (l.map key).Nodup) {a : α}
    (ha : a ∈ l) : ∃ b, ((l.map key).zip l').lookup (key a) = some b ∧ P a b := by
  induction h with
  | nil => cases ha
  | @cons a₁ b₁ l l' hab _ ih =>
    obtain ⟨hfirst, hnodup⟩ := List.nodup_cons.1 hnodup
    rw [List.map_cons, List.zip_cons_cons, List.lookup_cons]
    rcases List.mem_cons.1 ha with rfl | ha
    · exact ⟨b₁, by simp, hab⟩
    · have hne : (key a == key a₁) = false :=
        beq_eq_false_iff_ne.2 fun heq => hfirst (heq ▸ List.mem_map_of_mem ha)
      obtain ⟨b, hb, hP⟩ := ih hnodup ha
      exact ⟨b, by rw [hne]; exact hb, hP⟩

namespace RecordType

open Member

/-- A record type has a sound shape: its members write and read the fields of its schema. -/
theorem sound (t : RecordType) : t.shape.Sound := by
  cases t with
  | comid | tagIdentity | linkedTag | triples | environment | envClass | measurement | mval
  | corim | identity => exact RecordShape.sound_flat rfl
  | comidEntity | corimEntity => exact sound_identity_roles
  | valueTriple => exact sound_valueTripleShape
  | keyTriple => exact sound_keyTripleShape
  | flags => exact sound_flagsShape

/-- Every member of a record type writes and reads what its field is declared as. -/
theorem declares (t : RecordType) :
    List.Forall₂ (fun m (d : FieldType) => m.Declares d.codec) t.shape.members t.fieldTypes := by
  cases t with
  | comid =>
    exact .cons declares_optional <| .cons declares_required <| .cons declares_defaulted <|
      .cons declares_defaulted <| .cons declares_required .nil
  | tagIdentity | identity => exact .cons declares_required <| .cons declares_optional .nil
  | comidEntity | corimEntity =>
    exact .cons declares_required.embedded <| .cons declares_optional.embedded <|
      .cons declares_required .nil
  | linkedTag | valueTriple | keyTriple =>
    exact .cons declares_required <| .cons declares_required .nil
  | triples =>
    exact .cons declares_defaulted <| .cons declares_defaulted.of_under <|
      .cons declares_defaulted <| .cons declares_defaulted .nil
  | environment =>
    exact .cons declares_optional <| .cons declares_optional <| .cons declares_optional .nil
  | envClass =>
    exact .cons declares_optional <| .cons declares_optional <| .cons declares_optional <|
      .cons declares_optional <| .cons declares_optional .nil
  | measurement =>
    exact .cons declares_optional <| .cons declares_required <| .cons declares_defaulted .nil
  | mval =>
    exact .cons declares_defaulted <| .cons declares_optional <| .cons declares_optional <|
      .cons declares_optional <| .cons declares_optional <| .cons declares_optional <|
      .cons declares_optional .nil
  | flags =>
    refine List.forall₂_map_left_iff.2 (List.forall₂_map_right_iff.2 (List.forall₂_same.2 ?_))
    exact fun i _ => declares_optional
  | corim =>
    exact .cons declares_required <| .cons declares_required <| .cons declares_optional <|
      .cons declares_defaulted .nil

/-- The name of a member tells which field of the schema it is, and what that is declared as. -/
theorem exists_typeOf? (t : RecordType) {m : Member t.Value} (hm : m ∈ t.shape.members) :
    ∃ d, t.typeOf? m.spec.name = some d ∧ t.schema.field? m.spec.name = some m.spec ∧
      m.Declares d.codec := by
  have hnodup : (t.shape.members.map (·.spec.name)).Nodup :=
    List.pairwise_map.2 ((List.pairwise_map.1 t.sound.apart).imp fun h => h.2)
  obtain ⟨d, hd, hdeclares⟩ := lookup_zip_of_forall₂ t.declares hnodup hm
  refine ⟨d, hd, ?_, hdeclares⟩
  have hmem : m.spec ∈ t.schema.allFields := t.sound.fields.subset (List.mem_map_of_mem hm)
  have hapart : t.schema.allFields.Pairwise FieldSpec.Apart :=
    (Schema.check_eq_ok_iff.1 t.sound.check).1
  unfold Schema.field?
  cases hfind : t.schema.allFields.find? (·.name == m.spec.name) with
  | none => exact absurd (List.find?_eq_none.1 hfind _ hmem) (by simp)
  | some spec =>
    have hname : spec.name = m.spec.name := by simpa using List.find?_some hfind
    by_contra hne
    have hspec := List.mem_of_find?_eq_some hfind
    exact (FieldSpec.apart_of_pairwise hapart hspec hmem fun h => hne (congrArg some h)).2 hname

/-- Without hooks a record is read from a blank one, and so are the fields of any that carries a
slot. -/
theorem decode_codec (t : RecordType) (f : Format) (catalogs : Catalogs) (v : Raw f) :
    t.codec.decode f ⟨catalogs, none⟩ v = t.shape.decode f ⟨catalogs, none⟩ t.blank v := by
  cases t with
  | tagIdentity | linkedTag | valueTriple | keyTriple | environment | envClass | measurement
  | identity => rfl
  | comid => exact RecordShape.decodeAttached_of_bare RecordShape.IsExtensible.comid.keepsSlot rfl v
  | comidEntity =>
    exact RecordShape.decodeAttached_of_bare RecordShape.IsExtensible.entity.keepsSlot rfl v
  | triples =>
    exact RecordShape.decodeAttached_of_bare RecordShape.IsExtensible.triples.keepsSlot rfl v
  | mval => exact RecordShape.decodeAttached_of_bare RecordShape.IsExtensible.mval.keepsSlot rfl v
  | flags => exact RecordShape.decodeAttached_of_bare RecordShape.IsExtensible.flags.keepsSlot rfl v
  | corim => exact RecordShape.decodeAttached_of_bare RecordShape.IsExtensible.corim.keepsSlot rfl v
  | corimEntity =>
    exact RecordShape.decodeAttached_of_bare RecordShape.IsExtensible.corimEntity.keepsSlot rfl v

end RecordType

end Rim
