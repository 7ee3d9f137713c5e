import Rim.Proofs.Record.Taking
import Rim.Record.Datum
/-!
# Records of any schema are read back

A record type lists its own fields and embeds other record types, which do the same.  A field is a
value read off a record and put into it; an embedded record is one as well.  As long as no field and
no embedded record gets in the way of another, what the fields of the whole tree hold is what
reading finds again, in either format and in whatever order they are written and read.

## Main definitions

* `Presence`, `FieldOf`: the fields of a record type.
* `RecordTree`: a record type with those it embeds, and `RecordTree.schema` for its schema.
* `RecordTree.Lawful`: no part of a record gets in the way of another.

## Main results

* `RecordTree.map_spec_fields`: the fields of the tree are those of its schema.
* `RecordTree.decode_encode`: records are read back, fields that say nothing aside.
-/

namespace Rim

/-! ## Fields -/

/-- How a record holds values of `α` under a field: always, or perhaps, or always with one value
that absence stands for. -/
inductive Presence (α : Type) : Type → Type 1 where
  | required : Presence α α
  | optional : Presence α (Option α)
  | defaulted (absent : α) : Presence α α

namespace Presence

variable {R α H : Type}

/-- Whether the field may be absent. -/
def mayBeAbsent : Presence α H → Bool
  | required => false
  | optional | defaulted _ => true

/-- The member of a record type for the field. -/
def member (spec : FieldSpec) (c : FieldCodec α) :
    Presence α H → (R → H) → (H → R → R) → Member R
  | required, get, set => .required spec c get set
  | optional, get, set => .optional spec c get set
  | defaulted absent, get, set => .defaulted spec c absent get set

/-- The value the record holds, if it holds one. -/
def value? : Presence α H → H → Option α
  | required, a => some a
  | optional, o => o
  | defaulted _, a => some a

/-- What the record holds after a round trip: a value that says nothing is as good as none. -/
def normal (c : FieldCodec α) : Presence α H → H → H
  | required, a => a
  | optional, o => o.filter fun a => !c.isEmpty a
  | defaulted absent, a => if c.isEmpty a then absent else a

end Presence

/-- A field of the records of a type: how it travels, and how it is read off a record and put into
it. -/
structure FieldOf (R : Type) where
  spec : FieldSpec
  {Value Held : Type}
  presence : Presence Value Held
  codec : FieldCodec Value
  get : R → Held
  set : Held → R → R

namespace FieldOf

variable {R S : Type}

/-- The member of the record type for the field. -/
def member (φ : FieldOf R) : Member R := φ.presence.member φ.spec φ.codec φ.get φ.set

@[simp] theorem spec_member (φ : FieldOf R) : φ.member.spec = φ.spec := by
  obtain ⟨spec, presence, codec, get, set⟩ := φ
  cases presence <;> rfl

/-- What the field of a record holds after a round trip. -/
def normal (φ : FieldOf R) (r : R) : φ.Held := φ.presence.normal φ.codec (φ.get r)

/-- The field of a record that another embeds, as one of the other. -/
def within (φ : FieldOf R) (get : S → R) (set : R → S → S) : FieldOf S where
  spec := φ.spec
  presence := φ.presence
  codec := φ.codec
  get s := φ.get (get s)
  set a s := set (φ.set a (get s)) s

/-- Embedding a field is embedding its member.  The two members agree on everything but how the
value gets into the record. -/
theorem member_within (φ : FieldOf R) (get : S → R) (set : R → S → S) :
    (φ.within get set).member = φ.member.embedded get set := by
  obtain ⟨spec, presence, codec, fget, fset⟩ := φ
  cases presence with
  | required =>
    simp only [member, within, Presence.member, Member.embedded, Member.required, Member.mk.injEq,
      true_and]
    funext f cx claimed s
    cases Member.decodeClaimed codec spec f cx claimed with
    | error e => rfl
    | ok o => cases o <;> rfl
  | optional =>
    simp only [member, within, Presence.member, Member.embedded, Member.optional, Member.mk.injEq,
      true_and]
    funext f cx claimed s
    cases Member.decodeClaimed codec spec f cx claimed <;> rfl
  | defaulted absent =>
    simp only [member, within, Presence.member, Member.embedded, Member.defaulted,
      Member.mk.injEq, true_and]
    funext f cx claimed s
    cases Member.decodeClaimed codec spec f cx claimed <;> rfl

/-- The field may be absent as its schema says, and what is put into a record is read off it. -/
structure Lawful (φ : FieldOf R) : Prop where
  presence : φ.spec.isOptional = φ.presence.mayBeAbsent
  get_set : ∀ a r, φ.get (φ.set a r) = a

/-- The value a record holds under the field is written, and read back as itself. -/
def Survives (φ : FieldOf R) (f : Format) (cx : Context) (r : R) : Prop :=
  ∀ a, φ.presence.value? (φ.get r) = some a →
    ∃ v, φ.codec.encode f a = .ok v ∧ φ.codec.decode f cx v = .ok a

variable {φ : FieldOf R} {f : Format} {cx : Context} {r : R}

theorem reads_of_survives (h : φ.Survives f cx r) {a : φ.Value}
    (ha : φ.presence.value? (φ.get r) = some a) : φ.codec.Reads f cx a a := by
  obtain ⟨w, hw, hread⟩ := h a ha
  intro v hv
  obtain rfl : w = v := Except.ok.inj (hw.symm.trans hv)
  exact hread

/-- A field whose value survives is restored. -/
theorem restores (hl : φ.Lawful) (h : φ.Survives f cx r) :
    φ.member.Restores f cx r (φ.set (φ.normal r)) := by
  have hread := fun a => reads_of_survives (a := a) h
  have ho := hl.presence
  obtain ⟨spec, presence, codec, get, set⟩ := φ
  cases presence with
  | required => exact Member.restores_required ho (hread _ rfl)
  | optional =>
    have hopt : (Member.optional spec codec get set).Restores f cx r
        (set (((get r).filter fun a => !codec.isEmpty a).map id)) :=
      Member.restores_optional id ho fun a ha _ => hread a ha
    rwa [Option.map_id] at hopt
  | defaulted absent => exact Member.restores_defaulted ho fun _ => hread _ rfl

theorem encodeUnlessEmpty_writes {α : Type} {c : FieldCodec α} {spec : FieldSpec} {a : α}
    (h : ∃ v, c.encode f a = .ok v) (e : RecordError) :
    Member.encodeUnlessEmpty c spec f a ≠ some (.error e) := by
  obtain ⟨v, hv⟩ := h
  unfold Member.encodeUnlessEmpty
  rw [hv]
  split <;> simp

/-- A field whose value survives is written without an error. -/
theorem writes (h : φ.Survives f cx r) : φ.member.Writes f r := by
  have hvalue : ∀ a, φ.presence.value? (φ.get r) = some a → ∃ v, φ.codec.encode f a = .ok v := by
    intro a ha
    obtain ⟨v, hv, -⟩ := h a ha
    exact ⟨v, hv⟩
  obtain ⟨spec, presence, codec, get, set⟩ := φ
  intro e
  cases presence with
  | required => exact encodeUnlessEmpty_writes (hvalue _ rfl) e
  | defaulted absent => exact encodeUnlessEmpty_writes (hvalue _ rfl) e
  | optional =>
    show (get r).bind (Member.encodeUnlessEmpty codec spec f) ≠ _
    cases hget : get r with
    | none => simp
    | some a => exact encodeUnlessEmpty_writes (hvalue a hget) e

end FieldOf

/-! ## Trees of records

A part of a record, a field or an embedded record, is a value read off the record and put into it.
Two parts stay out of each other's way when putting one in leaves the other as it is. -/

/-- What is put in by `set` is not seen by `get`. -/
def Untouched {R A B : Type} (get : R → A) (set : B → R → R) : Prop :=
  ∀ b r, get (set b r) = get r

/-- Neither of two fields sees what is put into the other. -/
def FieldOf.Independent {R : Type} (φ ψ : FieldOf R) : Prop :=
  Untouched φ.get ψ.set ∧ Untouched ψ.get φ.set

mutual

/-- A record type: its own fields, and the records it embeds. -/
inductive RecordTree : Type → Type 1 where
  | mk {R : Type} (entity : String) (layout : Layout) (own : List (FieldOf R))
    (embedded : EmbeddedTrees R) : RecordTree R

/-- The records that those of a type embed, each with its place. -/
inductive EmbeddedTrees : Type → Type 1 where
  | nil {R : Type} : EmbeddedTrees R
  | cons {R S : Type} (get : R → S) (set : S → R → R) (record : RecordTree S)
    (rest : EmbeddedTrees R) : EmbeddedTrees R

end

mutual

/-- The schema of a record type. -/
def RecordTree.schema {R : Type} : RecordTree R → Schema FieldSpec
  | .mk entity layout own embedded => .mk entity layout (own.map (·.spec)) embedded.schemas

/-- The schemas of embedded records. -/
def EmbeddedTrees.schemas {R : Type} : EmbeddedTrees R → List (Schema FieldSpec)
  | .nil => []
  | .cons _ _ record rest => record.schema :: rest.schemas

end

mutual

/-- All fields of a record type, its own before those of the records it embeds. -/
def RecordTree.fields {R : Type} : RecordTree R → List (FieldOf R)
  | .mk _ _ own embedded => own ++ embedded.fields

/-- The fields of embedded records as those of the record that embeds them. -/
def EmbeddedTrees.fields {R : Type} : EmbeddedTrees R → List (FieldOf R)
  | .nil => []
  | .cons get set record rest => record.fields.map (·.within get set) ++ rest.fields

end

/-- No embedded record gets in the way of a part of the record that embeds them. -/
def EmbeddedTrees.Spare {R A : Type} (get : R → A) (set : A → R → R) : EmbeddedTrees R → Prop
  | .nil => True
  | .cons get' set' _ rest => Untouched get set' ∧ Untouched get' set ∧ rest.Spare get set

mutual

/-- Own fields are lawful, and no own field or embedded record gets in the way of another; the same
holds of every embedded record. -/
def RecordTree.Lawful {R : Type} : RecordTree R → Prop
  | .mk _ _ own embedded =>
    (∀ φ ∈ own, φ.Lawful) ∧ own.Pairwise FieldOf.Independent ∧
      (∀ φ ∈ own, embedded.Spare φ.get φ.set) ∧ embedded.Lawful

/-- Embedded records are lawful, found where they are put, and out of each other's way. -/
def EmbeddedTrees.Lawful {R : Type} : EmbeddedTrees R → Prop
  | .nil => True
  | .cons get set record rest =>
    (∀ a r, get (set a r) = a) ∧ record.Lawful ∧ rest.Spare get set ∧ rest.Lawful

end

mutual

/-- The fields of the tree are those of its schema. -/
theorem RecordTree.map_spec_fields {R : Type} :
    ∀ t : RecordTree R, t.fields.map (·.spec) = t.schema.allFields
  | .mk _ _ own embedded => by
    rw [RecordTree.fields, RecordTree.schema, Schema.allFields_mk, List.map_append,
      EmbeddedTrees.map_spec_fields embedded]

theorem EmbeddedTrees.map_spec_fields {R : Type} :
    ∀ l : EmbeddedTrees R, l.fields.map (·.spec) = Schema.allFieldsOf l.schemas
  | .nil => by rw [EmbeddedTrees.fields, EmbeddedTrees.schemas, Schema.allFieldsOf, List.map_nil]
  | .cons get set record rest => by
    have hwithin : (record.fields.map (·.within get set)).map (·.spec) =
        record.fields.map (·.spec) := by
      rw [List.map_map]
      rfl
    rw [EmbeddedTrees.fields, EmbeddedTrees.schemas, Schema.allFieldsOf, List.map_append, hwithin,
      RecordTree.map_spec_fields record, EmbeddedTrees.map_spec_fields rest]

end

/-! ## Laws of the whole tree

The laws are about one record at a time.  A field of an embedded record is read and put in through
the place of that record, so the laws of the place and those of the field make its own. -/

namespace FieldOf

variable {R S : Type} {φ ψ : FieldOf R} {get : S → R} {set : R → S → S}

theorem Lawful.within (h : φ.Lawful) (hplace : ∀ a s, get (set a s) = a) :
    (φ.within get set).Lawful where
  presence := h.presence
  get_set a s := by
    have hput : φ.get (get (set (φ.set a (get s)) s)) = φ.get (φ.set a (get s)) :=
      congrArg φ.get (hplace _ _)
    exact hput.trans (h.get_set _ _)

theorem Independent.within (h : φ.Independent ψ) (hplace : ∀ a s, get (set a s) = a) :
    (φ.within get set).Independent (ψ.within get set) := by
  constructor
  · intro b s
    exact (congrArg φ.get (hplace _ _)).trans (h.1 _ _)
  · intro b s
    exact (congrArg ψ.get (hplace _ _)).trans (h.2 _ _)

end FieldOf

/-- Fields beside an embedded record leave it alone. -/
theorem EmbeddedTrees.Spare.untouched {R A : Type} {get : R → A} {set : A → R → R} :
    ∀ {l : EmbeddedTrees R}, l.Spare get set →
      ∀ φ ∈ l.fields, Untouched get φ.set ∧ Untouched φ.get set
  | .nil, _ => by simp [EmbeddedTrees.fields]
  | .cons get' set' record rest, h => by
    rw [EmbeddedTrees.Spare] at h
    obtain ⟨hget, hset, hrest⟩ := h
    intro φ hφ
    rw [EmbeddedTrees.fields] at hφ
    rcases List.mem_append.1 hφ with hφ | hφ
    · obtain ⟨ψ, -, rfl⟩ := List.mem_map.1 hφ
      refine ⟨fun b r => hget (ψ.set b (get' r)) r, ?_⟩
      intro b r
      show ψ.get (get' (set b r)) = ψ.get (get' r)
      rw [hset]
    · exact hrest.untouched φ hφ

mutual

/-- The fields of a lawful tree are lawful and independent of one another. -/
theorem RecordTree.Lawful.fields {R : Type} :
    ∀ {t : RecordTree R}, t.Lawful →
      (∀ φ ∈ t.fields, φ.Lawful) ∧ t.fields.Pairwise FieldOf.Independent
  | .mk _ _ own embedded, h => by
    rw [RecordTree.Lawful] at h
    obtain ⟨hown, hpair, hspare, hembedded⟩ := h
    obtain ⟨hall, hrest⟩ := EmbeddedTrees.Lawful.fields hembedded
    rw [RecordTree.fields]
    constructor
    · intro φ hφ
      exact (List.mem_append.1 hφ).elim (hown φ) (hall φ)
    · refine List.pairwise_append.2 ⟨hpair, hrest, ?_⟩
      intro φ hφ ψ hψ
      exact (hspare φ hφ).untouched ψ hψ

theorem EmbeddedTrees.Lawful.fields {R : Type} :
    ∀ {l : EmbeddedTrees R}, l.Lawful →
      (∀ φ ∈ l.fields, φ.Lawful) ∧ l.fields.Pairwise FieldOf.Independent
  | .nil, _ => by simp [EmbeddedTrees.fields]
  | .cons get set record rest, h => by
    rw [EmbeddedTrees.Lawful] at h
    obtain ⟨hplace, hrecord, hspare, hrest⟩ := h
    obtain ⟨hall, hpair⟩ := RecordTree.Lawful.fields hrecord
    obtain ⟨hall', hpair'⟩ := EmbeddedTrees.Lawful.fields hrest
    rw [EmbeddedTrees.fields]
    constructor
    · intro φ hφ
      rcases List.mem_append.1 hφ with hφ | hφ
      · obtain ⟨ψ, hψ, rfl⟩ := List.mem_map.1 hφ
        exact (hall ψ hψ).within hplace
      · exact hall' φ hφ
    · refine List.pairwise_append.2 ⟨?_, hpair', ?_⟩
      · exact List.pairwise_map.2 (hpair.imp fun hφψ => hφψ.within hplace)
      · intro φ hφ ψ hψ
        obtain ⟨χ, -, rfl⟩ := List.mem_map.1 hφ
        obtain ⟨hget, hset⟩ := hspare.untouched ψ hψ
        refine ⟨fun b r => ?_, fun b r => hset (χ.set b (get r)) r⟩
        show χ.get (get (ψ.set b r)) = χ.get (get r)
        rw [hget]

end

/-! ## An instance

Entities embed their identity and write it before their roles, although their schema lists the roles
first. -/

/-- The name and the registration URI of an entity. -/
def identityTree : RecordTree EntityIdentity :=
  .mk "entity-identity" .map
    [{ spec := .required "name" 0, presence := .required, codec := .string, get := (·.name),
       set := fun a r => { r with name := a } },
     { spec := .optional "regid" 1, presence := .optional, codec := .string, get := (·.regId),
       set := fun a r => { r with regId := a } }] .nil

/-- The roles of an entity. -/
def rolesField : FieldOf Entity where
  spec := .required "roles" 2
  presence := .required
  codec := .list (.code Role)
  get e := e.roles
  set a e := { e with roles := a }

/-- An entity of a module identifier. -/
def entityTree : RecordTree Entity :=
  .mk "entity" .map [rolesField]
    (.cons (fun e => e.identity) (fun a e => { e with identity := a }) identityTree .nil)

/-- The fields of an entity in the order they are written. -/
def entityFields : List (FieldOf Entity) :=
  identityTree.fields.map (·.within (fun e => e.identity) fun a e => { e with identity := a }) ++
    [rolesField]

theorem entityShape_eq :
    entityShape = ⟨entityTree.schema, entityFields.map FieldOf.member⟩ := by
  have hidentity : identityShape.members = identityTree.fields.map FieldOf.member := rfl
  have hwithin : ∀ (get : Entity → EntityIdentity) (set : EntityIdentity → Entity → Entity),
      (identityTree.fields.map (·.within get set)).map FieldOf.member =
        identityShape.members.map (·.embedded get set) := by
    intro get set
    rw [hidentity, List.map_map, List.map_map]
    exact List.map_congr_left fun φ _ => φ.member_within get set
  unfold entityFields
  rw [List.map_append, hwithin]
  rfl

/-- The fields of an entity, as it writes them, are those of its tree. -/
theorem perm_entityFields : entityFields.Perm entityTree.fields := by
  have hfields : entityTree.fields = [rolesField] ++ (identityTree.fields.map
      (·.within (fun e => e.identity) fun a e => { e with identity := a }) ++ []) := by
    simp [entityTree, RecordTree.fields, EmbeddedTrees.fields]
  rw [hfields, List.append_nil]
  exact List.perm_append_comm

/-- The tree of entities is lawful. -/
theorem lawful_entityTree : entityTree.Lawful := by
  simp only [entityTree, rolesField, identityTree, RecordTree.Lawful, EmbeddedTrees.Lawful,
    EmbeddedTrees.Spare, FieldOf.Independent, Untouched, List.mem_cons, List.not_mem_nil, or_false,
    forall_eq, forall_eq_or_imp, List.pairwise_cons, List.Pairwise.nil, false_implies,
    implies_true, and_self, and_true, true_and]
  exact ⟨⟨rfl, fun _ _ => rfl⟩, ⟨rfl, fun _ _ => rfl⟩, ⟨rfl, fun _ _ => rfl⟩⟩

/-- An entity whose registration URI is empty. -/
def namedEntity : Entity where
  identity := { name := "ACME", regId := some "" }
  roles := [.creator, .other 7]

theorem survives_namedEntity (f : Format) :
    ∀ φ ∈ entityTree.fields, φ.Survives f ⟨.standard, none⟩ namedEntity := by
  intro φ hφ
  have hfields : φ ∈ rolesField :: identityTree.fields.map
      (·.within (fun e : Entity => e.identity) fun a e => { e with identity := a }) := by
    simpa [entityTree, RecordTree.fields, EmbeddedTrees.fields] using hφ
  simp only [identityTree, RecordTree.fields, EmbeddedTrees.fields, List.append_nil, List.map_cons,
    List.map_nil, List.mem_cons, List.not_mem_nil, or_false] at hfields
  rcases hfields with rfl | rfl | rfl <;> intro a ha <;> obtain rfl := Option.some.inj ha <;>
    cases f <;> exact ⟨_, rfl, rfl⟩

/-! ## Round trip -/

/-- What is put into independent fields one after the other is found in each of them.  What later
fields put in is not seen by an earlier one. -/
theorem get_foldl_set {R : Type} {fields : List (FieldOf R)}
    (hlawful : ∀ φ ∈ fields, φ.Lawful) (hpair : fields.Pairwise FieldOf.Independent)
    (value : ∀ φ : FieldOf R, φ.Held) (r₀ : R) :
    ∀ φ ∈ fields, φ.get (fields.foldl (fun acc ψ => ψ.set (value ψ) acc) r₀) = value φ := by
  have hlater : ∀ (φ : FieldOf R) (l : List (FieldOf R)) (r : R), (∀ ψ ∈ l, φ.Independent ψ) →
      φ.get (l.foldl (fun acc ψ => ψ.set (value ψ) acc) r) = φ.get r := by
    intro φ l
    induction l with
    | nil =>
      intro r _
      rfl
    | cons ψ l ih =>
      intro r h
      obtain ⟨hψ, hl⟩ := List.forall_mem_cons.1 h
      rw [List.foldl_cons, ih _ hl, hψ.1]
  induction fields generalizing r₀ with
  | nil => simp
  | cons ψ l ih =>
    obtain ⟨hψ, hlawful⟩ := List.forall_mem_cons.1 hlawful
    obtain ⟨hfirst, hpair⟩ := List.pairwise_cons.1 hpair
    intro φ hφ
    rw [List.foldl_cons]
    rcases List.mem_cons.1 hφ with rfl | hφ
    · rw [hlater _ l _ hfirst, hψ.get_set]
    · exact ih hlawful hpair _ φ hφ

theorem FieldOf.Independent.symm {R : Type} {φ ψ : FieldOf R} (h : φ.Independent ψ) :
    ψ.Independent φ :=
  ⟨h.2, h.1⟩

/-- A record of any checked schema, whose fields are written and read in any order, is written in
either format if the values of its fields survive; and what is read back holds in every field what
the record held, except that a value which says nothing is back to what absence stands for. -/
theorem RecordTree.decode_encode {R : Type} (t : RecordTree R) (hcheck : t.schema.check = .ok ())
    (hlawful : t.Lawful) (written taken : List (FieldOf R)) (hwritten : written.Perm t.fields)
    (htaken : taken.Perm t.fields) (f : Format) (cx : Context) (r blank : R)
    (hsurvives : ∀ φ ∈ t.fields, φ.Survives f cx r) :
    ∃ v r', (RecordShape.mk t.schema (written.map FieldOf.member)).encode f r = .ok v ∧
      (RecordShape.mk t.schema (taken.map FieldOf.member)).decode f cx blank v = .ok r' ∧
        ∀ φ ∈ t.fields, φ.get r' = φ.normal r := by
  obtain ⟨hall, hpair⟩ := hlawful.fields
  have hsound : (RecordShape.mk t.schema (written.map FieldOf.member)).Sound := by
    refine ⟨hcheck, ?_⟩
    rw [← t.map_spec_fields, List.map_map, List.map_congr_left fun φ _ => φ.spec_member]
    exact hwritten.map _
  have hencode := (RecordShape.encode_eq_ok_iff (f := f) (r := r) hsound).2 ⟨?_, rfl⟩
  · let plan := taken.map fun φ => (φ.member, φ.set (φ.normal r))
    have hmembers : plan.map (·.1) = taken.map FieldOf.member := by
      rw [List.map_map]
      rfl
    have hplan : ∀ p ∈ plan, p.1.Restores f cx r p.2 := by
      intro p hp
      obtain ⟨φ, hφ, rfl⟩ := List.mem_map.1 hp
      have hmem := htaken.mem_iff.1 hφ
      exact FieldOf.restores (hall φ hmem) (hsurvives φ hmem)
    have hperm : (plan.map (·.1)).Perm (written.map FieldOf.member) := by
      rw [hmembers]
      exact (htaken.trans hwritten.symm).map _
    have hdecode := RecordShape.decode_of_encode hsound hperm hplan hencode blank
    rw [hmembers, List.foldl_map] at hdecode
    refine ⟨_, _, hencode, hdecode, fun φ hφ => ?_⟩
    exact get_foldl_set (fun ψ hψ => hall ψ (htaken.mem_iff.1 hψ))
      ((htaken.pairwise_iff FieldOf.Independent.symm).2 hpair) (fun ψ => ψ.normal r) blank φ
      (htaken.mem_iff.2 hφ)
  · intro m hm
    obtain ⟨φ, hφ, rfl⟩ := List.mem_map.1 hm
    exact FieldOf.writes (hsurvives φ (hwritten.mem_iff.1 hφ))

theorem entity_decode_encode :
    entityTree.schema.check = .ok () ∧ entityTree.Lawful ∧
      (∀ φ ∈ entityTree.fields, φ.Survives .cbor ⟨.standard, none⟩ namedEntity) ∧
      ∃ v r', entityShape.encode .cbor namedEntity = .ok v ∧
        entityShape.decode .cbor ⟨.standard, none⟩ default v = .ok r' ∧
          ∀ φ ∈ entityTree.fields, φ.get r' = φ.normal namedEntity := by
  refine ⟨rfl, lawful_entityTree, survives_namedEntity .cbor, ?_⟩
  rw [entityShape_eq]
  exact RecordTree.decode_encode entityTree rfl lawful_entityTree entityFields entityFields
    perm_entityFields perm_entityFields .cbor ⟨.standard, none⟩ namedEntity default
    (survives_namedEntity .cbor)

end Rim
