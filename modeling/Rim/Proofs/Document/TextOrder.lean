import Rim.Proofs.Document.FieldTypes
import Rim.Proofs.Hook.Values
/-!
# The order of the text form

The text form of a record names its written fields in the order in which they are written, and then
those of its hook in the order of the hook.  A schema lists the fields of a record before those of
the records it embeds, and nearly all record types write in this order.  Entities do not: they write
the identity they embed before their roles, so no text form of an entity is in the order of its
schema.

## Main definitions

* `RecordType.hookCells`, `RecordType.isWritten`: the fields of the hook of a record, and which of
  the fields of the record are written.
* `RecordType.textNames`: the names of what is written, for some order of the fields.
* `Content`, `Content.Shows`: values that are written, and the records that stand in their text form
  at any depth.

## Main results

* `RecordType.encode_codec`: a record is written with the fields of its hook after its own.
* `RecordType.names_of_encode`: the names in the text form of a record.
* `RecordType.text_in_order_iff`: which of the records in a text form are in the order of their
  schema.
-/

namespace Rim

/-! ## What a record writes -/

/-- The fields of the hook in a slot. -/
def Slot.cells {B : Type} : Slot B → List (Cell Datum)
  | none => []
  | some h => Hook.cells h

theorem Slot.puts_eq_cellPuts {B : Type} (f : Format) (s : Slot B) :
    Slot.puts f s = Datum.cellPuts f s.cells := by
  cases s with
  | none => rw [Slot.cells, Datum.cellPuts, Slot.puts]
  | some h => exact Slot.puts_some f h

/-- Whether a field of a hook writes a value. -/
def Cell.isWritten (c : Cell Datum) : Bool := (c.put? .json).isSome

namespace RecordType

/-- The fields of the hook of a record, if it has one. -/
def hookCells : (t : RecordType) → t.Value → List (Cell Datum)
  | comid, d => Slot.cells d.hook
  | comidEntity, e => Slot.cells e.hook
  | triples, ts => Slot.cells ts.hook
  | mval, v => Slot.cells v.hook
  | flags, m => Slot.cells m.hook
  | corim, d => Slot.cells d.hook
  | corimEntity, e => Slot.cells e.hook
  | tagIdentity, _ | linkedTag, _ | valueTriple, _ | keyTriple, _ | environment, _ | envClass, _
  | measurement, _ | identity, _ => []

theorem encodeExtended_eq {E : Type} [Hookable E] (s : RecordShape E) (f : Format) (e : E) :
    s.encodeExtended f e =
      s.encodeWith f e (Datum.cellPuts f (Slot.cells (Hookable.slot e))) := by
  rw [RecordShape.encodeExtended, Slot.puts_eq_cellPuts]

/-- A record is written with the fields of its hook after its own. -/
theorem encode_codec (t : RecordType) (f : Format) (r : t.Value) :
    t.codec.encode f r = t.shape.encodeWith f r (Datum.cellPuts f (t.hookCells r)) := by
  cases t with
  | comid | comidEntity | triples | mval | flags | corim | corimEntity =>
    exact encodeExtended_eq _ f r
  | tagIdentity | linkedTag | valueTriple | keyTriple | environment | envClass | measurement
  | identity =>
    rw [hookCells, Datum.cellPuts]
    rfl

/-- Whether a record writes a field. -/
def isWritten (t : RecordType) (r : t.Value) (spec : FieldSpec) : Bool :=
  t.shape.members.any fun m => m.spec == spec && (m.encode .json r).isSome

/-- The names of the fields that a record writes, if it does so in some order, and then those of the
fields that its hook writes. -/
def textNames (t : RecordType) (r : t.Value) (order : List FieldSpec) : List String :=
  (order.filter (t.isWritten r)).map (·.name) ++
    ((t.hookCells r).filter Cell.isWritten).map (·.shape.spec.name)

/-! ## The names of a record

The fields of a record are told apart, so whether one of them is written is a question to its own
member. -/

theorem isWritten_spec (t : RecordType) (r : t.Value) {m : Member t.Value}
    (hm : m ∈ t.shape.members) : t.isWritten r m.spec = (m.encode .json r).isSome := by
  have hnodup : (t.shape.members.map (·.spec)).Nodup :=
    t.sound.apart.imp fun h heq => h.1 (congrArg FieldSpec.key heq)
  unfold isWritten
  rw [Bool.eq_iff_iff, List.any_eq_true]
  constructor
  · rintro ⟨m', hm', h⟩
    obtain ⟨hspec, hsome⟩ := Bool.and_eq_true_iff.1 h
    rwa [List.inj_on_of_nodup_map hnodup hm' hm (by simpa using hspec)] at hsome
  · intro hsome
    exact ⟨m, hm, by simp [hsome]⟩

/-- The fields written of a record are those that have something to write, in their order. -/
theorem map_fst_writtenBy_eq_filter (t : RecordType) {r : t.Value}
    (hwrites : ∀ m ∈ t.shape.members, m.Writes .json r) :
    (writtenBy .json r t.shape.members).map (·.1) =
      (t.shape.members.map (·.spec)).filter (t.isWritten r) := by
  have hpart : ∀ l : List (Member t.Value), l ⊆ t.shape.members →
      (writtenBy .json r l).map (·.1) = (l.map (·.spec)).filter (t.isWritten r) := by
    intro l hl
    induction l with
    | nil => rfl
    | cons m l ih =>
      obtain ⟨hm, hl⟩ := List.cons_subset.1 hl
      rw [writtenBy_cons, List.map_append, ih hl, List.map_cons, List.filter_cons,
        t.isWritten_spec r hm]
      cases henc : m.encode .json r with
      | none => rw [Member.written?_of_none henc]; rfl
      | some coded =>
        cases coded with
        | error e => exact absurd henc (hwrites m hm e)
        | ok v => rw [Member.written?_of_ok henc]; rfl
  exact hpart _ (List.Subset.refl _)

theorem map_fst_of_cellPuts {cells : List (Cell Datum)} {added : Written .json}
    (h : Datum.cellPuts .json cells = added.map Put.ofEntry) :
    added.map (·.1) = (cells.filter Cell.isWritten).map (·.shape.spec) := by
  induction cells generalizing added with
  | nil =>
    rw [Datum.cellPuts] at h
    rw [List.map_eq_nil_iff.1 h.symm]
    rfl
  | cons c cells ih =>
    rw [Datum.cellPuts_cons] at h
    cases hput : c.put? .json with
    | none =>
      rw [hput] at h
      rw [List.filter_cons_of_neg (by simp [Cell.isWritten, hput])]
      exact ih h
    | some p =>
      rw [hput] at h
      obtain ⟨e, added, rfl, hp, hrest⟩ := List.map_eq_cons_iff.1 h.symm
      obtain ⟨x, -, hspec, -⟩ := Cell.exists_of_put? (hput.trans (congrArg some hp.symm))
      rw [List.filter_cons_of_pos (by simp [Cell.isWritten, hput]), List.map_cons, List.map_cons,
        hspec, ih hrest.symm]

/-- What a record and its hook have written in the text form. -/
structure TextEntries (t : RecordType) (r : t.Value) (v : Json) (added : Written .json) :
    Prop where
  writes : ∀ m ∈ t.shape.members, m.Writes .json r
  hook : Datum.cellPuts .json (t.hookCells r) = added.map Put.ofEntry
  apart : ((writtenBy .json r t.shape.members ++ added).map (·.1)).Pairwise FieldSpec.Apart
  text : v = .object ((writtenBy .json r t.shape.members ++ added).map fun e => (e.1.name, e.2))

variable {t : RecordType} {r : t.Value} {v : Json}

/-- What is written of a record are entries in the order of its fields, then those of its hook. -/
theorem exists_textEntries (h : t.codec.encode .json r = .ok v) :
    ∃ added, t.TextEntries r v added := by
  rw [encode_codec, RecordShape.encodeWith_eq_ok_iff] at h
  obtain ⟨hwrites, added, hhook, hapart, rfl⟩ := h
  exact ⟨added, hwrites, hhook, hapart, rfl⟩

/-- The text form of a record names its written fields in the order in which they are written, and
then those of its hook. -/
theorem names_of_encode (h : t.codec.encode .json r = .ok v) :
    ∃ members : List (String × Json), v = .object members ∧
      members.map (·.1) = t.textNames r (t.shape.members.map (·.spec)) := by
  obtain ⟨added, hentries⟩ := exists_textEntries h
  refine ⟨_, hentries.text, ?_⟩
  rw [List.map_map]
  show (writtenBy .json r t.shape.members ++ added).map (FieldSpec.name ∘ Prod.fst) = _
  rw [← List.map_map, List.map_append, List.map_append,
    map_fst_writtenBy_eq_filter t hentries.writes, map_fst_of_cellPuts hentries.hook, List.map_map]
  rfl

end RecordType

/-! ## Records in a text form

What a record holds under a name is written under that name, and nothing else is. -/

/-- A value that is written: one of a declared type, or the value of a field of a hook. -/
inductive Content where
  | value (type : FieldType) (x : type.Value)
  | datum (x : Datum)

/-- The text form of a value. -/
def Content.encode : Content → Coded Json
  | value d x => d.codec.encode .json x
  | datum x => Datum.encode .json x

/-- What a record writes under a name: the value of a field as it is declared, or that of a field of
its hook. -/
inductive RecordType.Holds (t : RecordType) (r : t.Value) : String → Content → Prop
  | field {m : Member t.Value} {d : FieldType} {x : d.Value} (hm : m ∈ t.shape.members)
    (hd : t.typeOf? m.spec.name = some d) (hx : m.encode .json r = some (d.codec.encode .json x)) :
    Holds t r m.spec.name (.value d x)
  | hook {c : Cell Datum} {x : Datum} (hc : c ∈ t.hookCells r) (hx : c.value = some x)
    (hwritten : c.isWritten = true) : Holds t r c.shape.spec.name (.datum x)

/-- The records that stand in the text form of a value, at any depth, each with the text it stands
as. -/
inductive Content.Shows : Content → Json → (t : RecordType) → t.Value → Json → Prop
  | record (t : RecordType) (r : t.Value) (v : Json) : Shows (.value (.record t) r) v t r v
  | field {t₀ t : RecordType} {r₀ : t₀.Value} {r : t.Value} {members : List (String × Json)}
    {name : String} {c : Content} {v w : Json} (hc : t₀.Holds r₀ name c)
    (hv : (name, v) ∈ members) (h : Shows c v t r w) :
    Shows (.value (.record t₀) r₀) (.object members) t r w
  | item {d : FieldType} {xs : List d.Value} {vs : List Json} {i : Nat} {x : d.Value} {v : Json}
    {t : RecordType} {r : t.Value} {w : Json} (hx : xs[i]? = some x) (hv : vs[i]? = some v)
    (h : Shows (.value d x) v t r w) : Shows (.value (.list d) xs) (.array vs) t r w
  | entity {e : Entity} {v : Json} {t : RecordType} {r : t.Value} {w : Json}
    (h : Shows (.value (.record .comidEntity) e) v t r w) : Shows (.datum (.entity e)) v t r w
  | element {xs : List Datum} {vs : List Json} {i : Nat} {x : Datum} {v : Json}
    {t : RecordType} {r : t.Value} {w : Json} (hx : xs[i]? = some x) (hv : vs[i]? = some v)
    (h : Shows (.datum x) v t r w) : Shows (.datum (.list xs)) (.array vs) t r w

namespace RecordType

variable {t : RecordType} {r : t.Value} {members : List (String × Json)} {name : String} {v : Json}

/-- What stands under a name is the text of what the record holds under it. -/
theorem Holds.encode_eq {c : Content} (hc : t.Holds r name c)
    (h : t.codec.encode .json r = .ok (.object members)) (hv : (name, v) ∈ members) :
    c.encode = .ok v := by
  obtain ⟨added, hentries⟩ := exists_textEntries h
  obtain rfl := Json.object.inj hentries.text
  obtain ⟨e, he, hev⟩ := List.mem_map.1 hv
  obtain ⟨rfl, rfl⟩ := Prod.mk.inj hev
  have hnodup : ((writtenBy .json r t.shape.members ++ added).map (·.1.name)).Nodup :=
    List.pairwise_map.2 ((List.pairwise_map.1 hentries.apart).imp fun h => h.2)
  have hunique : ∀ {e'}, e' ∈ writtenBy .json r t.shape.members ++ added →
      e'.1.name = e.1.name → e' = e := fun he' hname =>
    List.inj_on_of_nodup_map hnodup he' he hname
  generalize hname : e.1.name = name at hc
  cases hc with
  | @field m d x hm hd hx =>
    cases henc : d.codec.encode .json x with
    | error cause => exact absurd (hx.trans (congrArg some henc)) (hentries.writes m hm cause)
    | ok v =>
      have hmem : (m.spec, v) ∈ writtenBy .json r t.shape.members :=
        List.mem_filterMap.2 ⟨m, hm, Member.written?_of_ok (hx.trans (congrArg some henc))⟩
      rw [← hunique (List.mem_append_left _ hmem) hname.symm]
      exact henc
  | @hook c x hc hx hwritten =>
    obtain ⟨p, hput⟩ := Option.isSome_iff_exists.1 hwritten
    have hmem : p ∈ Datum.cellPuts .json (t.hookCells r) := by
      rw [Datum.cellPuts_eq_filterMap]
      exact List.mem_filterMap.2 ⟨c, hc, hput⟩
    rw [hentries.hook] at hmem
    obtain ⟨e', he', rfl⟩ := List.mem_map.1 hmem
    obtain ⟨x', hx', hspec, henc⟩ := Cell.exists_of_put? hput
    obtain rfl := Option.some.inj (hx.symm.trans hx')
    rw [← hunique (List.mem_append_right _ he') (by rw [hspec, hname])]
    exact henc

/-- Whatever stands under a name is the text of something the record holds under it. -/
theorem exists_holds (h : t.codec.encode .json r = .ok (.object members))
    (hv : (name, v) ∈ members) : ∃ c, t.Holds r name c ∧ c.encode = .ok v := by
  obtain ⟨added, hentries⟩ := exists_textEntries h
  obtain rfl := Json.object.inj hentries.text
  obtain ⟨e, he, hev⟩ := List.mem_map.1 hv
  obtain ⟨rfl, rfl⟩ := Prod.mk.inj hev
  rcases List.mem_append.1 he with he | he
  · obtain ⟨m, hm, hwritten⟩ := List.mem_filterMap.1 he
    obtain ⟨v, henc, rfl⟩ := Member.exists_of_written? hwritten
    obtain ⟨d, hd, -, hdeclares⟩ := t.exists_typeOf? hm
    rcases hdeclares.writes r with hnone | ⟨x, hx⟩
    · cases henc.symm.trans (hnone .json)
    · exact ⟨.value d x, .field hm hd (hx .json), Option.some.inj ((hx .json).symm.trans henc)⟩
  · obtain ⟨c, hc, hput⟩ := Datum.exists_of_cellPuts_eq hentries.hook he
    obtain ⟨x, hx, hspec, henc⟩ := Cell.exists_of_put? hput
    rw [hspec]
    exact ⟨.datum x, .hook hc hx (by rw [Cell.isWritten, hput]; rfl), henc⟩

end RecordType

/-- A record that stands in the text form of a value stands there as its own text form. -/
theorem Content.Shows.encode_eq {c : Content} {v : Json} {t : RecordType} {r : t.Value} {w : Json}
    (hs : c.Shows v t r w) (h : c.encode = .ok v) : t.codec.encode .json r = .ok w := by
  induction hs with
  | record t r v => exact h
  | field hc hv _ ih => exact ih (hc.encode_eq h hv)
  | @item d xs vs i x v t r w hx hv _ ih =>
    obtain ⟨vs', hitems, hvs⟩ := exists_of_map_eq_ok h
    obtain rfl := Json.array.inj hvs
    have hitem : d.codec.encode .json x = .ok v := getElem?_encodeItems hitems hx hv
    exact ih hitem
  | entity _ ih => exact ih ((Datum.encode_entity _ _).symm.trans h)
  | @element xs vs i x v t r w hx hv _ ih =>
    have hlist : (Datum.encodeList .json 0 xs).map (Format.ofList .json) = .ok (Json.array vs) := by
      rwa [← Datum.encode]
    obtain ⟨vs', hitems, hvs⟩ := exists_of_map_eq_ok hlist
    obtain rfl := Json.array.inj hvs
    rw [Datum.encodeList_eq] at hitems
    have hitem : Datum.encode .json x = .ok v := getElem?_encodeItems hitems hx hv
    exact ih hitem

/-! ## Order -/

namespace RecordType

/-- The types of entities, which write the identity they embed before their own roles. -/
def isEntity : RecordType → Bool
  | comidEntity | corimEntity => true
  | _ => false

/-- All other record types write their fields in the order of their schema. -/
theorem specs_eq_allFields {t : RecordType} (ht : t.isEntity = false) :
    t.shape.members.map (·.spec) = t.schema.allFields := by
  cases t with
  | comidEntity | corimEntity => cases ht
  | _ => exact (Schema.allFields_flat _ _ _).symm

theorem head?_textNames {t : RecordType} {r : t.Value} {spec : FieldSpec} {order : List FieldSpec}
    (h : t.isWritten r spec = true) : (t.textNames r (spec :: order)).head? = some spec.name := by
  rw [textNames, List.filter_cons_of_pos h]
  rfl

/-- An entity leaves out neither its name, which is written first, nor its roles, which come first
in its schema. -/
theorem textNames_ne_of_isEntity {t : RecordType} (ht : t.isEntity = true) (r : t.Value) :
    t.textNames r (t.shape.members.map (·.spec)) ≠ t.textNames r t.schema.allFields := by
  have hfirst : ∃ named schemed, (t.textNames r (t.shape.members.map (·.spec))).head? = some named ∧
      (t.textNames r t.schema.allFields).head? = some schemed ∧ named ≠ schemed := by
    cases t with
    | comidEntity =>
      exact ⟨"name", "roles", head?_textNames rfl, head?_textNames rfl, by decide⟩
    | corimEntity =>
      exact ⟨"name", "roles", head?_textNames rfl, head?_textNames rfl, by decide⟩
    | _ => cases ht
  obtain ⟨named, schemed, hnamed, hschemed, hne⟩ := hfirst
  intro h
  rw [h, hschemed] at hnamed
  exact hne (Option.some.inj hnamed).symm

/-- Whatever record stands in the text form of a record, at any depth, stands there as its own text
form: an object that names its written fields in the order in which they are written and then those
of its hook, each over the text of what the record holds under the name.  This is the order of the
schema for every record but an entity, and for no entity. -/
theorem text_in_order_iff (t : RecordType) (r : t.Value) (v : Json)
    (h : t.codec.encode .json r = .ok v) (t' : RecordType) (r' : t'.Value) (w : Json)
    (hs : Content.Shows (.value (.record t) r) v t' r' w) :
    t'.codec.encode .json r' = .ok w ∧
      ∃ members : List (String × Json), w = .object members ∧
        members.map (·.1) = t'.textNames r' (t'.shape.members.map (·.spec)) ∧
        (∀ name x, (name, x) ∈ members → ∃ c, t'.Holds r' name c ∧ c.encode = .ok x) ∧
        (members.map (·.1) = t'.textNames r' t'.schema.allFields ↔ t'.isEntity = false) := by
  have henc : t'.codec.encode .json r' = .ok w := hs.encode_eq h
  obtain ⟨members, rfl, hnames⟩ := names_of_encode henc
  refine ⟨henc, members, rfl, hnames, fun _ _ hx => exists_holds henc hx, ?_⟩
  rw [hnames]
  constructor
  · intro hschema
    cases ht : t'.isEntity with
    | false => rfl
    | true => exact absurd hschema (textNames_ne_of_isEntity ht r')
  · intro ht
    rw [specs_eq_allFields ht]

/-- An entity with a name and a role. -/
def soleCreator : Entity where
  identity := { name := "ACME" }
  roles := [.creator]

/-- A module identifier of one entity. -/
def creatorsComid : Comid where
  tagIdentity := { tagId := .text "t" }
  entities := [soleCreator]

/-- The text form of that entity. -/
def soleCreatorText : Json :=
  .object [("name", .string "ACME"), ("roles", .array [.string "creator"])]

/-- The text form of that module identifier. -/
def creatorsText : Json :=
  .object [("tag-identity", .object [("id", .string "t")]), ("entities", .array [soleCreatorText]),
    ("triples", .object [])]

/-- The module identifier is in the order of its schema, but the entity inside of it is not. -/
theorem creatorsText_order :
    RecordType.comid.codec.encode .json creatorsComid = .ok creatorsText ∧
      RecordType.comid.textNames creatorsComid RecordType.comid.schema.allFields =
        ["tag-identity", "entities", "triples"] ∧
      Content.Shows (.value (.record .comid) creatorsComid) creatorsText .comidEntity soleCreator
        soleCreatorText ∧
      RecordType.comidEntity.textNames soleCreator RecordType.comidEntity.schema.allFields ≠
        ["name", "roles"] := by
  have h : RecordType.comid.codec.encode .json creatorsComid = .ok creatorsText := rfl
  have hentities : comid.Holds creatorsComid "entities"
      (.value (.list (.record .comidEntity)) [soleCreator]) :=
    .field (t := .comid) (m := comidShape.members[2]) (List.getElem_mem _) rfl rfl
  have hinner : Content.Shows (.value (.record .comid) creatorsComid) creatorsText .comidEntity
      soleCreator soleCreatorText :=
    .field (v := .array [soleCreatorText]) hentities (by simp)
      (.item (i := 0) rfl rfl (.record _ _ _))
  obtain ⟨-, members, htext, -, -, horder⟩ := text_in_order_iff .comid creatorsComid creatorsText h
    .comid creatorsComid creatorsText (.record _ _ _)
  obtain rfl := Json.object.inj htext
  obtain ⟨-, members, htext, -, -, hentity⟩ := text_in_order_iff .comid creatorsComid creatorsText h
    .comidEntity soleCreator soleCreatorText hinner
  obtain rfl := Json.object.inj htext
  refine ⟨h, (horder.2 rfl).symm, hinner, fun hsame => ?_⟩
  cases hentity.1 hsame.symm

/-- The entity is written with its name first, while its schema lists its roles first. -/
theorem soleCreator_out_of_order :
    RecordType.comidEntity.codec.encode .json soleCreator = .ok soleCreatorText ∧
      soleCreatorText = .object [("name", .string "ACME"), ("roles", .array [.string "creator"])] ∧
      RecordType.comidEntity.textNames soleCreator RecordType.comidEntity.schema.allFields =
        ["roles", "name"] :=
  ⟨rfl, rfl, rfl⟩

end RecordType

end Rim
