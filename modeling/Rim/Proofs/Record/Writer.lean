import Mathlib.Data.List.Perm.Basic
import Mathlib.Data.List.ReduceOption
import Rim.Proofs.Record.Entries
import Rim.Proofs.Record.Peek
/-!
# Writing a record and taking it apart

A record is written one field after the other, and what is written makes its raw value.  The raw
value is then read in two ways: it is taken apart into entries that the fields claim, or it is
looked into for one field.  Whatever order the fields are written in, and whether they come from the
record, from one it embeds or from its hook, both find what was written and nothing else.  In the
binary form the order leaves no trace at all.  An array drops the keys of its fields, so there they
have to be its positions, and an array is not looked into.

## Main definitions

* `FieldCodec.put?`: what a value writes under a field.
* `writeNext`, `writeInTurn`: fields written in turn, those left out among them.
* `Format.HasEntries`: the raw values that have one entry for each field written.
* `Entries.Hold`: entries that are those written.

## Main results

* `RecordShape.encodeExtended_eq_writeInTurn`: a record and its hook are written in turn.
* `writeNext_put?_eq_writtenTwice_iff`: when a field is refused.
* `writeInTurn_eq_ok_iff`: which fields are written together.
* `writing_coherent`: what is written, what it makes, and what is found in it.
-/

namespace Rim

variable {f : Format} {entity : String}

/-! ## One field after the other -/

/-- What a value writes under a field; an optional field leaves an empty one out. -/
def FieldCodec.put? {α : Type} (c : FieldCodec α) (f : Format) (spec : FieldSpec) (a : α) :
    Option (Put f) :=
  (Member.encodeUnlessEmpty c spec f a).map (Put.mk spec)

/-- The next field is written, unless it is left out. -/
def writeNext (entity : String) (written : Written f) : Option (Put f) → Coded (Written f)
  | none => .ok written
  | some p => writePut entity written p

/-- Fields written one after the other, those left out among them. -/
def writeInTurn (entity : String) (written : Written f) :
    List (Option (Put f)) → Coded (Written f)
  | [] => .ok written
  | p :: rest => do writeInTurn entity (← writeNext entity written p) rest

/-- Those left out make no difference. -/
theorem writeInTurn_eq_writeAll (written : Written f) (puts : List (Option (Put f))) :
    writeInTurn entity written puts = writeAll entity written puts.reduceOption := by
  induction puts generalizing written with
  | nil => rfl
  | cons p rest ih =>
    cases p with
    | none => exact ih written
    | some p =>
      show (writePut entity written p).bind (fun w => writeInTurn entity w rest) = _
      rw [List.reduceOption_cons_of_some, writeAll_cons]
      exact congrArg _ (funext ih)

/-- The fields of a record, of those it embeds among them, and then those of its hook. -/
def RecordShape.turns {E : Type} [Hookable E] (s : RecordShape E) (f : Format) (e : E) :
    List (Option (Put f)) :=
  s.members.map (·.put? f e) ++ (Slot.puts f (Hookable.slot e)).map some

/-- A record is made of its fields and those of its hook, written in turn. -/
theorem RecordShape.encodeExtended_eq_writeInTurn {E : Type} [Hookable E] (s : RecordShape E)
    (f : Format) (e : E) :
    s.encodeExtended f e =
      (writeInTurn s.schema.entity [] (s.turns f e)).map (f.ofEntries s.schema.layout) := by
  have hown : (s.members.map (·.put? f e)).reduceOption = s.puts f e := List.filterMap_map ..
  have hhook : ∀ puts : List (Put f), (puts.map some).reduceOption = puts := fun puts =>
    (List.filterMap_map ..).trans (List.filterMap_some)
  rw [writeInTurn_eq_writeAll, turns, List.reduceOption_append, hown, hhook]
  rfl

/-! ### Fields that are refused -/

/-- A field is refused as written twice exactly if it clashes with one before it. -/
theorem writePut_eq_writtenTwice_iff {w : Written f} {p : Put f} {owner : String}
    {spec : FieldSpec} :
    writePut entity w p = .error (.writtenTwice owner spec) ↔
      owner = entity ∧ p.spec = spec ∧ (∃ v, p.value = .ok v) ∧
        ∃ e ∈ w, e.1.key = spec.key ∨ e.1.name = spec.name := by
  obtain ⟨field, value⟩ := p
  have hclash : (w.any fun e => e.1.clashes field) = true ↔
      ∃ e ∈ w, e.1.key = field.key ∨ e.1.name = field.name := by
    simp [FieldSpec.clashes]
  cases value with
  | error e =>
    constructor
    · intro h
      cases h
    · rintro ⟨-, -, ⟨v, h⟩, -⟩
      cases h
  | ok v =>
    show insertField entity w field v = _ ↔ _
    rw [insertField]
    constructor
    · intro h
      split at h
      case isTrue hany =>
        obtain ⟨rfl, rfl⟩ := RecordError.writtenTwice.inj (Except.error.inj h)
        exact ⟨rfl, rfl, ⟨v, rfl⟩, hclash.1 hany⟩
      case isFalse => cases h
    · rintro ⟨rfl, rfl, -, h⟩
      rw [if_pos (hclash.2 h)]

/-- A field is refused exactly if it is to be written with a value and shares its key or its name
with a field written before. -/
theorem writeNext_put?_eq_writtenTwice_iff {α : Type} {c : FieldCodec α} {w : Written f} {a : α}
    {owner : String} {spec field : FieldSpec} :
    writeNext entity w (c.put? f spec a) = .error (.writtenTwice owner field) ↔
      owner = entity ∧ field = spec ∧ ¬ (spec.isOptional = true ∧ c.isEmpty a = true) ∧
        (∃ v, c.encode f a = .ok v) ∧
        ∃ e ∈ w, e.1.key = spec.key ∨ e.1.name = spec.name := by
  unfold FieldCodec.put? Member.encodeUnlessEmpty
  by_cases hskip : spec.isOptional = true ∧ c.isEmpty a = true
  · rw [if_pos (by simpa using hskip)]
    constructor
    · intro h
      cases h
    · exact fun h => absurd hskip h.2.2.1
  · rw [if_neg (by simpa using hskip)]
    refine writePut_eq_writtenTwice_iff.trans (and_congr_right fun _ => ?_)
    constructor
    · rintro ⟨rfl, hvalue, h⟩
      exact ⟨rfl, hskip, hvalue, h⟩
    · rintro ⟨rfl, -, hvalue, h⟩
      exact ⟨rfl, hvalue, h⟩

theorem writeNext_put?_of_isEmpty {α : Type} {c : FieldCodec α} {w : Written f} {a : α}
    {spec : FieldSpec} (hspec : spec.isOptional = true) (hempty : c.isEmpty a = true) :
    writeNext entity w (c.put? f spec a) = .ok w := by
  rw [FieldCodec.put?, Member.encodeUnlessEmpty, hspec, hempty]
  rfl

/-! ### Fields that are written together -/

/-- Fields are written together exactly if all have values and no two of them clash. -/
theorem writeInTurn_eq_ok_iff {puts : List (Option (Put f))} {w : Written f} :
    writeInTurn entity [] puts = .ok w ↔
      puts.reduceOption = w.map Put.ofEntry ∧ (w.map (·.1)).Pairwise FieldSpec.Apart := by
  rw [writeInTurn_eq_writeAll, writeAll_eq_ok_iff]
  constructor
  · rintro ⟨more, hputs, rfl, -, hapart⟩
    exact ⟨hputs, hapart⟩
  · rintro ⟨hputs, hapart⟩
    exact ⟨w, hputs, rfl, by simp, hapart⟩

/-- Fields that are written together may be written in any order. -/
theorem exists_writeInTurn_of_perm {puts puts' : List (Option (Put f))} {w : Written f}
    (h : writeInTurn entity [] puts = .ok w) (hperm : puts'.Perm puts) :
    ∃ w', writeInTurn entity [] puts' = .ok w' ∧ w'.Perm w := by
  obtain ⟨hputs, hapart⟩ := writeInTurn_eq_ok_iff.1 h
  have hreduced : puts'.reduceOption.Perm (w.map Put.ofEntry) :=
    hputs ▸ hperm.filterMap id
  obtain ⟨w', hputs', hw⟩ :
      ∃ w' : Written f, puts'.reduceOption = w'.map Put.ofEntry ∧ w'.Perm w := by
    have hcomp := List.eq_map_comp_perm (Put.ofEntry (f := f))
    exact (congrFun (congrFun hcomp _) _).mpr hreduced
  refine ⟨w', writeInTurn_eq_ok_iff.2 ⟨hputs', ?_⟩, hw⟩
  exact ((hw.map _).pairwise_iff FieldSpec.Apart.symm).2 hapart

/-! ## What is made of the fields -/

/-- A raw value has one entry for each field written, with its value, and no others. -/
def Format.HasEntries : (f : Format) → Raw f → Written f → Prop
  | .cbor, v, w => ∃ es, v = .map es ∧ (es.map (·.1)).Nodup ∧
      es.Perm (w.map fun e => (.int e.1.key.toNat, e.2))
  | .json, v, w => ∃ es, v = .object es ∧ (es.map (·.1)).Nodup ∧
      es.Perm (w.map fun e => (e.1.name, e.2))

/-- Entries are those of the fields written, each under the key of its field. -/
structure Entries.Hold (es : Entries f) (w : Written f) : Prop where
  nodup : (List.map (·.1) es).Nodup
  perm : List.Perm es (w.map fun e => (f.keyFor e.1, e.2))

namespace Format

/-- A map has one entry for each field written. -/
theorem hasEntries_ofEntries_map {w : Written f} (h : (w.map (·.1)).Pairwise FieldSpec.Apart) :
    f.HasEntries (f.ofEntries .map w) w := by
  cases f with
  | cbor =>
    obtain ⟨es, hes, hperm⟩ := exists_ofEntries_map h
    refine ⟨es.map Cbor.keyed, hes, Cbor.nodup_map_keyed ?_, ?_⟩
    · exact (hperm.map _).nodup_iff.2 (nodup_map_key h)
    · have hkeyed := hperm.map Cbor.keyed
      rwa [List.map_map] at hkeyed
  | json =>
    refine ⟨w.map fun e => (e.1.name, e.2), rfl, ?_, .refl _⟩
    have hnames := nodup_keys_of_apart h .json
    rw [List.map_map] at hnames ⊢
    exact hnames

/-- A record is taken apart into the entries of the fields written. -/
theorem exists_hold_of_ofEntries {layout : Layout} {w : Written f}
    (h : (w.map (·.1)).Pairwise FieldSpec.Apart)
    (hkeys : f = .cbor → layout = .array → KeysFromZero (w.map (·.1.key))) :
    ∃ es : Entries f, f.toEntries layout (f.ofEntries layout w) = .ok es ∧ es.Hold w := by
  obtain ⟨es, hes, hperm⟩ := toEntries_ofEntries_of_keysFromZero h hkeys
  refine ⟨es, hes, ?_, hperm⟩
  have hnodup := nodup_keys_of_apart h f
  rw [List.map_map] at hnodup
  refine (hperm.map (·.1)).nodup_iff.2 ?_
  rwa [List.map_map]

/-- The binary form does not tell the order in which fields are written. -/
theorem ofEntries_cbor_eq_of_perm {w w' : Written .cbor} (hperm : w'.Perm w)
    (h : (w.map (·.1)).Pairwise FieldSpec.Apart) (layout : Layout) :
    ofEntries .cbor layout w' = ofEntries .cbor layout w := by
  have h' : (w'.map (·.1)).Pairwise FieldSpec.Apart :=
    ((hperm.map _).pairwise_iff FieldSpec.Apart.symm).2 h
  cases layout with
  | map =>
    have hkeyed : ∀ w : Written .cbor, ofEntries .cbor .map w =
        Cbor.mapOf ((w.map fun e => (e.1.key, e.2)).map Cbor.keyed) := fun w => by
      rw [List.map_map]
      rfl
    rw [hkeyed, hkeyed]
    exact Cbor.mapOf_eq_of_perm (hperm.map _) (nodup_map_key h')
  | array =>
    have hsorted : (w'.mergeSort fun a b => a.1.key.toNat ≤ b.1.key.toNat) =
        w.mergeSort fun a b => a.1.key.toNat ≤ b.1.key.toNat := by
      apply mergeSort_eq_of_perm hperm
      have hkeys := Schema.nodup_map_toNat_key h'
      rwa [List.map_map] at hkeys
    exact congrArg (fun l => Cbor.array (List.map (·.2) l)) hsorted

/-- An array whose positions are the keys of the fields has each field at its key.  In ascending
order the keys count the fields, so a field is where its key says. -/
theorem getElem?_ofEntries_array {w : Written .cbor} (h : (w.map (·.1)).Pairwise FieldSpec.Apart)
    (hkeys : KeysFromZero (w.map (·.1.key))) :
    ∃ items, ofEntries .cbor .array w = .array items ∧ items.length = w.length ∧
      ∀ e ∈ w, items[e.1.key.toNat]? = some e.2 := by
  refine ⟨_, rfl, by simp, fun e he => ?_⟩
  have hpositions := map_key_mergeSort h hkeys
  have hmem : e ∈ w.mergeSort fun a b => a.1.key.toNat ≤ b.1.key.toNat := List.mem_mergeSort.2 he
  obtain ⟨i, hi, hget⟩ := List.getElem_of_mem hmem
  have hkey : e.1.key.toNat = i := by
    have hkeys := List.getElem_of_eq hpositions (i := i) (by simpa using hi)
    rwa [List.getElem_map, List.getElem_range, hget] at hkeys
  rw [hkey, List.getElem?_map, List.getElem?_eq_getElem hi, hget]
  rfl

theorem toEntries_map_of_json {layout : Layout} (v : Raw .json) :
    toEntries .json .map v = toEntries .json layout v := by
  cases layout <;> cases v <;> rfl

end Format

/-! ## What is found -/

/-- The member that is one optional field and nothing else. -/
def Member.alone {α : Type} (c : FieldCodec α) (spec : FieldSpec) : Member (Option α) :=
  .optional spec c (fun a => a) fun a _ => a

theorem takeAll_alone {α : Type} (c : FieldCodec α) (cx : Context) (spec : FieldSpec)
    (es : Entries f) :
    takeAll cx [Member.alone c spec] none es =
      (Member.decodeClaimed c spec f cx (es.get? spec)).map fun a => (a, es.without spec) := by
  show ((Member.decodeClaimed c spec f cx (es.get? spec)).map fun a => a).bind _ = _
  cases Member.decodeClaimed c spec f cx (es.get? spec) <;> rfl

/-- A field that is looked for is the one that is claimed. -/
theorem Format.entry?_eq_get? {layout : Layout} (hlayout : layout = .map ∨ f = .json) {v : Raw f}
    {es : Entries f} (h : f.toEntries layout v = .ok es) (spec : FieldSpec) :
    f.entry? v spec = es.get? spec := by
  rcases hlayout with rfl | rfl
  · exact entry_eq_get? h spec
  · exact entry_eq_get? ((toEntries_map_of_json v).trans h) spec

/-! ## Everything together -/

/-- What has been written by a sequence of fields, what comes of one more, what is made of it, and
what is found in that. -/
structure Written.Coherent (entity : String) (puts : List (Option (Put f))) (w : Written f) :
    Prop where
  /-- The fields that are not left out have been written, in their order. -/
  written : puts.reduceOption = w.map Put.ofEntry
  /-- A field with a value is refused exactly if it is not left out and clashes with one of them. -/
  refused : ∀ {α : Type} (c : FieldCodec α) (spec : FieldSpec) (a : α) (owner : String)
    (field : FieldSpec),
    writeNext entity w (c.put? f spec a) = .error (.writtenTwice owner field) ↔
      owner = entity ∧ field = spec ∧ ¬ (spec.isOptional = true ∧ c.isEmpty a = true) ∧
        (∃ v, c.encode f a = .ok v) ∧ ∃ e ∈ w, e.1.key = spec.key ∨ e.1.name = spec.name
  /-- An optional field with an empty value changes nothing. -/
  leftOut : ∀ {α : Type} (c : FieldCodec α) (spec : FieldSpec) (a : α), spec.isOptional = true →
    c.isEmpty a = true → writeNext entity w (c.put? f spec a) = .ok w
  /-- The map has one entry for each field written. -/
  entries : f.HasEntries (f.ofEntries .map w) w
  /-- A record is taken apart into the fields written; an array if their keys are its positions. -/
  takenApart : ∀ layout, (f = .cbor → layout = .array → KeysFromZero (w.map (·.1.key))) →
    ∃ es : Entries f, f.toEntries layout (f.ofEntries layout w) = .ok es ∧ es.Hold w
  /-- Looking a field up in a map, or in an object, finds the entry that it claims. -/
  lookedUp : ∀ layout, layout = .map ∨ f = .json → ∀ es : Entries f,
    f.toEntries layout (f.ofEntries layout w) = .ok es →
      ∀ spec, f.entry? (f.ofEntries layout w) spec = es.get? spec
  /-- Reading a field on its own gives what claiming it gives. -/
  peeked : ∀ layout, layout = .map ∨ f = .json → ∀ es : Entries f,
    f.toEntries layout (f.ofEntries layout w) = .ok es →
      ∀ {α : Type} (c : FieldCodec α) (cx : Context) (spec : FieldSpec),
        takeAll cx [Member.alone c spec] none es =
          (c.peek f cx spec (f.ofEntries layout w)).map fun a => (a, es.without spec)
  /-- The fields may be written in any order, which the binary form does not tell. -/
  anyOrder : ∀ puts' : List (Option (Put f)), puts'.Perm puts →
    ∃ w', writeInTurn entity [] puts' = .ok w' ∧ w'.Perm w ∧
      (f = .cbor → ∀ layout, f.ofEntries layout w' = f.ofEntries layout w)
  /-- An array whose positions are the keys of the fields has each field at its key. -/
  positions : f = .cbor → KeysFromZero (w.map (·.1.key)) →
    ∃ items, f.toList (f.ofEntries .array w) = .ok items ∧ items.length = w.length ∧
      ∀ e ∈ w, items[e.1.key.toNat]? = some e.2

/-- Whatever fields are written together, what was written is what is made of them, and what is
found in that again. -/
theorem writing_coherent {puts : List (Option (Put f))} {w : Written f}
    (h : writeInTurn entity [] puts = .ok w) : w.Coherent entity puts := by
  obtain ⟨hputs, hapart⟩ := writeInTurn_eq_ok_iff.1 h
  constructor
  case written => exact hputs
  case refused => exact fun c spec a owner field => writeNext_put?_eq_writtenTwice_iff
  case leftOut => exact fun c spec a => writeNext_put?_of_isEmpty
  case entries => exact Format.hasEntries_ofEntries_map hapart
  case takenApart => exact fun layout hkeys => Format.exists_hold_of_ofEntries hapart hkeys
  case lookedUp => exact fun layout hlayout es hes => Format.entry?_eq_get? hlayout hes
  case peeked =>
    intro layout hlayout es hes α c cx spec
    rw [takeAll_alone, FieldCodec.peek, Format.entry?_eq_get? hlayout hes]
  case anyOrder =>
    intro puts' hperm
    obtain ⟨w', hw', hsame⟩ := exists_writeInTurn_of_perm h hperm
    refine ⟨w', hw', hsame, ?_⟩
    rintro rfl layout
    exact Format.ofEntries_cbor_eq_of_perm hsame hapart layout
  case positions =>
    rintro rfl hkeys
    obtain ⟨items, hitems, hlength, hget⟩ := Format.getElem?_ofEntries_array hapart hkeys
    exact ⟨items, by rw [hitems]; rfl, hlength, hget⟩

/-- An entity whose registration URI is left out, so that its hook can have the key. -/
def nicknamedEntity : Entity where
  identity := { name := "ACME", regId := some "" }
  roles := [.creator]
  hook := some {
    typeName := "nickname"
    fields := some [⟨⟨.optional "nickname" 1, .string, false⟩, some (.string "x")⟩] }

theorem writing_coherent_nicknamed :
    ∃ w : Written .cbor, writeInTurn "entity" [] (entityShape.turns .cbor nicknamedEntity) = .ok w ∧
      KeysFromZero (w.map (·.1.key)) ∧
      w.Coherent "entity" (entityShape.turns .cbor nicknamedEntity) := by
  refine ⟨_, rfl, fun k => ?_, writing_coherent rfl⟩
  have hkeys : (∃ key ∈ [(0 : UInt64), 2, 1], key.toNat = k) ↔ 0 = k ∨ 2 = k ∨ 1 = k := by simp
  refine hkeys.trans ?_
  show 0 = k ∨ 2 = k ∨ 1 = k ↔ k < 3
  omega

end Rim
