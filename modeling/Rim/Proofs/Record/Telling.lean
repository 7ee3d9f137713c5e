import Rim.Proofs.Json.Agreement
import Rim.Proofs.Record.Extended
import Rim.Proofs.Record.Indifferent
import Rim.Proofs.Record.Written
/-!
# What a text form tells

Two values may be compared by their text forms alone.  This says something about their binary forms
only where the text form tells values apart: where text forms that agree are those of values that
are written alike.  A value that is read back from its text form is told by it, a list is told if
its items are, and a record if its fields are, since each of these is found by its name.

## Main definitions

* `WrittenValue.TextTells`: two values are written alike in both forms if their text forms agree.
* `WrittenField.Told`: so are the values of two fields.

## Main results

* `FieldCodec.textTells_of_text`, `FieldCodec.textTells_code`: the values of codecs.
* `WrittenValue.textTells_list`: lists whose items are told.
* `WrittenValue.textTells_record`: records whose fields are told.
-/

namespace Rim

/-- Two values are written alike in both forms if their text forms agree. -/
def WrittenValue.TextTells (x y : WrittenValue) : Prop :=
  ∀ v w, x.encode .json = .ok v → y.encode .json = .ok w → Json.Agree v w → x.encode = y.encode

/-! ## Values of codecs -/

/-- An integer, whatever its width. -/
def WrittenValue.int (v : Int) : WrittenValue where
  encode f := .ok (f.ofInt v)

theorem WrittenValue.textTells_int (v w : Int) : (int v).TextTells (int w) := by
  intro x y hx hy hagree
  obtain rfl : Json.int v = x := Except.ok.inj hx
  obtain rfl : Json.int w = y := Except.ok.inj hy
  rw [hagree.int_inj]

/-- Bytes are told by their base 64 form. -/
theorem Base64.encode_inj {a b : List UInt8} (h : encode a = encode b) : a = b := by
  have ha := decode?_encode a
  rw [h] at ha
  exact Option.some.inj (ha.symm.trans (decode?_encode b))

/-- UUIDs are told by their texts. -/
theorem Uuid.toText_inj {u u' : Uuid} (h : u.toText = u'.toText) : u = u' := by
  have hu := u.parse_toText
  rw [h] at hu
  exact Except.ok.inj (hu.symm.trans u'.parse_toText)

namespace FieldCodec

variable {α : Type}

/-- Values are told by texts that are different for different values. -/
theorem textTells_of_text {c : FieldCodec α} {text : α → String}
    (htext : ∀ a, c.encode .json a = .ok (.string (text a)))
    (hinj : ∀ a b, text a = text b → a = b) (a b : α) :
    (c.written a).TextTells (c.written b) := by
  intro v w hv hw hagree
  obtain rfl := Except.ok.inj ((htext a).symm.trans hv)
  obtain rfl := Except.ok.inj ((htext b).symm.trans hw)
  rw [hinj a b hagree.string_inj]

theorem textTells_bool (a b : Bool) : (bool.written a).TextTells (bool.written b) := by
  intro v w hv hw hagree
  obtain rfl : Json.bool a = v := Except.ok.inj hv
  obtain rfl : Json.bool b = w := Except.ok.inj hw
  rw [hagree.bool_inj]

theorem textTells_uint64 (a b : UInt64) : (uint64.written a).TextTells (uint64.written b) :=
  WrittenValue.textTells_int a.toNat b.toNat

theorem textTells_string : ∀ a b, (string.written a).TextTells (string.written b) :=
  textTells_of_text (fun _ => rfl) fun _ _ => id

/-- Byte strings are told by their base 64 form. -/
theorem textTells_byteString {get : α → List UInt8} {make : List UInt8 → α}
    (h : ∀ a, make (get a) = a) :
    ∀ a b, ((byteString get make).written a).TextTells ((byteString get make).written b) :=
  textTells_of_text (fun _ => rfl) fun a b hab => by
    rw [← h a, ← h b, Base64.encode_inj hab]

theorem textTells_bytes : ∀ a b, (bytes.written a).TextTells (bytes.written b) :=
  textTells_of_text (fun _ => rfl) fun _ _ => Base64.encode_inj

theorem textTells_ueid : ∀ a b, (ueid.written a).TextTells (ueid.written b) :=
  textTells_byteString fun _ => rfl

theorem textTells_uuid : ∀ a b, (uuid.written a).TextTells (uuid.written b) :=
  textTells_of_text (fun _ => rfl) fun _ _ => Uuid.toText_inj

theorem textTells_digest : ∀ a b, (digest.written a).TextTells (digest.written b) :=
  textTells_of_text (fun _ => rfl) fun a b hab => by
    have ha := a.ofText_toText
    rw [hab] at ha
    exact Except.ok.inj (ha.symm.trans b.ofText_toText)

/-- A code is told by its name, or by its number if it has none. -/
theorem textTells_code [OpenCode α] [OpenCode.Lawful α] (a b : α) :
    ((code α).written a).TextTells ((code α).written b) := by
  intro v w hv hw hagree
  cases ha : OpenCode.name? a with
  | some name =>
    obtain rfl := Except.ok.inj ((encode_code_of_named ha).symm.trans hv)
    cases hb : OpenCode.name? b with
    | some name' =>
      obtain rfl := Except.ok.inj ((encode_code_of_named hb).symm.trans hw)
      obtain rfl := hagree.string_inj
      have hback := (OpenCode.Lawful.ofName?_name a name ha).1
      rw [Option.some.inj (hback.symm.trans (OpenCode.Lawful.ofName?_name b name hb).1)]
    | none =>
      obtain rfl := Except.ok.inj ((encode_code_of_unnamed hb).symm.trans hw)
      cases hagree
  | none =>
    obtain rfl := Except.ok.inj ((encode_code_of_unnamed ha).symm.trans hv)
    cases hb : OpenCode.name? b with
    | some name' =>
      obtain rfl := Except.ok.inj ((encode_code_of_named hb).symm.trans hw)
      cases hagree
    | none =>
      obtain rfl := Except.ok.inj ((encode_code_of_unnamed hb).symm.trans hw)
      have hnumber := hagree.int_inj
      refine funext fun f => ?_
      cases f with
      | cbor => exact congrArg (fun n : Int => Except.ok (Cbor.int n)) hnumber
      | json =>
        show (code α).encode .json a = (code α).encode .json b
        rw [encode_code_of_unnamed ha, encode_code_of_unnamed hb, hnumber]

end FieldCodec

/-! ## Lists -/

namespace WrittenValue

/-- Items are told one by one. -/
theorem encodeItems_eq_of_textTells {index : Nat} {xs ys : List WrittenValue}
    (htold : ∀ x ∈ xs, ∀ y ∈ ys, x.TextTells y) {vs ws : List Json}
    (hvs : encodeItems (fun x : WrittenValue => x.encode .json) index xs = .ok vs)
    (hws : encodeItems (fun x : WrittenValue => x.encode .json) index ys = .ok ws)
    (hagree : List.Forall₂ Json.Agree vs ws) (f : Format) :
    encodeItems (fun x : WrittenValue => x.encode f) index xs =
      encodeItems (fun x : WrittenValue => x.encode f) index ys := by
  induction xs generalizing index ys vs ws with
  | nil =>
    obtain rfl := Except.ok.inj hvs
    cases hagree
    cases ys with
    | nil => rfl
    | cons y ys =>
      obtain ⟨_, _, -, -, hnil⟩ := exists_of_encodeItems_cons hws
      cases hnil
  | cons x xs ih =>
    obtain ⟨v, vs, hv, hvs', rfl⟩ := exists_of_encodeItems_cons hvs
    cases ys with
    | nil =>
      obtain rfl := Except.ok.inj hws
      cases hagree
    | cons y ys =>
      obtain ⟨w, ws, hw, hws', rfl⟩ := exists_of_encodeItems_cons hws
      obtain ⟨hvw, hrest⟩ := List.forall₂_cons.1 hagree
      have hfirst : x.encode = y.encode :=
        htold x List.mem_cons_self y List.mem_cons_self v w hv hw hvw
      have htold' : ∀ x ∈ xs, ∀ y ∈ ys, x.TextTells y := fun x hx y hy =>
        htold x (List.mem_cons_of_mem _ hx) y (List.mem_cons_of_mem _ hy)
      rw [encodeItems, encodeItems, hfirst, ih htold' hvs' hws' hrest]

/-- Lists are told if their items are. -/
theorem textTells_list {xs ys : List WrittenValue} (htold : ∀ x ∈ xs, ∀ y ∈ ys, x.TextTells y) :
    (list xs).TextTells (list ys) := by
  intro v w hv hw hagree
  obtain ⟨vs, hvs, rfl⟩ := exists_of_map_eq_ok hv
  obtain ⟨ws, hws, rfl⟩ := exists_of_map_eq_ok hw
  refine funext fun f => congrArg (Except.map f.ofList) ?_
  exact encodeItems_eq_of_textTells htold hvs hws (Json.agree_array_iff.1 hagree) f

end WrittenValue

/-- Lists of values of a codec are told if their items are. -/
theorem FieldCodec.textTells_list {α : Type} {c : FieldCodec α} {xs ys : List α}
    (htold : ∀ x ∈ xs, ∀ y ∈ ys, (c.written x).TextTells (c.written y)) :
    ((FieldCodec.list c).written xs).TextTells ((FieldCodec.list c).written ys) := by
  rw [written_list rfl, written_list rfl]
  refine WrittenValue.textTells_list fun x' hx' y' hy' => ?_
  obtain ⟨x, hx, rfl⟩ := List.mem_map.1 hx'
  obtain ⟨y, hy, rfl⟩ := List.mem_map.1 hy'
  exact htold x hx y hy

/-! ## Fields of records

The two forms of a record have the same fields, those that are not left out.  In the text form each
is found by its name. -/

namespace WrittenField

/-- The text forms of two fields tell whether these are written alike. -/
structure Told (a b : WrittenField) : Prop where
  spec : a.spec = b.spec
  values : ∀ x ∈ a.value, ∀ y ∈ b.value, x.TextTells y

/-- Fields are told if their values are. -/
theorem told_of (spec : FieldSpec) {a b : Option WrittenValue}
    (h : ∀ x ∈ a, ∀ y ∈ b, x.TextTells y) : Told (of spec a) (of spec b) where
  spec := rfl
  values x hx y hy :=
    h x (Option.filter_eq_some_iff.1 hx).1 y (Option.filter_eq_some_iff.1 hy).1

theorem told_of_some (spec : FieldSpec) {x y : WrittenValue} (h : x.TextTells y) :
    Told (of spec (some x)) (of spec (some y)) :=
  told_of spec fun x' hx y' hy => by
    obtain rfl := Option.some.inj hx
    obtain rfl := Option.some.inj hy
    exact h

/-- Fields of values of a type are told if these are. -/
theorem told_map {α : Type} {one : α → WrittenValue} (spec : FieldSpec) {a b : Option α}
    (h : ∀ x ∈ a, ∀ y ∈ b, (one x).TextTells (one y)) :
    Told (of spec (a.map one)) (of spec (b.map one)) :=
  told_of spec fun x' hx' y' hy' => by
    obtain ⟨x, hx, rfl⟩ := Option.map_eq_some_iff.1 hx'
    obtain ⟨y, hy, rfl⟩ := Option.map_eq_some_iff.1 hy'
    exact h x hx y hy

variable {as bs : List WrittenField} {es es' : Written .json}

/-- The members of an object that has some entries. -/
def members (es : Written .json) : List (String × Json) := es.map fun e => (e.1.name, e.2)

/-- Nothing is found under a name that no field has. -/
theorem find?_members_eq_none (hputs : as.filterMap (put? .json) = es.map Put.ofEntry)
    {name : String} (hname : name ∉ as.map (·.spec.name)) :
    Json.find? name (members es) = none := by
  rw [← Option.not_isSome_iff_eq_none, Json.find?_isSome_iff]
  rintro ⟨m, hm, rfl⟩
  obtain ⟨e, he, rfl⟩ := List.mem_map.1 hm
  have hput : Put.ofEntry e ∈ as.filterMap (put? .json) := hputs ▸ List.mem_map_of_mem he
  obtain ⟨b, hb, hbe⟩ := List.mem_filterMap.1 hput
  obtain ⟨x, -, hx⟩ := Option.map_eq_some_iff.1 hbe
  have hspec : b.spec = e.1 := congrArg Put.spec hx
  exact hname (List.mem_map.2 ⟨b, hb, by rw [hspec]⟩)

/-- What is written of a field is found under its name.  A field that is left out has a name of its
own, so nothing is found under it. -/
theorem value_eq_find? (hnames : (as.map (·.spec.name)).Nodup)
    (hputs : as.filterMap (put? .json) = es.map Put.ofEntry) :
    ∀ a ∈ as, (a.value.map fun x => x.encode .json) =
      (Json.find? a.spec.name (members es)).map Except.ok := by
  induction as generalizing es with
  | nil => exact List.forall_mem_nil _
  | cons a as ih =>
    obtain ⟨hfirst, hlater⟩ := List.nodup_cons.1 hnames
    obtain ⟨spec, value⟩ := a
    cases value with
    | none =>
      have hes : as.filterMap (put? .json) = es.map Put.ofEntry := hputs
      refine List.forall_mem_cons.2 ⟨?_, ih hlater hes⟩
      rw [find?_members_eq_none hes hfirst]
      rfl
    | some x =>
      have hput : (⟨spec, x.encode .json⟩ : Put .json) :: as.filterMap (put? .json) =
        es.map Put.ofEntry := hputs
      obtain ⟨e, es, rfl, he, hes⟩ := List.map_eq_cons_iff.1 hput.symm
      obtain ⟨rfl, hx⟩ := Put.mk.inj he
      refine List.forall_mem_cons.2 ⟨?_, fun b hb => ?_⟩
      · show some (x.encode .json) =
          (Json.find? e.1.name ((e.1.name, e.2) :: members es)).map Except.ok
        rw [Json.find?, if_pos rfl, ← hx]
        rfl
      · have hne : e.1.name ≠ b.spec.name := fun h => hfirst (List.mem_map.2 ⟨b, hb, h.symm⟩)
        rw [ih hlater hes.symm b hb]
        show _ = (Json.find? b.spec.name ((e.1.name, e.2) :: members es)).map Except.ok
        rw [Json.find?, if_neg hne]

/-- Told fields are written alike if what is found of them agrees. -/
theorem Told.put?_eq {a b : WrittenField} (h : Told a b) {o o' : Option Json}
    (ha : (a.value.map fun x => x.encode .json) = o.map Except.ok)
    (hb : (b.value.map fun x => x.encode .json) = o'.map Except.ok)
    (hrel : Option.Rel Json.Agree o o') (f : Format) : a.put? f = b.put? f := by
  obtain ⟨spec, value⟩ := a
  obtain ⟨spec', value'⟩ := b
  obtain rfl : spec = spec' := h.spec
  cases hrel with
  | none =>
    obtain rfl : value = none := Option.map_eq_none_iff.1 ha
    obtain rfl : value' = none := Option.map_eq_none_iff.1 hb
    rfl
  | some hvw =>
    obtain ⟨x, rfl, hx⟩ := Option.map_eq_some_iff.1 ha
    obtain ⟨y, rfl, hy⟩ := Option.map_eq_some_iff.1 hb
    show some (Put.mk spec (x.encode f)) = some (Put.mk spec (y.encode f))
    rw [h.values x rfl y rfl _ _ hx hy hvw]

/-- Records whose fields are told apart by their names are told if their fields are.  From here on
the objects stay as they are, while the lists of fields get shorter. -/
theorem filterMap_put?_eq (htold : List.Forall₂ Told as bs)
    (hnames : (as.map (·.spec.name)).Nodup)
    (has : as.filterMap (put? .json) = es.map Put.ofEntry)
    (hbs : bs.filterMap (put? .json) = es'.map Put.ofEntry)
    (hagree : Json.Agree (.object (members es)) (.object (members es'))) (f : Format) :
    as.filterMap (put? f) = bs.filterMap (put? f) := by
  have hsame : as.map (·.spec.name) = bs.map (·.spec.name) := by
    rw [← List.forall₂_eq_eq_eq, List.forall₂_map_left_iff, List.forall₂_map_right_iff]
    exact htold.imp fun _ _ h => congrArg FieldSpec.name h.spec
  have hfound := value_eq_find? hnames has
  have hfound' := value_eq_find? (hsame ▸ hnames) hbs
  clear has hbs hnames hsame
  induction htold with
  | nil => rfl
  | @cons a b as bs hab _ ih =>
    obtain ⟨ha, has⟩ := List.forall_mem_cons.1 hfound
    obtain ⟨hb, hbs⟩ := List.forall_mem_cons.1 hfound'
    have hput := hab.put?_eq ha (hab.spec ▸ hb) (Json.agree_object_iff.1 hagree a.spec.name) f
    rw [List.filterMap_cons, List.filterMap_cons, hput, ih has hbs]

end WrittenField

/-- Records are told if their fields are, which are told apart by their names. -/
theorem WrittenValue.textTells_record {as bs : List WrittenField}
    (htold : List.Forall₂ WrittenField.Told as bs) (hnames : (as.map (·.spec.name)).Nodup)
    (entity : String) (layout : Layout) :
    (record entity layout as).TextTells (record entity layout bs) := by
  intro v w hv hw hagree
  obtain ⟨written, hwritten, rfl⟩ := exists_of_map_eq_ok hv
  obtain ⟨written', hwritten', rfl⟩ := exists_of_map_eq_ok hw
  obtain ⟨es, has, rfl, -, -⟩ := writeAll_eq_ok_iff.1 hwritten
  obtain ⟨es', hbs, rfl, -, -⟩ := writeAll_eq_ok_iff.1 hwritten'
  exact congrArg WrittenValue.encode (record_congr
    (WrittenField.filterMap_put?_eq htold hnames has hbs hagree))

end Rim
