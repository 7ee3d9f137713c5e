import Rim.Proofs.Hook.Silent
import Rim.Proofs.Validity
/-!
# Measured values that carry no data

Measured values without data are refused.  Whether there are any is decided twice: the check looks
at the fields one by one, and the writer leaves out the optional fields that say nothing.  Of most
fields both say the same.  But the check takes a text or a raw value that is there and empty for
data, and of the flags it asks only whether one is set, by number or through the hook; the writer
writes neither an empty text nor a flag that the hook holds by itself, and does write every field of
that hook, whether a flag lives in it or not.

## Main definitions

* `Format.CarriesNothing`: records that carry no value.
* `Mval.SeenByBoth`, `Mval.SeenByCheck`, `Mval.SeenByWriter`: data that both take for data, and data
  that only one of them does.

## Main results

* `Mval.isVacant_eq_true_iff`: what the check takes for data.
* `Mval.carriesNothing_iff`: what the writer does.
* `Mval.vacant_iff_carriesNothing_iff`: when they agree.
-/

namespace Rim

variable {f : Format}

/-! ## Records that carry no value -/

/-- A record of measured values that carries none: it has no entries, or only that of the flags,
which have none. -/
def Format.CarriesNothing : (f : Format) → Raw f → Prop
  | .cbor, w => w = .map [] ∨ w = .map [(.int 3, .map [])]
  | .json, w => w = .object [] ∨ w = .object [("flags", .object [])]

/-- The field of the flags. -/
def Mval.flagsField : FieldSpec := .optional "flags" 3

/-- A record carries nothing if it is empty, or holds nothing but empty flags. -/
theorem Format.carriesNothing_iff {w : Raw f} :
    f.CarriesNothing w ↔
      w = f.emptyRecord ∨ w = f.ofEntries .map [(Mval.flagsField, f.emptyRecord)] := by
  cases f <;> exact .rfl

/-- A record carries no value exactly if each of its entries is one of flags without entries. -/
theorem Format.carriesNothing_ofEntries_iff {w : Written f}
    (h : (w.map (·.1)).Pairwise FieldSpec.Apart) :
    f.CarriesNothing (f.ofEntries .map w) ↔
      ∀ e ∈ w, f.keyFor e.1 = f.keyFor Mval.flagsField ∧ e.2 = f.emptyRecord := by
  rw [carriesNothing_iff]
  constructor
  · rintro (hempty | hflags)
    · rw [(ofEntries_eq_emptyRecord_iff h).1 hempty]
      exact List.forall_mem_nil _
    · obtain ⟨spec, rfl, hkey⟩ := exists_of_ofEntries_eq_singleton h hflags
      intro e he
      obtain rfl := List.mem_singleton.1 he
      exact ⟨hkey, rfl⟩
  · intro hall
    match w, h, hall with
    | [], _, _ => exact .inl (by cases f <;> rfl)
    | [(spec, v)], _, hall =>
      obtain ⟨hkey, rfl⟩ := hall _ List.mem_cons_self
      refine .inr ?_
      cases f with
      | cbor =>
        have hkey : spec.key = 3 := hkey
        simp only [ofEntries, List.map_cons, List.map_nil, hkey]
        rfl
      | json =>
        have hname : spec.name = "flags" := hkey
        simp only [ofEntries, List.map_cons, List.map_nil, hname]
        rfl
    | e :: e' :: w, h, hall =>
      have hapart := List.rel_of_pairwise_cons h (List.mem_map_of_mem List.mem_cons_self)
      have hsame := (hall e (by simp)).1.trans (hall e' (by simp)).1.symm
      exact absurd hsame (hapart.keyFor_ne f)

/-! ## Flags -/

/-- The flags are written without entries exactly if none of the built-in ones is set, and the hook
writes nothing. -/
theorem FlagsMap.encode_eq_emptyRecord_iff {m : FlagsMap} :
    flagsShape.encodeExtended f m = .ok f.emptyRecord ↔
      m.toFlagsBody.holdsFlag = false ∧ Slot.holdsValues m.hook = false := by
  have hown : flagsShape.puts f m = [] ↔ ∀ i, m.flag i = none := by
    rw [RecordShape.puts_eq_nil_iff]
    simp only [flagsShape, RecordShape.flat, List.mem_map, List.mem_finRange, true_and,
      forall_exists_index, forall_apply_eq_imp_iff]
    refine forall_congr' fun i => ?_
    unfold flagMember
    rw [Member.put?_optional_eq_none_iff rfl]
    cases m.flag i <;> simp [FieldCodec.bool]
  unfold RecordShape.encodeExtended
  rw [RecordShape.encodeWith_eq_emptyRecord_iff rfl, List.append_eq_nil_iff, hown,
    FlagsBody.holdsFlag_eq_false_iff, Slot.holdsValues_eq_false_iff (f := f)]
  rfl

/-! ## What is written that says nothing -/

/-- What is written of flags without entries. -/
def Put.SaysNothing (p : Put f) : Prop :=
  f.keyFor p.spec = f.keyFor Mval.flagsField ∧ p.value = .ok f.emptyRecord

/-- The fields of a hook say something, whatever their keys. -/
theorem Slot.forall_mem_puts_iff {B : Type} {slot : Slot B} :
    (∀ p ∈ Slot.puts f slot, p.SaysNothing) ↔ Slot.holdsValues slot = false := by
  rw [Slot.holdsValues_eq_false_iff (f := f), List.eq_nil_iff_forall_not_mem]
  refine forall_congr' fun p => ⟨fun hsilent hp => ?_, fun hnot hp => absurd hp hnot⟩
  exact Slot.value_ne_emptyRecord hp (hsilent hp).2

/-! ## Faults of other records

The steps of a validation wrap what they report of a part, and a hook reports no fault. -/

namespace Validate

variable {α : Type} {name : String} {fault : Fault}

theorem underField_ne_invalid {x : Validity} : underField name x ≠ .error (.invalid fault) := by
  cases x <;> exact fun h => by cases h

theorem fieldIfAny_ne_invalid [Validate α] {o : Option α} :
    fieldIfAny name o ≠ .error (.invalid fault) := by
  cases o with
  | none => exact fun h => by cases h
  | some a => exact underField_ne_invalid

theorem bind_ne_invalid {x : Validity} {next : Unit → Validity}
    (hx : x ≠ .error (.invalid fault)) (hnext : next () ≠ .error (.invalid fault)) :
    (x >>= next) ≠ .error (.invalid fault) := by
  cases x with
  | ok _ => exact hnext
  | error e => exact fun h => hx (congrArg Except.error (Except.error.inj h))

end Validate

theorem Slot.validity_ne_invalid {B : Type} {slot : Slot B} {body : B} {fault : Fault} :
    Slot.validity slot body ≠ .error (.invalid fault) := by
  unfold Slot.validity
  cases Slot.validate slot body <;> exact fun h => by cases h

/-! ## Data -/

namespace Mval

variable {v : Mval} {w : Raw f}

/-- Data that the check counts and the writer writes. -/
def SeenByBoth (v : Mval) : Prop :=
  v.digests ≠ [] ∨ (∃ m ∈ v.flags, m.toFlagsBody.holdsFlag = true) ∨ (∃ b ∈ v.rawValue, b ≠ []) ∨
    (∃ s ∈ v.serialNumber, s ≠ "") ∨ v.ueid ≠ none ∨ v.uuid ≠ none ∨ (∃ s ∈ v.name, s ≠ "") ∨
    Slot.holdsValues v.hook = true

/-- What else the check counts: a raw value or a text that is there and empty, and a flag that the
hook of the flags answers for. -/
def SeenByCheck (v : Mval) : Prop :=
  v.rawValue = some [] ∨ v.serialNumber = some "" ∨ v.name = some "" ∨
    ∃ m ∈ v.flags, Slot.holdsFlag m.hook = true

/-- What else the writer writes: the fields of the hook of the flags. -/
def SeenByWriter (v : Mval) : Prop := ∃ m ∈ v.flags, Slot.holdsValues m.hook = true

theorem eq_none_iff {α : Type} {o : Option α} (a : α) :
    o = none ↔ ¬ (∃ x ∈ o, x ≠ a) ∧ o ≠ some a := by
  cases o with
  | none => simp
  | some x => simp

/-- Measured values are vacant if no field and no flag of theirs has a value. -/
theorem isVacant_eq_true_iff : v.isVacant = true ↔ ¬ v.SeenByBoth ∧ ¬ v.SeenByCheck := by
  have hflags : (!v.flags.any FlagsMap.holdsFlag) = true ↔
      (¬ ∃ m ∈ v.flags, m.toFlagsBody.holdsFlag = true) ∧
        ¬ ∃ m ∈ v.flags, Slot.holdsFlag m.hook = true := by
    cases v.flags <;> simp [FlagsMap.holdsFlag_eq]
  have hraw : v.rawValue = none ↔ _ := eq_none_iff []
  have hserial : v.serialNumber = none ↔ _ := eq_none_iff ""
  have hname : v.name = none ↔ _ := eq_none_iff ""
  unfold isVacant SeenByBoth SeenByCheck
  simp only [Bool.and_eq_true, hflags, List.isEmpty_iff, Option.isNone_iff_eq_none,
    Bool.not_eq_true', hraw, hserial, hname, ne_eq, Bool.eq_false_iff, not_or, not_not]
  constructor
  · rintro ⟨⟨⟨⟨⟨⟨⟨hdigests, hbuiltin, howned⟩, hraw, hraw'⟩, hserial, hserial'⟩, hueid⟩, huuid⟩,
      hname, hname'⟩, hvalues⟩
    exact ⟨⟨hdigests, hbuiltin, hraw, hserial, hueid, huuid, hname, hvalues⟩, hraw', hserial',
      hname', howned⟩
  · rintro ⟨⟨hdigests, hbuiltin, hraw, hserial, hueid, huuid, hname, hvalues⟩, hraw', hserial',
      hname', howned⟩
    exact ⟨⟨⟨⟨⟨⟨⟨hdigests, hbuiltin, howned⟩, hraw, hraw'⟩, hserial, hserial'⟩, hueid⟩, huuid⟩,
      hname, hname'⟩, hvalues⟩

/-- Measured values are written without a value exactly if each field written is that of flags
without entries. -/
theorem carriesNothing_iff_forall_puts (h : mvalShape.encodeExtended f v = .ok w) :
    f.CarriesNothing w ↔ ∀ p ∈ mvalShape.puts f v ++ Slot.puts f v.hook, p.SaysNothing := by
  have hencode : mvalShape.encodeWith f v (Slot.puts f v.hook) = .ok w := h
  obtain ⟨entries, hentries, rfl⟩ := exists_of_map_eq_ok hencode
  obtain ⟨written, hputs, rfl, -, hapart⟩ := writeAll_eq_ok_iff.1 hentries
  rw [hputs, List.forall_mem_map]
  refine (Format.carriesNothing_ofEntries_iff hapart).trans (forall₂_congr fun e _ => ?_)
  simp [Put.SaysNothing, Put.ofEntry]

theorem forall_put?_flags_iff {set : Option FlagsMap → Mval → Mval} :
    (∀ p ∈ (Member.optional (.optional "flags" 3) (flagsShape.extended default)
        (·.flags) set).put? f v, p.SaysNothing) ↔
      ∀ m ∈ v.flags, m.toFlagsBody.holdsFlag = false ∧ Slot.holdsValues m.hook = false := by
  simp only [← FlagsMap.encode_eq_emptyRecord_iff (f := f)]
  unfold Member.put? Member.optional Member.encodeUnlessEmpty
  dsimp only
  cases v.flags with
  | none => simp
  | some m => simp [Put.SaysNothing, RecordShape.extended, flagsField]

/-- A field under another key than that of the flags says nothing exactly if it is left out. -/
theorem forall_put?_iff {m : Member Mval} (hkey : m.spec.key ≠ 3) (hname : m.spec.name ≠ "flags") :
    (∀ p ∈ m.put? f v, p.SaysNothing) ↔ m.put? f v = none := by
  apply Member.forall_put?_iff_of_key_ne
  cases f with
  | cbor => exact hkey
  | json => exact hname

/-- An optional field writes nothing exactly if its value is empty. -/
theorem forall_put?_optional_iff {α : Type} {spec : FieldSpec} {c : FieldCodec α}
    {get : Mval → Option α} {set : Option α → Mval → Mval} (hoptional : spec.isOptional = true)
    (hkey : spec.key ≠ 3) (hname : spec.name ≠ "flags") :
    (∀ p ∈ (Member.optional spec c get set).put? f v, p.SaysNothing) ↔
      ∀ a ∈ get v, c.isEmpty a = true := by
  rw [forall_put?_iff (m := .optional spec c get set) hkey hname]
  exact Member.put?_optional_eq_none_iff hoptional

/-- The fields of measured values that say nothing: no digests, flags without entries, and values
that are absent or left out. -/
theorem forall_puts_iff :
    (∀ p ∈ mvalShape.puts f v, p.SaysNothing) ↔ v.digests = [] ∧
      (∀ m ∈ v.flags, m.toFlagsBody.holdsFlag = false ∧ Slot.holdsValues m.hook = false) ∧
      (∀ b ∈ v.rawValue, b = []) ∧ (∀ s ∈ v.serialNumber, s = "") ∧ v.ueid = none ∧
      v.uuid = none ∧ ∀ s ∈ v.name, s = "" := by
  rw [RecordShape.forall_mem_puts_iff]
  simp only [mvalShape, RecordShape.flat, List.forall_mem_cons]
  refine and_congr ?_ (and_congr forall_put?_flags_iff (and_congr ?_ (and_congr ?_ (and_congr ?_
    (and_congr ?_ ?_)))))
  · rw [forall_put?_iff (by decide) (by decide), Member.put?_defaulted_eq_none_iff rfl]
    exact List.isEmpty_iff
  · rw [forall_put?_optional_iff rfl (by decide) (by decide)]
    exact forall₂_congr fun _ _ => List.isEmpty_iff
  · rw [forall_put?_optional_iff rfl (by decide) (by decide)]
    exact forall₂_congr fun _ _ => String.isEmpty_iff
  · rw [forall_put?_optional_iff rfl (by decide) (by decide)]
    simp [FieldCodec.ueid, FieldCodec.byteString, Option.eq_none_iff_forall_not_mem]
  · rw [forall_put?_optional_iff rfl (by decide) (by decide)]
    simp [FieldCodec.uuid, Option.eq_none_iff_forall_not_mem]
  · rw [forall_put?_optional_iff rfl (by decide) (by decide)]
    simp [FieldCodec.string]

/-- Measured values are written without a value exactly if none of their fields has one. -/
theorem carriesNothing_iff (h : mvalShape.encodeExtended f v = .ok w) :
    f.CarriesNothing w ↔ ¬ v.SeenByBoth ∧ ¬ v.SeenByWriter := by
  rw [carriesNothing_iff_forall_puts h, List.forall_mem_append, forall_puts_iff,
    Slot.forall_mem_puts_iff]
  have hflags : (∀ m ∈ v.flags, m.toFlagsBody.holdsFlag = false ∧ Slot.holdsValues m.hook = false) ↔
      (¬ ∃ m ∈ v.flags, m.toFlagsBody.holdsFlag = true) ∧
        ¬ ∃ m ∈ v.flags, Slot.holdsValues m.hook = true := by
    cases v.flags <;> simp
  have hempty : ∀ {α : Type} {o : Option α} {a : α}, (∀ x ∈ o, x = a) ↔ ¬ ∃ x ∈ o, x ≠ a := by
    simp
  unfold SeenByBoth SeenByWriter
  rw [hflags, hempty, hempty, hempty]
  simp only [not_or, ne_eq, not_not, Bool.not_eq_true]
  constructor
  · rintro ⟨⟨hdigests, ⟨hbuiltin, howned⟩, hrest⟩, hvalues⟩
    exact ⟨⟨hdigests, hbuiltin, hrest.1, hrest.2.1, hrest.2.2.1, hrest.2.2.2.1, hrest.2.2.2.2,
      hvalues⟩, howned⟩
  · rintro ⟨⟨hdigests, hbuiltin, hraw, hserial, hueid, huuid, hname, hvalues⟩, howned⟩
    exact ⟨⟨hdigests, ⟨hbuiltin, howned⟩, hraw, hserial, hueid, huuid, hname⟩, hvalues⟩

/-! ## The refusal -/

/-- Measured values are refused as unset exactly if they are vacant. -/
theorem validate_eq_unset_iff :
    Validate.validate v = .error (.invalid .unsetValues) ↔ v.isVacant = true := by
  constructor
  · intro h
    cases hvacant : v.isVacant with
    | true => rfl
    | false =>
      have hsteps : Validate.validate v = (do
          Validate.items "digests" "digest" v.digests
          Validate.fieldIfAny "flags" v.flags
          Validate.fieldIfAny "ueid" v.ueid
          Validate.fieldIfAny "uuid" v.uuid
          Slot.validity v.hook v.toMvalBody) := by
        show (Validate.ensure (!v.isVacant) .unsetValues >>= fun _ => _) = _
        rw [hvacant]
        rfl
      rw [hsteps] at h
      refine absurd h (Validate.bind_ne_invalid Validate.underField_ne_invalid ?_)
      refine Validate.bind_ne_invalid Validate.fieldIfAny_ne_invalid ?_
      refine Validate.bind_ne_invalid Validate.fieldIfAny_ne_invalid ?_
      exact Validate.bind_ne_invalid Validate.fieldIfAny_ne_invalid Slot.validity_ne_invalid
  · intro h
    show (Validate.ensure (!v.isVacant) .unsetValues >>= fun _ => _) = _
    rw [h]
    rfl

/-- Measured values are refused as unset exactly if they carry no value when they are written,
unless that is decided by data that only one of the two knows: a raw value or a text that is there
and empty, a flag that the hook of the flags answers for, or a field of that hook. -/
theorem vacant_iff_carriesNothing_iff (h : mvalShape.encodeExtended f v = .ok w) :
    ((v.isVacant = true ↔ f.CarriesNothing w) ↔
        v.SeenByBoth ∨ (v.SeenByCheck ↔ v.SeenByWriter)) ∧
      (f.CarriesNothing w ↔ ¬ v.SeenByBoth ∧ ¬ v.SeenByWriter) ∧
      (Validate.validate v = .error (.invalid .unsetValues) ↔ v.isVacant = true) := by
  have hwritten := carriesNothing_iff h
  refine ⟨?_, hwritten, validate_eq_unset_iff⟩
  rw [isVacant_eq_true_iff, hwritten]
  by_cases hboth : v.SeenByBoth
  · simp [hboth]
  · simp [hboth, not_iff_not]

/-- Measured values that carry nothing but one field of a hook of their flags. -/
def ofFlagsField (kind : Kind) (x : Datum) (flags : Option HookFlags) : Mval where
  flags := some {
    hook := some {
      typeName := "described"
      fields := some [⟨⟨.optional "note" 100, kind, false⟩, some x⟩]
      flags := flags } }

/-- A flag that lives in a field of the hook is data to both. -/
theorem vacant_iff_carriesNothing_owned :
    mvalShape.encodeExtended .cbor
        (ofFlagsField .bool (.bool true) (some ⟨[⟨100, some "note"⟩], []⟩)) =
      .ok (.map [(.int 3, .map [(.int 100, .bool true)])]) ∧
      ((ofFlagsField .bool (.bool true) (some ⟨[⟨100, some "note"⟩], []⟩)).isVacant = true ↔
        Format.CarriesNothing .cbor (.map [(.int 3, .map [(.int 100, .bool true)])])) := by
  have hwritten : mvalShape.encodeExtended .cbor
      (ofFlagsField .bool (.bool true) (some ⟨[⟨100, some "note"⟩], []⟩)) =
        .ok (.map [(.int 3, .map [(.int 100, .bool true)])]) := rfl
  refine ⟨hwritten, (vacant_iff_carriesNothing_iff hwritten).1.2 (.inr ⟨fun _ => ?_, fun _ => ?_⟩)⟩
  · exact ⟨_, rfl, rfl⟩
  · exact .inr (.inr (.inr ⟨_, rfl, rfl⟩))

/-- A field of the hook in which no flag lives is written, and the measured values are refused as
unset; an empty name is not written, and the measured values are valid. -/
theorem vacant_carries_note :
    (ofFlagsField .string (.string "x") none).isVacant = true ∧
      Validate.validate (ofFlagsField .string (.string "x") none) = .error (.invalid .unsetValues) ∧
      mvalShape.encodeExtended .json (ofFlagsField .string (.string "x") none) =
        .ok (.object [("flags", .object [("note", .string "x")])]) ∧
      ¬ Format.CarriesNothing .json (.object [("flags", .object [("note", .string "x")])]) ∧
      Validate.validate ({ name := some "" } : Mval) = .ok () ∧
      mvalShape.encodeExtended .json ({ name := some "" } : Mval) = .ok (.object []) := by
  have hvacant : (ofFlagsField .string (.string "x") none).isVacant = true := by decide +kernel
  refine ⟨hvacant, validate_eq_unset_iff.2 hvacant, rfl, ?_, rfl, rfl⟩
  simp [Format.CarriesNothing]

end Mval

end Rim
