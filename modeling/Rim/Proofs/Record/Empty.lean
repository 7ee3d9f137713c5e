import Rim.Proofs.Record.Taking
/-!
# Records without entries

A record is made of the entries that its fields write, so it has none exactly if all of them are
left out.  That an entry has the key of one field excludes that another field has written it.

## Main definitions

* `Format.emptyRecord`: the record without entries.

## Main results

* `Format.ofEntries_eq_emptyRecord_iff`, `Format.exists_of_ofEntries_eq_singleton`: the entries that
  a record of no entries, or of one, is made of.
* `Member.put?_optional_eq_none_iff`, `Member.put?_defaulted_eq_none_iff`: when a field is left out.
* `RecordShape.encodeWith_eq_emptyRecord_iff`: when all are.
-/

namespace Rim

variable {f : Format}

/-! ## Records of no entries, and of one -/

/-- The record without entries. -/
def Format.emptyRecord : (f : Format) → Raw f
  | .cbor => .map []
  | .json => .object []

theorem Format.toEntries_emptyRecord : f.toEntries .map f.emptyRecord = .ok [] := by
  cases f <;> rfl

theorem Written.fits_map {w : Written f} (h : (w.map (·.1)).Pairwise FieldSpec.Apart) :
    w.Fits .map := ⟨h, fun hlayout => nomatch hlayout⟩

/-- A record is empty exactly if it is made of no entries. -/
theorem Format.ofEntries_eq_emptyRecord_iff {w : Written f}
    (h : (w.map (·.1)).Pairwise FieldSpec.Apart) :
    f.ofEntries .map w = f.emptyRecord ↔ w = [] := by
  constructor
  · intro hempty
    obtain ⟨es, hes, hperm⟩ := Format.toEntries_ofEntries (Written.fits_map h)
    rw [hempty, Format.toEntries_emptyRecord] at hes
    obtain rfl := Except.ok.inj hes
    exact List.map_eq_nil_iff.1 hperm.nil_eq.symm
  · rintro rfl
    cases f <;> rfl

/-- A record of one entry is made of no others. -/
theorem Format.exists_of_ofEntries_eq_singleton {w : Written f} {e : FieldSpec × Raw f}
    (h : (w.map (·.1)).Pairwise FieldSpec.Apart)
    (heq : f.ofEntries .map w = f.ofEntries .map [e]) :
    ∃ spec, w = [(spec, e.2)] ∧ f.keyFor spec = f.keyFor e.1 := by
  obtain ⟨es, hes, hperm⟩ := Format.toEntries_ofEntries (Written.fits_map h)
  obtain ⟨es', hes', hperm'⟩ := Format.toEntries_ofEntries (f := f) (w := [e])
    (Written.fits_map (List.pairwise_singleton _ _))
  rw [heq, hes'] at hes
  obtain rfl := Except.ok.inj hes
  have hone : [(f.keyFor e.1, e.2)].Perm (w.map fun e => (f.keyFor e.1, e.2)) :=
    hperm'.symm.trans hperm
  obtain ⟨e', rfl⟩ := List.length_eq_one_iff.1 (by simpa using hone.length_eq.symm)
  have hpair : (f.keyFor e.1, e.2) = (f.keyFor e'.1, e'.2) := List.singleton_perm_singleton.1 hone
  obtain ⟨hkey, hvalue⟩ := Prod.mk.inj hpair
  exact ⟨e'.1, by rw [hvalue], hkey.symm⟩

/-! ## Fields that are left out -/

namespace Member

variable {R α : Type} {spec : FieldSpec} {c : FieldCodec α} {r : R}

theorem put?_optional_eq_none_iff {get : R → Option α} {set : Option α → R → R}
    (hspec : spec.isOptional = true) :
    (optional spec c get set).put? f r = none ↔ ∀ a ∈ get r, c.isEmpty a = true := by
  unfold put? optional encodeUnlessEmpty
  dsimp only
  cases get r <;> simp [hspec]

theorem put?_defaulted_eq_none_iff {absent : α} {get : R → α} {set : α → R → R}
    (hspec : spec.isOptional = true) :
    (defaulted spec c absent get set).put? f r = none ↔ c.isEmpty (get r) = true := by
  unfold put? defaulted encodeUnlessEmpty
  simp [hspec]

theorem spec_of_put? {m : Member R} {p : Put f} (h : m.put? f r = some p) : p.spec = m.spec := by
  obtain ⟨coded, -, rfl⟩ := Option.map_eq_some_iff.1 h
  rfl

/-- A member under another key writes no entry under a given one, so it has to write none at all. -/
theorem forall_put?_iff_of_key_ne {m : Member R} {spec : FieldSpec} {P : Put f → Prop}
    (hkey : f.keyFor m.spec ≠ f.keyFor spec) :
    (∀ p ∈ m.put? f r, f.keyFor p.spec = f.keyFor spec ∧ P p) ↔ m.put? f r = none := by
  constructor
  · intro h
    apply Option.eq_none_iff_forall_not_mem.2
    intro p hp
    rw [← spec_of_put? hp] at hkey
    exact hkey (h p hp).1
  · intro hnone
    simp [hnone]

end Member

theorem RecordShape.forall_mem_puts_iff {R : Type} {s : RecordShape R} {r : R} {P : Put f → Prop} :
    (∀ p ∈ s.puts f r, P p) ↔ ∀ m ∈ s.members, ∀ p ∈ m.put? f r, P p := by
  simp only [puts, List.mem_filterMap, forall_exists_index, and_imp]
  exact ⟨fun h m hm p hp => h p m hm hp, fun h p m hm hp => h m hm p hp⟩

/-- A record writes nothing if none of its fields does. -/
theorem RecordShape.puts_eq_nil_iff {R : Type} {s : RecordShape R} {r : R} :
    s.puts f r = [] ↔ ∀ m ∈ s.members, m.put? f r = none :=
  List.filterMap_eq_nil_iff

/-- A record is written without entries exactly if it has no fields to write. -/
theorem RecordShape.encodeWith_eq_emptyRecord_iff {R : Type} {s : RecordShape R}
    (hlayout : s.schema.layout = .map) {r : R} {more : List (Put f)} :
    s.encodeWith f r more = .ok f.emptyRecord ↔ s.puts f r ++ more = [] := by
  unfold RecordShape.encodeWith
  rw [hlayout]
  constructor
  · intro h
    obtain ⟨w, hw, hempty⟩ := exists_of_map_eq_ok h
    obtain ⟨written, hputs, rfl, -, hapart⟩ := writeAll_eq_ok_iff.1 hw
    rw [hputs, (Format.ofEntries_eq_emptyRecord_iff hapart).1 hempty]
    rfl
  · intro h
    rw [h]
    cases f <;> rfl

end Rim
