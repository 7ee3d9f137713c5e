import Rim.Proofs.Basic
import Rim.Proofs.Cbor.Order
import Rim.Record.Shape
/-!
# Entries, and the records they make

A checked schema tells all fields apart by key and by name, and gives an array the keys from zero on
without a gap.  Entries of such fields make a record in either format, and the record is taken apart
into the same entries: the text form keeps their order, the map of the binary form sorts them by
key, and the array drops the keys and counts them anew.

## Main definitions

* `FieldSpec.Apart`: two fields share neither key nor name.
* `KeysFromZero`: keys that are the positions of an array.
* `Written.Fits`: entries that a layout can hold.

## Main results

* `Schema.check_eq_ok_iff`: what the check of a schema says.
* `writeAll_eq_ok_iff`: fields are written exactly if all have values and no two clash.
* `Schema.dense_byKey_iff`: fields whose keys have no gap.
* `Format.toEntries_ofEntries`: a record is taken apart into its entries, up to their order.
-/

namespace Rim

/-! ## Checked schemas -/

namespace FieldSpec

/-- Two fields share neither key nor name. -/
def Apart (a b : FieldSpec) : Prop := a.key ≠ b.key ∧ a.name ≠ b.name

theorem clashes_eq_false_iff {a b : FieldSpec} : a.clashes b = false ↔ a.Apart b := by
  simp [clashes, Apart]

theorem Apart.symm {a b : FieldSpec} (h : a.Apart b) : b.Apart a :=
  ⟨h.1.symm, h.2.symm⟩

/-- Distinct fields of a list that tells its fields apart. -/
theorem apart_of_pairwise {l : List FieldSpec} (h : l.Pairwise Apart) {a b : FieldSpec}
    (ha : a ∈ l) (hb : b ∈ l) (hne : a ≠ b) : a.Apart b := by
  have hall : ∀ ⦃x⦄, x ∈ l → ∀ ⦃y⦄, y ∈ l → x = y ∨ x.Apart y :=
    List.Pairwise.forall_of_forall_of_flip (fun _ _ => .inl rfl) (h.imp .inr)
      (h.imp fun hxy => .inr hxy.symm)
  exact (hall ha hb).resolve_left hne

theorem Apart.keyFor_ne {a b : FieldSpec} (h : a.Apart b) (f : Format) :
    f.keyFor a ≠ f.keyFor b := by
  cases f with
  | cbor => exact h.1
  | json => exact h.2

end FieldSpec

open FieldSpec (Apart)

namespace Schema

/-- No two fields clash if all of them are apart. -/
theorem firstClash?_eq_none_iff {entity : String} {seen fields : List FieldSpec} :
    firstClash? entity seen fields = none ↔
      fields.Pairwise Apart ∧ ∀ a ∈ seen, ∀ b ∈ fields, a.Apart b := by
  induction fields generalizing seen with
  | nil => simp [firstClash?]
  | cons b rest ih =>
    have hseen : (seen.find? (·.key == b.key) = none ∧ seen.any (·.name == b.name) = false) ↔
        ∀ a ∈ seen, a.Apart b := by
      rw [List.find?_eq_none, List.any_eq_false]
      simp only [beq_iff_eq, Apart]
      exact ⟨fun h a ha => ⟨h.1 a ha, h.2 a ha⟩, fun h => ⟨fun a ha => (h a ha).1,
        fun a ha => (h a ha).2⟩⟩
    have hstep : firstClash? entity seen (b :: rest) = none ↔
        (∀ a ∈ seen, a.Apart b) ∧ firstClash? entity (b :: seen) rest = none := by
      rw [← hseen, firstClash?]
      cases seen.find? (·.key == b.key) with
      | some first => simp
      | none => cases seen.any (·.name == b.name) <;> simp
    rw [hstep, ih, List.pairwise_cons]
    constructor
    · rintro ⟨hb, hrest, hall⟩
      refine ⟨⟨fun c hc => hall b List.mem_cons_self c hc, hrest⟩, ?_⟩
      intro a ha c hc
      rcases List.mem_cons.1 hc with rfl | hc
      · exact hb a ha
      · exact hall a (List.mem_cons_of_mem _ ha) c hc
    · rintro ⟨⟨hb, hrest⟩, hall⟩
      refine ⟨fun a ha => hall a ha b List.mem_cons_self, hrest, ?_⟩
      intro a ha c hc
      rcases List.mem_cons.1 ha with rfl | ha
      · exact hb c hc
      · exact hall a ha c (List.mem_cons_of_mem _ hc)

/-- The keys from a number on without a gap, none of them optional. -/
def Dense (n : Nat) : List FieldSpec → Prop
  | [] => True
  | b :: rest => b.key.toNat = n ∧ b.isOptional = false ∧ Dense (n + 1) rest

/-- An array has no gap if its fields are counted by their keys. -/
theorem firstGap?_eq_none_iff {entity : String} {n : Nat} {fields : List FieldSpec} :
    firstGap? entity n fields = none ↔ Dense n fields := by
  induction fields generalizing n with
  | nil => simp [firstGap?, Dense]
  | cons b rest ih =>
    rw [firstGap?, Dense, ← ih]
    split
    case isTrue h =>
      simp only [reduceCtorEq, false_iff]
      rintro ⟨hk, ho, -⟩
      rw [hk, ho] at h
      simp at h
    case isFalse h =>
      obtain ⟨hk, ho⟩ := not_or.1 h
      simp only [ne_eq, Decidable.not_not] at hk
      simp [hk, ho]

/-- A checked schema tells its fields apart, and an array has the keys from zero on, with no field
optional. -/
theorem check_eq_ok_iff {s : Schema FieldSpec} :
    s.check = .ok () ↔
      s.allFields.Pairwise Apart ∧ (s.layout = .array → Dense 0 (byKey s.allFields)) := by
  have hclash : firstClash? s.entity [] s.allFields = none ↔ s.allFields.Pairwise Apart := by
    rw [firstClash?_eq_none_iff]
    simp
  have hgap : firstGap? s.entity 0 (byKey s.allFields) = none ↔ Dense 0 (byKey s.allFields) :=
    firstGap?_eq_none_iff
  rw [← hclash, ← hgap]
  unfold check
  cases firstClash? s.entity [] s.allFields with
  | some e => simp
  | none =>
    cases s.layout with
    | map => simp
    | array => cases firstGap? s.entity 0 (byKey s.allFields) <;> simp

/-! ### Keys without a gap

The keys of an array are its positions, so none may be missing. -/

theorem dense_iff {n : Nat} {fields : List FieldSpec} :
    Dense n fields ↔ fields.map (·.key.toNat) = List.range' n fields.length ∧
      ∀ b ∈ fields, b.isOptional = false := by
  induction fields generalizing n with
  | nil => simp [Dense]
  | cons b rest ih =>
    rw [Dense, ih, List.map_cons, List.length_cons, List.range'_succ, List.cons.injEq,
      List.forall_mem_cons, and_and_and_comm, and_assoc]

theorem byKey_perm (fields : List FieldSpec) : (byKey fields).Perm fields :=
  List.mergeSort_perm fields _

theorem nodup_map_toNat_key {l : List FieldSpec} (h : l.Pairwise Apart) :
    (l.map (·.key.toNat)).Nodup :=
  List.pairwise_map.2 (h.imp fun hab heq => hab.1 (UInt64.toNat_inj.1 heq))

theorem ascending_byKey {l : List FieldSpec} (h : l.Pairwise Apart) :
    (byKey l).Pairwise fun a b => a.key.toNat < b.key.toNat :=
  ascending_mergeSort (nodup_map_toNat_key h)

/-- Fields in ascending order of keys do not depend on the order they come in. -/
theorem byKey_eq_of_perm {l l' : List FieldSpec} (h : l.Perm l') (hl : l.Pairwise Apart) :
    byKey l = byKey l' :=
  mergeSort_eq_of_perm h (nodup_map_toNat_key hl)

end Schema

/-- Keys that are the numbers from zero on, in any order. -/
def KeysFromZero (keys : List UInt64) : Prop :=
  ∀ k : Nat, (∃ key ∈ keys, key.toNat = k) ↔ k < keys.length

theorem KeysFromZero.map_eq_range_iff {α : Type} {key : α → UInt64} {l sorted : List α}
    (h : sorted.Perm l) (hsorted : sorted.Pairwise fun a b => (key a).toNat < (key b).toNat) :
    sorted.map (fun a => (key a).toNat) = List.range sorted.length ↔
      KeysFromZero (l.map key) := by
  rw [Rim.map_eq_range_iff hsorted, KeysFromZero]
  simp only [List.mem_map, exists_exists_and_eq_and, List.length_map, h.mem_iff, h.length_eq]

namespace Schema

/-- The keys of fields that are told apart have no gap exactly if they are the numbers from zero
on. -/
theorem dense_byKey_iff {fields : List FieldSpec} (h : fields.Pairwise Apart) :
    Dense 0 (byKey fields) ↔
      KeysFromZero (fields.map (·.key)) ∧ ∀ b ∈ fields, b.isOptional = false := by
  rw [dense_iff, ← List.range_eq_range',
    KeysFromZero.map_eq_range_iff (byKey_perm fields) (ascending_byKey h)]
  simp only [(byKey_perm fields).mem_iff]

end Schema

/-! ## Writing

What has been written stays, so every field of the rest is compared with the fields before it. -/

section Writing

variable {f : Format} {entity : String}

/-- A field to be written with a value. -/
def Put.ofEntry (e : FieldSpec × Raw f) : Put f := ⟨e.1, .ok e.2⟩

theorem Put.ofEntry_inj (e e' : FieldSpec × Raw f) (h : ofEntry e = ofEntry e') : e = e' := by
  obtain ⟨hspec, hvalue⟩ := Put.mk.inj h
  exact Prod.ext hspec (Except.ok.inj hvalue)

/-- A field is written if it has a value and is apart from those before it. -/
theorem writePut_eq_ok_iff {written w : Written f} {p : Put f} :
    writePut entity written p = .ok w ↔
      ∃ e, p = Put.ofEntry e ∧ (∀ a ∈ written, a.1.Apart e.1) ∧ w = written ++ [e] := by
  have hclash : (written.any fun a => a.1.clashes p.spec) = false ↔
      ∀ a ∈ written, a.1.Apart p.spec := by
    rw [List.any_eq_false]
    simp only [Bool.not_eq_true, FieldSpec.clashes_eq_false_iff]
  obtain ⟨spec, value⟩ := p
  have hofEntry : ∀ e : FieldSpec × Raw f, Put.mk spec value = Put.ofEntry e ↔
      spec = e.1 ∧ value = .ok e.2 := by
    intro e
    unfold Put.ofEntry
    rw [Put.mk.injEq]
  simp only [hofEntry]
  unfold writePut
  cases value with
  | error e =>
    constructor
    · intro h
      cases h
    · rintro ⟨e, ⟨-, h⟩, -⟩
      cases h
  | ok v =>
    show insertField entity written spec v = .ok w ↔ _
    unfold insertField
    constructor
    · intro h
      split at h
      · cases h
      · rename_i hany
        refine ⟨(spec, v), ⟨rfl, rfl⟩, hclash.1 (by simpa using hany), (Except.ok.inj h).symm⟩
    · rintro ⟨⟨spec', v'⟩, ⟨rfl, hv⟩, hall, rfl⟩
      obtain rfl := Except.ok.inj hv
      have hany := hclash.2 hall
      simp only at hany
      rw [hany]
      rfl

theorem writeAll_cons (written : Written f) (p : Put f) (rest : List (Put f)) :
    writeAll entity written (p :: rest) =
      (writePut entity written p).bind fun w => writeAll entity w rest := rfl

/-- Fields are written exactly if all have values, none clashes with one written before, and no two
of them clash. -/
theorem writeAll_eq_ok_iff {written w : Written f} {puts : List (Put f)} :
    writeAll entity written puts = .ok w ↔
      ∃ more, puts = more.map Put.ofEntry ∧ w = written ++ more ∧
        (∀ a ∈ written, ∀ e ∈ more, a.1.Apart e.1) ∧
        (more.map (·.1)).Pairwise FieldSpec.Apart := by
  induction puts generalizing written with
  | nil =>
    constructor
    · intro h
      obtain rfl := Except.ok.inj h
      exact ⟨[], rfl, (List.append_nil _).symm, by simp, .nil⟩
    · rintro ⟨more, hmore, rfl, -⟩
      obtain rfl := List.map_eq_nil_iff.1 hmore.symm
      rw [List.append_nil]
      rfl
  | cons p rest ih =>
    rw [writeAll_cons]
    constructor
    · intro h
      obtain ⟨w₁, hp, h⟩ := exists_of_bind_eq_ok h
      obtain ⟨e, rfl, he, rfl⟩ := writePut_eq_ok_iff.1 hp
      obtain ⟨more, rfl, rfl, hall, hmore⟩ := ih.1 h
      refine ⟨e :: more, rfl, by rw [List.append_assoc]; rfl, ?_, ?_⟩
      · intro a ha e' he'
        rcases List.mem_cons.1 he' with rfl | he'
        · exact he a ha
        · exact hall a (List.mem_append_left _ ha) e' he'
      · refine List.pairwise_cons.2 ⟨?_, hmore⟩
        intro spec hspec
        obtain ⟨e', he', rfl⟩ := List.mem_map.1 hspec
        exact hall e (by simp) e' he'
    · rintro ⟨more, hmore, rfl, hall, hpair⟩
      cases more with
      | nil => cases hmore
      | cons e more =>
        obtain ⟨rfl, rfl⟩ := List.cons.inj hmore
        obtain ⟨hhead, htail⟩ := List.pairwise_cons.1 hpair
        have hp : writePut entity written (Put.ofEntry e) = .ok (written ++ [e]) :=
          writePut_eq_ok_iff.2 ⟨e, rfl, fun a ha => hall a ha e List.mem_cons_self, rfl⟩
        rw [hp]
        refine ih.2 ⟨more, rfl, by rw [List.append_assoc]; rfl, ?_, htail⟩
        intro a ha e' he'
        rcases List.mem_append.1 ha with ha | ha
        · exact hall a ha e' (List.mem_cons_of_mem _ he')
        · obtain rfl := List.mem_singleton.1 ha
          exact hhead _ (List.mem_map_of_mem he')

end Writing

/-! ## Maps by key -/

namespace Format

theorem recordKey_toNat (k : UInt64) : recordKey (.int k.toNat) = .ok k := by
  have hbounds : 0 ≤ (k.toNat : Int) ∧ (k.toNat : Int) < 18446744073709551616 := by
    have := k.toNat_lt
    omega
  have hkey : UInt64.ofNat (k.toNat : Int).toNat = k := by
    rw [Int.toNat_natCast, UInt64.ofNat_toNat]
  simp only [recordKey, if_pos hbounds, hkey]

/-- A map under unsigned keys is taken apart into its entries. -/
theorem recordEntries_keyed (es : List (UInt64 × Cbor)) :
    recordEntries (es.map Cbor.keyed) = .ok es := by
  induction es with
  | nil => rfl
  | cons e rest ih =>
    show (do
      let key ← recordKey (.int e.1.toNat)
      let others ← recordEntries (rest.map Cbor.keyed)
      return (key, e.2) :: others) = _
    rw [recordKey_toNat, ih]
    rfl

/-! ## Arrays by position -/

theorem positioned_map_snd {n : Nat} {w : Written .cbor}
    (h : w.map (·.1.key.toNat) = List.range' n w.length) :
    positioned n (w.map (·.2)) = w.map fun e => (e.1.key, e.2) := by
  induction w generalizing n with
  | nil => rfl
  | cons e rest ih =>
    rw [List.map_cons, List.length_cons, List.range'_succ, List.cons.injEq] at h
    obtain ⟨hk, hrest⟩ := h
    rw [List.map_cons, List.map_cons, positioned, ih hrest, ← hk, UInt64.ofNat_toNat]

end Format

/-! ## Records -/

/-- Entries that a layout can hold: their fields are told apart, and an array has all positions. -/
structure Written.Fits {f : Format} (layout : Layout) (w : Written f) : Prop where
  apart : (w.map (·.1)).Pairwise FieldSpec.Apart
  dense : layout = .array → Schema.Dense 0 (Schema.byKey (w.map (·.1)))

theorem nodup_keys_of_apart {specs : List FieldSpec} (h : specs.Pairwise FieldSpec.Apart)
    (f : Format) : (specs.map f.keyFor).Nodup :=
  List.pairwise_map.2 (h.imp fun hab => hab.keyFor_ne f)

theorem nodup_map_key {w : Written .cbor} (h : (w.map (·.1)).Pairwise FieldSpec.Apart) :
    ((w.map fun e => (e.1.key, e.2)).map (·.1)).Nodup := by
  have hkeys := nodup_keys_of_apart h .cbor
  rw [List.map_map] at hkeys ⊢
  exact hkeys

namespace Format

/-- The map of a record in the binary form holds an entry for each field written, in ascending order
of keys. -/
theorem exists_ofEntries_map {w : Written .cbor} (h : (w.map (·.1)).Pairwise FieldSpec.Apart) :
    ∃ es : List (UInt64 × Cbor), ofEntries .cbor .map w = Cbor.map (es.map Cbor.keyed) ∧
      es.Perm (w.map fun e => (e.1.key, e.2)) := by
  have hof : ofEntries .cbor .map w =
      Cbor.mapOf ((w.map fun e => (e.1.key, e.2)).map Cbor.keyed) := by
    rw [List.map_map]
    rfl
  have hperm := Cbor.perm_sortEntries (w.map fun e => (e.1.key, e.2)) []
  rw [List.append_nil] at hperm
  exact ⟨_, hof.trans (Cbor.mapOf_keyed (nodup_map_key h)), hperm⟩

/-- Written fields in ascending order of keys, as an array lists them. -/
theorem ascending_written {w : Written .cbor} (h : (w.map (·.1)).Pairwise FieldSpec.Apart) :
    (w.mergeSort fun a b => a.1.key.toNat ≤ b.1.key.toNat).Pairwise
      fun a b => a.1.key.toNat < b.1.key.toNat := by
  apply ascending_mergeSort
  have hkeys := Schema.nodup_map_toNat_key h
  rwa [List.map_map] at hkeys

theorem map_key_mergeSort {w : Written .cbor} (h : (w.map (·.1)).Pairwise FieldSpec.Apart)
    (hkeys : KeysFromZero (w.map (·.1.key))) :
    (w.mergeSort fun a b => a.1.key.toNat ≤ b.1.key.toNat).map (·.1.key.toNat) =
      List.range w.length := by
  have hsorted := (KeysFromZero.map_eq_range_iff (List.mergeSort_perm w _)
    (ascending_written h)).2 hkeys
  rwa [List.length_mergeSort] at hsorted

/-- A record is taken apart into the entries it was made of; an array if their keys are its
positions.  The array drops the keys; counted from zero they are the same, as none is missing. -/
theorem toEntries_ofEntries_of_keysFromZero {f : Format} {layout : Layout} {w : Written f}
    (hapart : (w.map (·.1)).Pairwise FieldSpec.Apart)
    (hkeys : f = .cbor → layout = .array → KeysFromZero (w.map (·.1.key))) :
    ∃ es, f.toEntries layout (f.ofEntries layout w) = .ok es ∧
      es.Perm (w.map fun e => (f.keyFor e.1, e.2)) := by
  cases f with
  | json =>
    cases layout <;> exact ⟨w.map fun e => (e.1.name, e.2), rfl, .refl _⟩
  | cbor =>
    cases layout with
    | map =>
      obtain ⟨es, hes, hperm⟩ := exists_ofEntries_map hapart
      refine ⟨es, ?_, hperm⟩
      rw [hes]
      exact recordEntries_keyed es
    | array =>
      refine ⟨(w.mergeSort fun a b => a.1.key.toNat ≤ b.1.key.toNat).map
        fun e => (e.1.key, e.2), ?_, ?_⟩
      · show Except.ok (positioned 0 _) = _
        rw [positioned_map_snd]
        rw [map_key_mergeSort hapart (hkeys rfl rfl), List.length_mergeSort, List.range_eq_range']
      · exact (List.mergeSort_perm w _).map _

/-- A record is taken apart into the entries it was made of. -/
theorem toEntries_ofEntries {f : Format} {layout : Layout} {w : Written f} (h : w.Fits layout) :
    ∃ es, f.toEntries layout (f.ofEntries layout w) = .ok es ∧
      es.Perm (w.map fun e => (f.keyFor e.1, e.2)) := by
  refine toEntries_ofEntries_of_keysFromZero h.apart fun _ hlayout => ?_
  have hkeys := ((Schema.dense_byKey_iff h.apart).1 (h.dense hlayout)).1
  rwa [List.map_map] at hkeys

end Format

end Rim
