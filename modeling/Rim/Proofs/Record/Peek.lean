import Rim.Proofs.Record.Reading
import Rim.Record.Corim
/-!
# Fields read on their own

A field that is read without decoding the others is found where taking all of them would find it.
The profile of a manifest is such a field, and no hook is needed to read it, so it is the same
whether it is read on its own or with the rest.

## Main results

* `Format.entry_eq_get?`: looking a field up in a raw value and among its entries is the same.
* `Corim.profile_of_takeAll`: reading all fields finds the profile that is read on its own.
* `Corim.declaredProfile_of_decodeAttached`: a manifest that is read holds the profile that was
  read on its own.
-/

namespace Rim

namespace Format

theorem recordKey_eq_ok {k : Cbor} {key : UInt64} (h : recordKey k = .ok key) :
    k = .int key.toNat := by
  cases k with
  | int v =>
    by_cases hv : 0 ≤ v ∧ v < 18446744073709551616
    · rw [recordKey, if_pos hv] at h
      obtain rfl := Except.ok.inj h
      rw [UInt64.toNat_ofNat', Nat.mod_eq_of_lt (by omega), Int.toNat_of_nonneg hv.1]
    · rw [recordKey, if_neg hv] at h
      cases h
  | null | bool _ | float _ | bytes _ | text _ | array _ | map _ | tag _ _ => cases h

theorem findKey?_eq_find? {entries : List (Cbor × Cbor)} {es : List (UInt64 × Cbor)}
    (h : recordEntries entries = .ok es) (key : UInt64) :
    findKey? key entries = (es.find? fun e => e.1 = key).map (·.2) := by
  induction entries generalizing es with
  | nil =>
    obtain rfl := Except.ok.inj h
    rfl
  | cons entry rest ih =>
    obtain ⟨k, value⟩ := entry
    rw [recordEntries] at h
    obtain ⟨first, hk, h⟩ := exists_of_bind_eq_ok h
    obtain ⟨others, hr, h⟩ := exists_of_bind_eq_ok h
    obtain rfl := Except.ok.inj h
    obtain rfl := recordKey_eq_ok hk
    rw [findKey?, List.find?_cons, ih hr]
    by_cases hkey : first = key
    · rw [if_pos (by rw [hkey]), decide_eq_true hkey]
      rfl
    · have hne : ¬ (first.toNat : Int) = key.toNat := by
        intro heq
        exact hkey (UInt64.toNat_inj.1 (Int.ofNat.inj heq))
      rw [if_neg hne, decide_eq_false hkey]

theorem find?_eq_find? (name : String) (members : List (String × Json)) :
    Json.find? name members = (members.find? fun e => e.1 = name).map (·.2) := by
  induction members with
  | nil => rfl
  | cons e rest ih =>
    rw [Json.find?, List.find?_cons, ih]
    by_cases hname : e.1 = name
    · rw [if_pos hname, decide_eq_true hname]
      rfl
    · rw [if_neg hname, decide_eq_false hname]

/-- Looking a field up in a raw value and among its entries is the same. -/
theorem entry_eq_get? {f : Format} {v : Raw f} {es : Entries f}
    (h : f.toEntries .map v = .ok es) (spec : FieldSpec) :
    f.entry? v spec = Entries.get? es spec := by
  cases f with
  | json =>
    cases v with
    | object members =>
      obtain rfl := Except.ok.inj h
      exact find?_eq_find? spec.name members
    | null | bool _ | int _ | float _ | string _ | array _ => cases h
  | cbor =>
    cases v with
    | map entries => exact findKey?_eq_find? h spec.key
    | null | bool _ | int _ | float _ | bytes _ | text _ | array _ | tag _ _ => cases h

end Format

section Profile

variable {f : Format} {cx cx' : Context} {d d' : Corim} {entries left : Entries f}

/-- Neither the fields before the profile nor those after it get in its way. -/
theorem Corim.profile_of_takeAll
    (h : takeAll cx corimShape.members d entries = .ok (d', left)) :
    Member.decodeClaimed (.choice .profileId) profileField f cx (entries.get? profileField) =
      .ok d'.profile := by
  have hid : f.keyFor profileField ≠ f.keyFor (.required "corim-id" 0) := by
    cases f <;> decide
  have htags : f.keyFor profileField ≠ f.keyFor (.required "tags" 1) := by
    cases f <;> decide
  obtain ⟨d₁, -, h⟩ := takeAll_cons_eq_ok_iff.1 h
  obtain ⟨d₂, -, h⟩ := takeAll_cons_eq_ok_iff.1 h
  obtain ⟨d₃, hprofile, h⟩ := takeAll_cons_eq_ok_iff.1 h
  obtain ⟨d₄, hentities, h⟩ := takeAll_cons_eq_ok_iff.1 h
  obtain ⟨profile, hclaimed, rfl⟩ := Member.decode_optional_eq_ok_iff.1 hprofile
  obtain ⟨entities, -, rfl⟩ := Member.decode_defaulted_eq_ok_iff.1 hentities
  obtain ⟨rfl, -⟩ := Prod.mk.inj (Except.ok.inj h)
  have hentry : Entries.get? ((entries.without (.required "corim-id" 0)).without
      (.required "tags" 1)) profileField = entries.get? profileField := by
    rw [Entries.get?_without htags, Entries.get?_without hid]
  rw [← hentry]
  exact hclaimed

/-- A manifest that is read holds the profile that is found before reading it.  A profile is read
without hooks, so the contexts make no difference. -/
theorem Corim.declaredProfile_of_decodeAttached (hcatalogs : cx'.catalogs = cx.catalogs)
    {v : Raw f} (hread : corimShape.decodeAttached f cx d v = .ok d') :
    declaredProfile f cx' v = .ok d'.profile := by
  obtain ⟨entries, r, left, slot, hentries, htake, -, rfl⟩ :=
    RecordShape.decodeAttached_eq_ok_iff.1 hread
  have hpeek : declaredProfile f cx' v =
      Member.decodeClaimed (.choice .profileId) profileField f cx
        (Entries.get? entries profileField) := by
    obtain ⟨catalogs, hooks⟩ := cx
    obtain ⟨catalogs', hooks'⟩ := cx'
    obtain rfl : catalogs' = catalogs := hcatalogs
    rw [← Format.entry_eq_get? hentries]
    rfl
  rw [hpeek, profile_of_takeAll htake]
  rfl

end Profile

end Rim
