import Rim.Proofs.Cbor.Lossless
/-!
# The canonical order of maps

The entries of an ordered tree ascend in the order of keys, whatever order they were written in.  An
item whose keys are distinct scalars is its ordered tree up to the order of entries.

## Main definitions

* `Cbor.Ascending`: entries in ascending order of their keys.
* `Cbor.Reordered`: a value is an item whose maps have been put in ascending order.

## Main results

* `Cbor.ascending_insertEntries`: entries are kept in ascending order.
* `Cbor.reordered_ordered`: what the ordered tree of an item with scalar keys is.
-/

namespace Rim.Cbor

/-! ## Ascending entries -/

/-- Entries in ascending order of their keys. -/
def Ascending (es : List (Cbor × Cbor)) : Prop :=
  es.Pairwise fun d e => compare d.1 e.1 = .lt

section Ascending

variable {key value : Cbor} {es into : List (Cbor × Cbor)}

/-- Inserting an entry brings in no key but its own. -/
theorem key_of_mem_insertEntry {e : Cbor × Cbor} (he : e ∈ insertEntry key value es) :
    e.1 = key ∨ ∃ d ∈ es, d.1 = e.1 := by
  induction es with
  | nil => exact .inl (congrArg Prod.fst (List.mem_singleton.1 he))
  | cons d es ih =>
    obtain ⟨k, v⟩ := d
    rw [insertEntry] at he
    cases hcompare : compare key k with
    | lt =>
      rw [hcompare] at he
      rcases List.mem_cons.1 he with rfl | he
      · exact .inl rfl
      · exact .inr ⟨e, he, rfl⟩
    | eq =>
      rw [hcompare] at he
      rcases List.mem_cons.1 he with rfl | he
      · exact .inr ⟨(k, v), List.mem_cons_self, rfl⟩
      · exact .inr ⟨e, List.mem_cons_of_mem _ he, rfl⟩
    | gt =>
      rw [hcompare] at he
      rcases List.mem_cons.1 he with rfl | he
      · exact .inr ⟨(k, v), List.mem_cons_self, rfl⟩
      · rcases ih he with heq | ⟨d, hd, heq⟩
        · exact .inl heq
        · exact .inr ⟨d, List.mem_cons_of_mem _ hd, heq⟩

/-- Keys stay in ascending order when an entry is inserted. -/
theorem Ascending.insertEntry (h : Ascending es) : Ascending (insertEntry key value es) := by
  induction es with
  | nil => exact List.pairwise_singleton _ _
  | cons d es ih =>
    obtain ⟨k, v⟩ := d
    obtain ⟨hfirst, hrest⟩ := List.pairwise_cons.1 h
    rw [Cbor.insertEntry]
    cases hcompare : compare key k with
    | lt =>
      refine List.pairwise_cons.2 ⟨fun e he => ?_, h⟩
      rcases List.mem_cons.1 he with rfl | he
      · exact hcompare
      · exact compare_lt_trans hcompare (hfirst e he)
    | eq => exact List.pairwise_cons.2 ⟨hfirst, hrest⟩
    | gt =>
      refine List.pairwise_cons.2 ⟨fun e he => ?_, ih hrest⟩
      rcases key_of_mem_insertEntry he with heq | ⟨d, hd, heq⟩
      · rw [heq]
        exact compare_gt hcompare
      · rw [← heq]
        exact hfirst d hd

/-- Entries are kept in ascending order, whatever order they come in. -/
theorem ascending_insertEntries (es : List (Cbor × Cbor)) (h : Ascending into) :
    Ascending (insertEntries es into) := by
  induction es generalizing into with
  | nil => exact h
  | cons e es ih => exact ih h.insertEntry

end Ascending

/-! ## Items up to the order of entries -/

mutual

/-- A value is an item whose maps have been put in ascending order. -/
inductive Reordered : Cbor → Cbor → Prop where
  | plain {x : Cbor} (h : x.depth = 0) : Reordered x x
  | array {items values : List Cbor} (h : ReorderedItems items values) :
    Reordered (.array items) (.array values)
  | map {entries values kept : List (Cbor × Cbor)} (h : ReorderedEntries entries values)
    (perm : kept.Perm values) (ascending : Ascending kept) : Reordered (.map entries) (.map kept)
  | tag {n : UInt64} {content value : Cbor} (h : Reordered content value) :
    Reordered (.tag n content) (.tag n value)

/-- Values are items whose maps have been put in ascending order, one by one. -/
inductive ReorderedItems : List Cbor → List Cbor → Prop where
  | nil : ReorderedItems [] []
  | cons {x v : Cbor} {items values : List Cbor} (first : Reordered x v)
    (others : ReorderedItems items values) : ReorderedItems (x :: items) (v :: values)

/-- Values under the same keys are such, one by one. -/
inductive ReorderedEntries : List (Cbor × Cbor) → List (Cbor × Cbor) → Prop where
  | nil : ReorderedEntries [] []
  | cons {key x v : Cbor} {entries values : List (Cbor × Cbor)} (first : Reordered x v)
    (others : ReorderedEntries entries values) :
    ReorderedEntries ((key, x) :: entries) ((key, v) :: values)

end

/-- All keys of an item are scalars. -/
def HasScalarKeys (x : Cbor) : Prop :=
  ∀ entries, HasMap entries x → ∀ e ∈ entries, e.1.isScalar

/-- Distinct scalar keys do not coincide. -/
theorem pairwise_compare_ne {es : List (Cbor × Cbor)} (hscalars : ∀ e ∈ es, e.1.isScalar)
    (hnodup : ((scalarEntries es).map (·.1)).Nodup) :
    es.Pairwise fun d e => compare d.1 e.1 ≠ .eq := by
  have hall : scalarEntries es = es := List.filter_eq_self.2 hscalars
  rw [hall] at hnodup
  refine (List.pairwise_map.1 hnodup).imp_of_mem fun {d e} hd _ hne hcompare => ?_
  exact hne (eq_of_compare_eq (hscalars d hd) hcompare)

mutual

/-- The ordered tree of an item whose keys are distinct scalars. -/
theorem reordered_ordered :
    ∀ x : Cbor, x.HasScalarKeys → x.IsDistinct → Reordered x x.ordered
  | .array items, hscalars, hdistinct => by
    refine .array (reordered_orderedItems items ?_ ?_)
    · exact fun x hx entries hmap => hscalars entries (.item hx hmap)
    · exact fun x hx entries hmap => hdistinct entries (.item hx hmap)
  | .map entries, hscalars, hdistinct => by
    have hkeys : ∀ e ∈ orderedEntries entries, e.1.isScalar := by
      rw [orderedEntries_eq_map]
      intro e he
      obtain ⟨d, hd, rfl⟩ := List.mem_map.1 he
      exact (isScalar_ordered d.1).trans (hscalars entries .here d hd)
    have hnodup := nodup_scalarEntries_ordered (hdistinct entries .here)
    have hperm := insertEntries_nil_perm (pairwise_compare_ne hkeys hnodup)
    refine .map (reordered_orderedEntries entries (hscalars entries .here) ?_ ?_) hperm
      (ascending_insertEntries _ List.Pairwise.nil)
    · exact fun e he entries' hmap => hscalars entries' (.value he hmap)
    · exact fun e he entries' hmap => hdistinct entries' (.value he hmap)
  | .tag n content, hscalars, hdistinct =>
    .tag (reordered_ordered content (fun entries hmap => hscalars entries (.content hmap))
      fun entries hmap => hdistinct entries (.content hmap))
  | .null, _, _ | .bool _, _, _ | .int _, _, _ | .float _, _, _ | .bytes _, _, _ | .text _, _, _ =>
    .plain rfl

theorem reordered_orderedItems :
    ∀ items : List Cbor, (∀ x ∈ items, x.HasScalarKeys) → (∀ x ∈ items, x.IsDistinct) →
      ReorderedItems items (orderedItems items)
  | [], _, _ => .nil
  | x :: items, hscalars, hdistinct => by
    obtain ⟨hx, hitems⟩ := List.forall_mem_cons.1 hscalars
    obtain ⟨hx', hitems'⟩ := List.forall_mem_cons.1 hdistinct
    exact .cons (reordered_ordered x hx hx') (reordered_orderedItems items hitems hitems')

theorem reordered_orderedEntries :
    ∀ entries : List (Cbor × Cbor), (∀ e ∈ entries, e.1.isScalar) →
      (∀ e ∈ entries, e.2.HasScalarKeys) → (∀ e ∈ entries, e.2.IsDistinct) →
      ReorderedEntries entries (orderedEntries entries)
  | [], _, _, _ => .nil
  | (key, value) :: entries, hkeys, hscalars, hdistinct => by
    obtain ⟨hkey, hkeys⟩ := List.forall_mem_cons.1 hkeys
    obtain ⟨hvalue, hentries⟩ := List.forall_mem_cons.1 hscalars
    obtain ⟨hvalue', hentries'⟩ := List.forall_mem_cons.1 hdistinct
    rw [orderedEntries, ordered_of_isScalar hkey]
    exact .cons (reordered_ordered value hvalue hvalue')
      (reordered_orderedEntries entries hkeys hentries hentries')

end

end Rim.Cbor
