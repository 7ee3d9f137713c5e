import Mathlib.Data.List.Nodup
import Rim.Proofs.Cbor.Keys
import Rim.Proofs.Cbor.Plain
import Rim.Proofs.Wire
/-!
# What a binary document keeps of its maps

A map of the value lists one entry for each key that its order tells apart, so entries of the
document whose keys coincide there become one.  The search for repeated keys refuses such a document
if the keys are scalar.  It does not compare composite keys, nor look into them, and it tells two
not-a-numbers apart that are written alike; entries may be lost there and nowhere else.

## Main definitions

* `Cbor.Retains`: what of an item stands in a value.
* `Cbor.RepeatsScalar`: an item has a map that repeats a scalar key.

## Main results

* `Cbor.retains_ordered`: what the ordered tree retains.
* `Cbor.ofBytes_lossless`: what the value of a document retains, and which documents are refused.
-/

namespace Rim.Cbor

/-! ## Entries of a map -/

/-- The entries whose keys are scalars. -/
def scalarEntries (es : List (Cbor × Cbor)) : List (Cbor × Cbor) :=
  es.filter (·.1.isScalar)

section ScalarEntries

variable {e : Cbor × Cbor} {es : List (Cbor × Cbor)}

/-- The entries under scalar keys are those whose keys are scalars. -/
theorem mem_scalarEntries : e ∈ scalarEntries es ↔ e ∈ es ∧ e.1.isScalar := List.mem_filter

theorem scalarEntries_cons_of_pos (he : e.1.isScalar) :
    scalarEntries (e :: es) = e :: scalarEntries es := List.filter_cons_of_pos he

theorem scalarEntries_cons_of_neg (he : ¬ e.1.isScalar) :
    scalarEntries (e :: es) = scalarEntries es := List.filter_cons_of_neg he

end ScalarEntries

section Entries

variable {key value : Cbor} {into : List (Cbor × Cbor)}

/-- An entry whose key coincides with none is added, and nothing else changes. -/
theorem insertEntry_perm (h : ∀ e ∈ into, compare key e.1 ≠ .eq) :
    (insertEntry key value into).Perm ((key, value) :: into) := by
  induction into with
  | nil => exact .refl _
  | cons e into ih =>
    obtain ⟨he, hinto⟩ := List.forall_mem_cons.1 h
    obtain ⟨k, v⟩ := e
    rw [insertEntry]
    cases hcompare : compare key k with
    | lt => exact .refl _
    | eq => exact absurd hcompare he
    | gt => exact ((ih hinto).cons (k, v)).trans (.swap _ _ _)

/-- An entry whose key is not a scalar leaves those alone whose keys are. -/
theorem scalarEntries_insertEntry (hkey : ¬ key.isScalar) :
    scalarEntries (insertEntry key value into) = scalarEntries into := by
  induction into with
  | nil => exact scalarEntries_cons_of_neg hkey
  | cons e into ih =>
    obtain ⟨k, v⟩ := e
    rw [insertEntry]
    cases hcompare : compare key k with
    | lt => exact scalarEntries_cons_of_neg hkey
    | eq =>
      have hk : ¬ k.isScalar := fun hk =>
        hkey (eq_of_compare_eq hk (compare_eq_eq_comm.1 hcompare) ▸ hk)
      exact (scalarEntries_cons_of_neg hk).trans (scalarEntries_cons_of_neg hk).symm
    | gt =>
      show scalarEntries ((k, v) :: insertEntry key value into) = _
      by_cases hk : k.isScalar
      · rw [scalarEntries_cons_of_pos hk, scalarEntries_cons_of_pos hk, ih]
      · rw [scalarEntries_cons_of_neg hk, scalarEntries_cons_of_neg hk, ih]

/-- If no two keys coincide, the map has exactly the entries put into it. -/
theorem insertEntries_perm {es : List (Cbor × Cbor)}
    (hes : es.Pairwise fun d e => compare d.1 e.1 ≠ .eq)
    (hinto : ∀ e ∈ into, ∀ d ∈ es, compare d.1 e.1 ≠ .eq) :
    (insertEntries es into).Perm (es ++ into) := by
  induction es generalizing into with
  | nil => exact .refl _
  | cons e es ih =>
    obtain ⟨he, hes⟩ := List.pairwise_cons.1 hes
    have hperm : (insertEntry e.1 e.2 into).Perm (e :: into) :=
      insertEntry_perm fun d hd => hinto d hd e List.mem_cons_self
    refine (ih hes fun d hd d' hd' => ?_).trans ?_
    · rcases List.mem_cons.1 (hperm.mem_iff.1 hd) with rfl | hd
      · exact fun heq => he d' hd' (compare_eq_eq_comm.1 heq)
      · exact hinto d hd d' (List.mem_cons_of_mem _ hd')
    · exact (hperm.append_left es).trans List.perm_middle

/-- Sorting entries loses none of them. -/
theorem insertEntries_nil_perm {es : List (Cbor × Cbor)}
    (hes : es.Pairwise fun d e => compare d.1 e.1 ≠ .eq) : (insertEntries es []).Perm es := by
  have hperm : (insertEntries es []).Perm (es ++ []) :=
    insertEntries_perm hes fun e he => nomatch he
  rwa [List.append_nil] at hperm

/-- If no two scalar keys are the same, the map has exactly the entries with scalar keys that are
put into it. -/
theorem scalarEntries_insertEntries_perm {es : List (Cbor × Cbor)}
    (h : ((scalarEntries (es ++ into)).map (·.1)).Nodup) :
    (scalarEntries (insertEntries es into)).Perm (scalarEntries (es ++ into)) := by
  induction es generalizing into with
  | nil => exact .refl _
  | cons e es ih =>
    have hstep : (scalarEntries (es ++ insertEntry e.1 e.2 into)).Perm
        (scalarEntries (e :: es ++ into)) := by
      by_cases he : e.1.isScalar
      · -- A scalar key that coincided with one there would be that key.
        have hnew : ∀ d ∈ into, compare e.1 d.1 ≠ .eq := by
          intro d hd hcompare
          have heq := eq_of_compare_eq he hcompare
          have hmem : d ∈ scalarEntries (es ++ into) :=
            mem_scalarEntries.2 ⟨List.mem_append_right es hd, heq ▸ he⟩
          rw [List.cons_append, scalarEntries_cons_of_pos he, List.map_cons, List.nodup_cons] at h
          exact h.1 (heq ▸ List.mem_map_of_mem hmem)
        exact (((insertEntry_perm hnew).append_left es).trans List.perm_middle).filter _
      · rw [List.cons_append, scalarEntries_cons_of_neg he, scalarEntries, List.filter_append,
          scalarEntries, List.filter_append]
        exact .of_eq (congrArg _ (scalarEntries_insertEntry he))
    exact (ih ((hstep.map _).nodup_iff.2 h)).trans hstep

theorem scalarEntries_insertEntries_nil_perm {es : List (Cbor × Cbor)}
    (h : ((scalarEntries es).map (·.1)).Nodup) :
    (scalarEntries (insertEntries es [])).Perm (scalarEntries es) := by
  rw [← List.append_nil es] at h
  have hperm := scalarEntries_insertEntries_perm h
  rwa [List.append_nil] at hperm

end Entries

/-! ## What stays of an item -/

mutual

/-- What of an item stands in a value.  A map keeps all its entries if no two of its keys coincide,
and where repeated keys are searched for it keeps those with scalar keys in any case. -/
inductive Retains : Bool → Cbor → Cbor → Prop where
  | plain {searched : Bool} {x : Cbor} (h : x.depth = 0) : Retains searched x x
  | array {searched : Bool} {items values : List Cbor} (h : RetainsItems searched items values) :
    Retains searched (.array items) (.array values)
  | map {searched : Bool} {entries values kept : List (Cbor × Cbor)}
    (h : RetainsEntries searched entries values)
    (all : (values.Pairwise fun d e => compare d.1 e.1 ≠ .eq) → kept.Perm values)
    (scalars : searched → (scalarEntries kept).Perm (scalarEntries values)) :
    Retains searched (.map entries) (.map kept)
  | tag {searched : Bool} {n : UInt64} {content value : Cbor} (h : Retains searched content value) :
    Retains searched (.tag n content) (.tag n value)

/-- What of items stands in values, one by one. -/
inductive RetainsItems : Bool → List Cbor → List Cbor → Prop where
  | nil {searched : Bool} : RetainsItems searched [] []
  | cons {searched : Bool} {x v : Cbor} {items values : List Cbor} (first : Retains searched x v)
    (others : RetainsItems searched items values) :
    RetainsItems searched (x :: items) (v :: values)

/-- What of keys and values stands in those of a value, one by one.  Keys are not searched. -/
inductive RetainsEntries : Bool → List (Cbor × Cbor) → List (Cbor × Cbor) → Prop where
  | nil {searched : Bool} : RetainsEntries searched [] []
  | cons {searched : Bool} {key key' value value' : Cbor} {entries values : List (Cbor × Cbor)}
    (first : Retains false key key') (second : Retains searched value value')
    (others : RetainsEntries searched entries values) :
    RetainsEntries searched ((key, value) :: entries) ((key', value') :: values)

end

/-! ## What the ordered tree retains -/

/-- Ordering a key leaves a scalar a scalar. -/
theorem isScalar_ordered (x : Cbor) : x.ordered.isScalar = x.isScalar := by
  cases x <;> rfl

/-- A scalar is in order already. -/
theorem ordered_of_isScalar {x : Cbor} (h : x.isScalar) : x.ordered = x := by
  cases x with
  | array _ | map _ | tag _ _ => cases h
  | null | bool _ | int _ | float _ | bytes _ | text _ => rfl

/-- A scalar has a label to compare it by. -/
theorem exists_label_of_isScalar {x : Cbor} (h : x.isScalar) : ∃ l, x.label? = some l := by
  cases x with
  | array _ | map _ | tag _ _ => cases h
  | null | bool _ | int _ | float _ | bytes _ | text _ => exact ⟨_, rfl⟩

theorem orderedEntries_eq_map (entries : List (Cbor × Cbor)) :
    orderedEntries entries = entries.map fun e => (e.1.ordered, e.2.ordered) := by
  induction entries with
  | nil => rfl
  | cons e entries ih => exact congrArg _ ih

/-- Distinct labels make distinct scalar keys. -/
theorem nodup_scalarEntries_ordered {entries : List (Cbor × Cbor)}
    (h : (entries.filterMap (·.1.label?)).Nodup) :
    ((scalarEntries (orderedEntries entries)).map (·.1)).Nodup := by
  induction entries with
  | nil => exact List.nodup_nil
  | cons e entries ih =>
    have hrest : (entries.filterMap (·.1.label?)).Nodup :=
      h.sublist ((List.sublist_cons_self e entries).filterMap _)
    show ((scalarEntries ((e.1.ordered, e.2.ordered) :: orderedEntries entries)).map (·.1)).Nodup
    by_cases he : e.1.isScalar
    · have hfirst : e.1.ordered.isScalar := (isScalar_ordered e.1).trans he
      rw [scalarEntries_cons_of_pos hfirst, List.map_cons, List.nodup_cons]
      refine ⟨fun hmem => ?_, ih hrest⟩
      obtain ⟨d, hd, hkey⟩ := List.mem_map.1 hmem
      obtain ⟨hd, hscalar⟩ := mem_scalarEntries.1 hd
      rw [orderedEntries_eq_map] at hd
      obtain ⟨e', he', rfl⟩ := List.mem_map.1 hd
      have hscalar : e'.1.isScalar := (isScalar_ordered e'.1).symm.trans hscalar
      have hsame : e'.1 = e.1 := by
        rw [← ordered_of_isScalar he, ← ordered_of_isScalar hscalar]
        exact hkey
      obtain ⟨l, hl⟩ := exists_label_of_isScalar he
      have hcons : (e :: entries).filterMap (·.1.label?) =
          l :: entries.filterMap (·.1.label?) := List.filterMap_cons_some hl
      rw [hcons, List.nodup_cons] at h
      exact h.1 (List.mem_filterMap.2 ⟨e', he', hsame ▸ hl⟩)
    · rw [scalarEntries_cons_of_neg (isScalar_ordered e.1 ▸ he)]
      exact ih hrest

mutual

/-- The ordered tree retains what is to be retained, provided that no map repeats a label where the
document is searched for repeated keys. -/
theorem retains_ordered {searched : Bool} :
    ∀ x : Cbor, (searched → x.IsDistinct) → Retains searched x x.ordered
  | .array items, h => by
    refine .array (retains_orderedItems items fun hs x hx entries hmap => ?_)
    exact h hs entries (.item hx hmap)
  | .map entries, h => by
    refine .map (retains_orderedEntries entries fun hs e he entries' hmap => ?_) ?_ fun hs => ?_
    · exact h hs entries' (.value he hmap)
    · exact insertEntries_nil_perm
    · exact scalarEntries_insertEntries_nil_perm (nodup_scalarEntries_ordered (h hs entries .here))
  | .tag n content, h => .tag (retains_ordered content fun hs entries hmap =>
      h hs entries (.content hmap))
  | .null, _ | .bool _, _ | .int _, _ | .float _, _ | .bytes _, _ | .text _, _ => .plain rfl

theorem retains_orderedItems {searched : Bool} :
    ∀ items : List Cbor, (searched → ∀ x ∈ items, x.IsDistinct) →
      RetainsItems searched items (orderedItems items)
  | [], _ => .nil
  | x :: items, h => .cons (retains_ordered x fun hs => h hs x List.mem_cons_self)
      (retains_orderedItems items fun hs y hy => h hs y (List.mem_cons_of_mem x hy))

theorem retains_orderedEntries {searched : Bool} :
    ∀ entries : List (Cbor × Cbor), (searched → ∀ e ∈ entries, e.2.IsDistinct) →
      RetainsEntries searched entries (orderedEntries entries)
  | [], _ => .nil
  | (key, value) :: entries, h =>
    .cons (retains_ordered key fun hs => nomatch hs)
      (retains_ordered value fun hs => h hs _ List.mem_cons_self)
      (retains_orderedEntries entries fun hs e he => h hs e (List.mem_cons_of_mem _ he))

end

/-- Two entries of one map, at any depth outside keys, whose scalar keys are the same. -/
def RepeatsScalar (x : Cbor) : Prop :=
  ∃ entries d e, HasMap entries x ∧ [d, e].Sublist entries ∧ d.1.isScalar ∧
    compare d.1 e.1 = .eq

/-- A value that repeats a scalar key is not distinct. -/
theorem not_isDistinct_of_repeatsScalar {x : Cbor} (h : x.RepeatsScalar) : ¬ x.IsDistinct := by
  obtain ⟨entries, d, e, hmap, hsub, hd, hcompare⟩ := h
  intro hdistinct
  have heq := eq_of_compare_eq hd hcompare
  obtain ⟨l, hl⟩ := exists_label_of_isScalar hd
  have hnodup := (hdistinct entries hmap).sublist (hsub.filterMap _)
  have hl' : e.1.label? = some l := heq ▸ hl
  simp [hl, hl'] at hnodup

/-! ## Documents -/

/-- The value of a binary document retains what stands in the item that the document is, whose maps
lose entries only where composite keys or not-a-numbers coincide, or within keys.  A document of
sufficient limit and depth that repeats a scalar key in one map is refused. -/
theorem ofBytes_lossless (limit : Nat) (bytes : List UInt8) :
    (∀ v, ofBytes limit bytes = .ok v →
      (∃ x, Item x bytes []) ∧ ∀ x, Item x bytes [] → Retains true x v) ∧
    ∀ x, Item x bytes [] → x.depth ≤ nestingBudget → bytes.length ≤ limit → x.RepeatsScalar →
      ∃ key, ofBytes limit bytes = .error (.repeatedKey key) := by
  refine ⟨fun v h => ?_, fun x hitem hdepth hlimit hrepeats => ?_⟩
  · obtain ⟨x, ⟨hitem, -⟩, hdistinct, rfl⟩ := (classified_ofBytes limit bytes).holds v h
    refine ⟨⟨x, hitem⟩, fun y hy => ?_⟩
    obtain rfl := (hy.unique hitem).1
    exact retains_ordered y fun _ => hdistinct
  · apply (classified_ofBytes limit bytes).repeated.2
    exact ⟨hlimit, x, ⟨hitem, hdepth⟩, not_isDistinct_of_repeatsScalar hrepeats⟩

/-- A map with a composite key and one with a repeated integer key. -/
theorem ofBytes_lossless_nested :
    (∀ x, Item x [0xa2, 0x81, 0x01, 0x01, 0x02, 0x81, 0xa1, 0x03, 0xf6] [] →
      Retains true x
        (.map [(.int 2, .array [.map [(.int 3, .null)]]), (.array [.int 1], .int 1)])) ∧
    ∃ key, ofBytes 100 [0xc1, 0xa2, 0x01, 0x02, 0x18, 0x01, 0x03] = .error (.repeatedKey key) :=
  ⟨((ofBytes_lossless 100 _).1 _ rfl).2,
    (ofBytes_lossless 100 _).2 (.tag 1 (.map [(.int 1, .int 2), (.int 1, .int 3)]))
      (parse?_eq_some_iff.1 rfl).1 (by decide) (by decide)
      ⟨_, (.int 1, .int 2), (.int 1, .int 3), .content .here, .refl _, rfl, rfl⟩⟩

/-- Two entries under the same array become one. -/
theorem ofBytes_composite_keys_collapse :
    ∃ entries kept, Item (.map entries) [0xa2, 0x81, 0x01, 0x01, 0x81, 0x01, 0x02] [] ∧
      ofBytes 100 [0xa2, 0x81, 0x01, 0x01, 0x81, 0x01, 0x02] = .ok (.map kept) ∧
      kept.length < entries.length :=
  ⟨[(.array [.int 1], .int 1), (.array [.int 1], .int 2)], [(.array [.int 1], .int 2)],
    (parse?_eq_some_iff.1 rfl).1, rfl, by decide⟩

end Rim.Cbor
