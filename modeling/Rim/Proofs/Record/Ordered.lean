import Mathlib.Data.List.Forall2
import Rim.Proofs.Cbor.Lossless
import Rim.Proofs.Cbor.Shuffled
import Rim.Proofs.Record.Acceptance
/-!
# Ordered trees of shuffled items

The ordered tree of an item hardly depends on the order in which its entries are written, but it may
do: entries whose composite keys coincide become one, and which of them is kept is a matter of their
order.  A map with such keys is no record, whatever else is in it, and the entries under integers,
which a record is read by, are kept as they are.

## Main definitions

* `Cbor.HasRecordKeys`: all keys of a map are those of fields.
* `Cbor.Like`: nothing tells two items apart that are looked into by key and by position.

## Main results

* `Cbor.findKey?_perm`: the order of entries makes no difference to what is found under an integer.
* `Cbor.Shuffled.like`: looking into an ordered tree does not tell the order it was written in.
-/

namespace Rim.Cbor

open Format (findKey? IsRecordKey)

/-! ## Looking into maps

A record is looked into by the integers that are the keys of its fields. -/

/-- All keys of a map are those of fields. -/
def HasRecordKeys (es : List (Cbor × Cbor)) : Prop := ∀ e ∈ es, IsRecordKey e.1

theorem isScalar_of_isRecordKey {x : Cbor} (h : IsRecordKey x) : x.isScalar := by
  obtain ⟨n, rfl⟩ := h
  rfl

section Entries

variable {es es' : List (Cbor × Cbor)} (n : UInt64)

theorem findKey?_cons_of_eq (v : Cbor) (rest : List (Cbor × Cbor)) :
    findKey? n ((.int n.toNat, v) :: rest) = some v := by
  rw [findKey?, if_pos rfl]

theorem findKey?_cons_of_ne {k : Cbor} (hk : k ≠ .int n.toNat) (v : Cbor)
    (rest : List (Cbor × Cbor)) : findKey? n ((k, v) :: rest) = findKey? n rest := by
  cases k with
  | int i => rw [findKey?, if_neg fun h => hk (congrArg int h)]
  | null | bool _ | float _ | bytes _ | text _ | array _ | map _ | tag _ _ =>
    rw [findKey?]
    intro i w h
    cases h

/-- Where keys are distinct, what is found under one is its entry. -/
theorem findKey?_eq_some_iff (hnodup : (es.map (·.1)).Nodup) {v : Cbor} :
    findKey? n es = some v ↔ (.int n.toNat, v) ∈ es := by
  induction es with
  | nil => exact ⟨nofun, nofun⟩
  | cons e rest ih =>
    obtain ⟨k, w⟩ := e
    rw [List.map_cons, List.nodup_cons] at hnodup
    by_cases hk : k = .int n.toNat
    · subst hk
      rw [findKey?_cons_of_eq, Option.some.injEq, List.mem_cons, Prod.mk.injEq]
      constructor
      · exact fun h => .inl ⟨rfl, h.symm⟩
      · rintro (⟨-, h⟩ | h)
        · exact h.symm
        · exact absurd (List.mem_map_of_mem (f := (·.1)) h) hnodup.1
    · rw [findKey?_cons_of_ne n hk, ih hnodup.2, List.mem_cons, Prod.mk.injEq]
      exact ⟨.inr, fun h => h.resolve_left fun h => hk h.1.symm⟩

theorem findKey?_scalarEntries : findKey? n (scalarEntries es) = findKey? n es := by
  induction es with
  | nil => rfl
  | cons e rest ih =>
    obtain ⟨k, v⟩ := e
    by_cases hk : k.isScalar
    · rw [scalarEntries_cons_of_pos hk]
      by_cases heq : k = .int n.toNat
      · subst heq
        rw [findKey?_cons_of_eq, findKey?_cons_of_eq]
      · rw [findKey?_cons_of_ne n heq, findKey?_cons_of_ne n heq, ih]
    · have hne : k ≠ .int n.toNat := by
        rintro rfl
        exact hk rfl
      rw [scalarEntries_cons_of_neg hk, findKey?_cons_of_ne n hne, ih]

/-- What is found under an integer depends on the entries with scalar keys, in no order. -/
theorem findKey?_perm (hnodup : ((scalarEntries es).map (·.1)).Nodup)
    (hperm : (scalarEntries es').Perm (scalarEntries es)) : findKey? n es' = findKey? n es := by
  have hnodup' := (hperm.map (·.1)).nodup_iff.2 hnodup
  have hsame : findKey? n (scalarEntries es') = findKey? n (scalarEntries es) := by
    ext v
    rw [findKey?_eq_some_iff n hnodup, findKey?_eq_some_iff n hnodup', hperm.mem_iff]
  rwa [findKey?_scalarEntries, findKey?_scalarEntries] at hsame

end Entries

/-! ### Ordered maps

Entries whose keys are not scalar may become one, but some entry of that sort remains. -/

section Kept

variable {key value : Cbor} {es into : List (Cbor × Cbor)}

/-- Inserting an entry leaves whether some key is no scalar. -/
theorem any_insertEntry : (insertEntry key value into).any (!·.1.isScalar) =
    (!key.isScalar || into.any (!·.1.isScalar)) := by
  induction into with
  | nil => rfl
  | cons e rest ih =>
    obtain ⟨k, v⟩ := e
    rw [insertEntry]
    cases hcompare : compare key k with
    | lt => rfl
    | eq =>
      have hsame : key.isScalar = k.isScalar := by
        rw [Bool.eq_iff_iff]
        constructor
        · intro h
          rw [← eq_of_compare_eq h hcompare, h]
        · intro h
          rw [← eq_of_compare_eq h (compare_eq_eq_comm.1 hcompare), h]
      rw [List.any_cons, List.any_cons, hsame, ← Bool.or_assoc, Bool.or_self]
    | gt =>
      rw [List.any_cons, List.any_cons, ih, Bool.or_left_comm]

theorem any_insertEntries : (insertEntries es into).any (!·.1.isScalar) =
    (es.any (!·.1.isScalar) || into.any (!·.1.isScalar)) := by
  induction es generalizing into with
  | nil => rfl
  | cons e rest ih =>
    show (insertEntries rest (insertEntry e.1 e.2 into)).any (!·.1.isScalar) = _
    rw [ih, any_insertEntry, List.any_cons, ← Bool.or_assoc, Bool.or_comm (rest.any _)]

theorem hasRecordKeys_iff : HasRecordKeys es ↔
    (∀ e ∈ scalarEntries es, IsRecordKey e.1) ∧ es.any (!·.1.isScalar) = false := by
  constructor
  · intro h
    refine ⟨fun e he => h e (mem_scalarEntries.1 he).1, ?_⟩
    rw [List.any_eq_false]
    intro e he
    rw [isScalar_of_isRecordKey (h e he)]
    nofun
  · rintro ⟨hscalars, hall⟩ e he
    refine hscalars e (mem_scalarEntries.2 ⟨he, ?_⟩)
    simpa using List.any_eq_false.1 hall e he

/-- Sorting entries leaves keys of records as they are. -/
theorem hasRecordKeys_insertEntries (hnodup : ((scalarEntries es).map (·.1)).Nodup) :
    HasRecordKeys (insertEntries es []) ↔ HasRecordKeys es := by
  rw [hasRecordKeys_iff, hasRecordKeys_iff, any_insertEntries, List.any_nil, Bool.or_false]
  refine and_congr_left fun _ => forall_congr' fun e => ?_
  rw [(scalarEntries_insertEntries_nil_perm hnodup).mem_iff]

end Kept

/-! ## Items that look the same -/

/-- Nothing tells two items apart that are looked into by key and by position only: they are the
same, or arrays or tagged items of such, or maps with such values under the same keys of fields,
which both have other keys besides or both do not. -/
inductive Like : Cbor → Cbor → Prop where
  | refl (x : Cbor) : Like x x
  | array {xs ys : List Cbor} (length : xs.length = ys.length)
    (items : ∀ (i : Nat) x y, xs[i]? = some x → ys[i]? = some y → Like x y) :
    Like (.array xs) (.array ys)
  | tag {x y : Cbor} (n : UInt64) (content : Like x y) : Like (.tag n x) (.tag n y)
  | map {es es' : List (Cbor × Cbor)} (records : HasRecordKeys es ↔ HasRecordKeys es')
    (keys : ∀ n, (findKey? n es).isSome = (findKey? n es').isSome)
    (values : ∀ n x y, findKey? n es = some x → findKey? n es' = some y → Like x y) :
    Like (.map es) (.map es')

namespace Like

variable {x y : Cbor} {xs ys : List Cbor} {es es' : List (Cbor × Cbor)}

theorem symm (h : Like x y) : Like y x := by
  induction h with
  | refl x => exact .refl x
  | array length _ ih => exact .array length.symm fun i x y hx hy => ih i y x hy hx
  | tag n _ ih => exact .tag n ih
  | map records keys _ ih =>
    exact .map records.symm (fun n => (keys n).symm) fun n x y hx hy => ih n y x hy hx

theorem trans {z : Cbor} (h : Like x y) (h' : Like y z) : Like x z := by
  induction h generalizing z with
  | refl x => exact h'
  | @array xs ys length items ih =>
    cases h' with
    | refl => exact .array length items
    | @array _ zs length' items' =>
      refine .array (length.trans length') fun i x z hx hz => ?_
      obtain ⟨hi, -⟩ := List.getElem?_eq_some_iff.1 hx
      have hy : ys[i]? = some (ys.get ⟨i, length ▸ hi⟩) := List.getElem?_eq_getElem _
      exact ih i x _ hx hy (items' i _ z hy hz)
  | tag n content ih =>
    cases h' with
    | refl => exact .tag n content
    | tag _ content' => exact .tag n (ih content')
  | @map es fs records keys values ih =>
    cases h' with
    | refl => exact .map records keys values
    | @map _ gs records' keys' values' =>
      refine .map (records.trans records') (fun n => (keys n).trans (keys' n)) fun n x z hx hz => ?_
      have hsome : (findKey? n fs).isSome := by rw [← keys n, hx]; rfl
      obtain ⟨y, hy⟩ := Option.isSome_iff_exists.1 hsome
      exact ih n x y hx hy (values' n y z hy hz)

/-- Arrays look the same if their items do, one by one. -/
theorem of_forall₂ (h : List.Forall₂ Like xs ys) : Like (.array xs) (.array ys) := by
  obtain ⟨hlength, hitems⟩ := List.forall₂_iff_get.1 h
  refine .array hlength fun i x y hx hy => ?_
  obtain ⟨hi, rfl⟩ := List.getElem?_eq_some_iff.1 hx
  obtain ⟨hi', rfl⟩ := List.getElem?_eq_some_iff.1 hy
  exact hitems i hi hi'

theorem forall₂ (h : Like (.array xs) (.array ys)) : List.Forall₂ Like xs ys := by
  cases h with
  | refl => exact List.forall₂_same.2 fun x _ => .refl x
  | array length items =>
    refine List.forall₂_iff_get.2 ⟨length, fun i hi hi' => ?_⟩
    exact items i _ _ (List.getElem?_eq_getElem hi) (List.getElem?_eq_getElem hi')

theorem hasRecordKeys_iff (h : Like (.map es) (.map es')) :
    HasRecordKeys es ↔ HasRecordKeys es' := by
  cases h with
  | refl => rfl
  | map records _ _ => exact records

theorem rel_findKey? (h : Like (.map es) (.map es')) (n : UInt64) :
    Option.Rel Like (findKey? n es) (findKey? n es') := by
  cases h with
  | refl => exact rel_same .refl _
  | map _ keys values => exact rel_of_isSome_eq (keys n) (values n)

end Like

/-! ## Ordered trees of shuffled items -/

/-- Ordered maps look the same if the same is found among the entries they are made of. -/
theorem like_mapOf {es es' : List (Cbor × Cbor)} (hnodup : ((scalarEntries es).map (·.1)).Nodup)
    (hnodup' : ((scalarEntries es').map (·.1)).Nodup)
    (hrecords : HasRecordKeys es ↔ HasRecordKeys es')
    (hfind : ∀ n, Option.Rel Like (findKey? n es) (findKey? n es')) :
    Like (mapOf es) (mapOf es') := by
  have hkept : ∀ n, Option.Rel Like (findKey? n (insertEntries es []))
      (findKey? n (insertEntries es' [])) := fun n => by
    rw [findKey?_perm n hnodup (scalarEntries_insertEntries_nil_perm hnodup),
      findKey?_perm n hnodup' (scalarEntries_insertEntries_nil_perm hnodup')]
    exact hfind n
  refine .map ?_ (fun n => isSome_eq_of_rel (hkept n)) fun n x y => related_of_rel (hkept n)
  rw [hasRecordKeys_insertEntries hnodup, hasRecordKeys_insertEntries hnodup', hrecords]

/-- One entry may be changed for one that is alike. -/
theorem rel_findKey?_append {x y : Cbor} (h : Like x y) (before after : List (Cbor × Cbor))
    (key : Cbor) (n : UInt64) :
    Option.Rel Like (findKey? n (before ++ (key, x) :: after))
      (findKey? n (before ++ (key, y) :: after)) := by
  induction before with
  | nil =>
    rw [List.nil_append, List.nil_append]
    by_cases hkey : key = .int n.toNat
    · subst hkey
      rw [findKey?_cons_of_eq, findKey?_cons_of_eq]
      exact .some h
    · rw [findKey?_cons_of_ne n hkey, findKey?_cons_of_ne n hkey]
      exact rel_same .refl _
  | cons e before ih =>
    obtain ⟨k, v⟩ := e
    rw [List.cons_append, List.cons_append]
    by_cases hk : k = .int n.toNat
    · subst hk
      rw [findKey?_cons_of_eq, findKey?_cons_of_eq]
      exact .some (.refl v)
    · rw [findKey?_cons_of_ne n hk, findKey?_cons_of_ne n hk]
      exact ih

/-- A key that is not scalar may be changed for another one. -/
theorem findKey?_append_of_not_isScalar {k k' : Cbor} (hk : ¬ k.isScalar) (hk' : ¬ k'.isScalar)
    (before after : List (Cbor × Cbor)) (v : Cbor) (n : UInt64) :
    findKey? n (before ++ (k, v) :: after) = findKey? n (before ++ (k', v) :: after) := by
  have hskip : ∀ k : Cbor, ¬ k.isScalar → scalarEntries (before ++ (k, v) :: after) =
      scalarEntries before ++ scalarEntries after := fun k hk => by
    rw [scalarEntries, List.filter_append]
    exact congrArg _ (scalarEntries_cons_of_neg hk)
  rw [← findKey?_scalarEntries, hskip k hk, ← hskip k' hk', findKey?_scalarEntries]

theorem orderedEntries_append_cons (before after : List (Cbor × Cbor)) (key value : Cbor) :
    orderedEntries (before ++ (key, value) :: after) =
      orderedEntries before ++ (key.ordered, value.ordered) :: orderedEntries after := by
  rw [orderedEntries_eq_map, List.map_append, List.map_cons, ← orderedEntries_eq_map,
    ← orderedEntries_eq_map]

/-- A scalar has no order. -/
theorem Shuffled.eq_or_not_isScalar {x y : Cbor} (h : Shuffled x y) :
    x = y ∨ ¬ x.isScalar ∧ ¬ y.isScalar := by
  induction h with
  | refl x => exact .inl rfl
  | trans _ _ ih ih' =>
    rcases ih with rfl | ⟨hx, hy⟩
    · exact ih'
    · rcases ih' with rfl | ⟨-, hz⟩
      · exact .inr ⟨hx, hy⟩
      · exact .inr ⟨hx, hz⟩
  | item | content | key | value | entries => exact .inr ⟨nofun, nofun⟩

/-- Looking into an ordered tree does not tell the order it was written in. -/
theorem Shuffled.like {x y : Cbor} (h : Shuffled x y) (hx : x.IsDistinct) :
    Like x.ordered y.ordered := by
  have hnodup : ∀ {es : List (Cbor × Cbor)}, (map es).IsDistinct →
      ((scalarEntries (orderedEntries es)).map (·.1)).Nodup := fun h =>
    nodup_scalarEntries_ordered (isDistinct_map.1 h).1
  induction h with
  | refl x => exact .refl _
  | trans h _ ih ih' => exact (ih hx).trans (ih' (h.isDistinct hx))
  | @item x y before after _ ih =>
    rw [isDistinct_array, List.forall_mem_append, List.forall_mem_cons] at hx
    have hsame : ∀ items : List Cbor, List.Forall₂ Like items items := fun items =>
      List.forall₂_same.2 fun x _ => .refl x
    rw [ordered, ordered, orderedItems_eq_map, orderedItems_eq_map, List.map_append,
      List.map_append, List.map_cons, List.map_cons]
    exact .of_forall₂ (List.rel_append (hsame _) (.cons (ih hx.2.1) (hsame _)))
  | content n _ ih => exact .tag n (ih (isDistinct_tag.1 hx))
  | @key x y before after value h _ =>
    have hy := (Shuffled.key before after value h).isDistinct hx
    refine like_mapOf (hnodup hx) (hnodup hy) ?_ fun n => ?_
    all_goals rw [orderedEntries_append_cons, orderedEntries_append_cons]
    all_goals rcases h.eq_or_not_isScalar with rfl | ⟨hx, hy⟩
    · rfl
    · rw [← isScalar_ordered] at hx hy
      rw [HasRecordKeys, HasRecordKeys, List.forall_mem_append, List.forall_mem_append,
        List.forall_mem_cons, List.forall_mem_cons,
        iff_false_intro fun h : IsRecordKey x.ordered => hx (isScalar_of_isRecordKey h),
        iff_false_intro fun h : IsRecordKey y.ordered => hy (isScalar_of_isRecordKey h)]
    · exact rel_same .refl _
    · rw [← isScalar_ordered] at hx hy
      rw [findKey?_append_of_not_isScalar hx hy]
      exact rel_same .refl _
  | @value x y before after key h ih =>
    have hy := (Shuffled.value before after key h).isDistinct hx
    have hvalue := (isDistinct_map.1 hx).2 (key, x) (List.mem_append_right _ List.mem_cons_self)
    refine like_mapOf (hnodup hx) (hnodup hy) ?_ fun n => ?_
    all_goals rw [orderedEntries_append_cons, orderedEntries_append_cons]
    · rw [HasRecordKeys, HasRecordKeys, List.forall_mem_append, List.forall_mem_append,
        List.forall_mem_cons, List.forall_mem_cons]
    · exact rel_findKey?_append (ih hvalue) _ _ _ n
  | @entries es es' h =>
    have hy := (Shuffled.entries h).isDistinct hx
    have hperm : (orderedEntries es).Perm (orderedEntries es') := by
      rw [orderedEntries_eq_map, orderedEntries_eq_map]
      exact h.map _
    refine like_mapOf (hnodup hx) (hnodup hy) ?_ fun n => ?_
    · exact forall_congr' fun e => by rw [hperm.mem_iff]
    · rw [findKey?_perm n (hnodup hy) (hperm.filter _)]
      exact rel_same .refl _

end Rim.Cbor
