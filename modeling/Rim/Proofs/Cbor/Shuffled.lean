import Mathlib.Data.List.Nodup
import Rim.Proofs.Repeats
/-!
# Items up to the order of entries

An item is shuffled by listing the entries of its maps, at any depth, in some other order.  Whether
a map repeats a key does not depend on that.

## Main definitions

* `Cbor.Shuffled`: an item is another one with its entries in some other order.

## Main results

* `Cbor.Shuffled.isDistinct_iff`: whether an item repeats a key is a matter of no order.
* `Cbor.Shuffled.depth_eq`: nor does its nesting depend on it.
-/

namespace Rim.Cbor

/-! ## Shuffled items -/

/-- An item is another one whose maps list their entries in some other order, at any depth. -/
inductive Shuffled : Cbor → Cbor → Prop where
  | refl (x : Cbor) : Shuffled x x
  | trans {x y z : Cbor} (h : Shuffled x y) (h' : Shuffled y z) : Shuffled x z
  | item {x y : Cbor} (before after : List Cbor) (h : Shuffled x y) :
    Shuffled (.array (before ++ x :: after)) (.array (before ++ y :: after))
  | content {x y : Cbor} (n : UInt64) (h : Shuffled x y) : Shuffled (.tag n x) (.tag n y)
  | key {x y : Cbor} (before after : List (Cbor × Cbor)) (value : Cbor) (h : Shuffled x y) :
    Shuffled (.map (before ++ (x, value) :: after)) (.map (before ++ (y, value) :: after))
  | value {x y : Cbor} (before after : List (Cbor × Cbor)) (key : Cbor) (h : Shuffled x y) :
    Shuffled (.map (before ++ (key, x) :: after)) (.map (before ++ (key, y) :: after))
  | entries {es es' : List (Cbor × Cbor)} (h : es.Perm es') : Shuffled (.map es) (.map es')

namespace Shuffled

variable {x y : Cbor}

theorem symm (h : Shuffled x y) : Shuffled y x := by
  induction h with
  | refl x => exact .refl x
  | trans _ _ ih ih' => exact .trans ih' ih
  | item before after _ ih => exact .item before after ih
  | content n _ ih => exact .content n ih
  | key before after value _ ih => exact .key before after value ih
  | value before after key _ ih => exact .value before after key ih
  | entries h => exact .entries h.symm

/-- A shuffled key has the same label. -/
theorem label?_eq (h : Shuffled x y) : x.label? = y.label? := by
  induction h with
  | refl x => rfl
  | trans _ _ ih ih' => exact ih.trans ih'
  | item | content | key | value | entries => rfl

end Shuffled

/-! ## Repeated keys -/

theorem isDistinct_array {items : List Cbor} :
    (array items).IsDistinct ↔ ∀ x ∈ items, x.IsDistinct := by
  constructor
  · intro h x hx es hes
    exact h es (.item hx hes)
  · rintro h es (_ | ⟨hx, hes⟩)
    exact h _ hx es hes

theorem isDistinct_tag {n : UInt64} {x : Cbor} : (tag n x).IsDistinct ↔ x.IsDistinct := by
  constructor
  · intro h es hes
    exact h es (.content hes)
  · intro h es hes
    cases hes with
    | content hes => exact h es hes

/-- A map is distinct if its labels and its values are. -/
theorem isDistinct_map {es : List (Cbor × Cbor)} :
    (map es).IsDistinct ↔ (es.filterMap (·.1.label?)).Nodup ∧ ∀ e ∈ es, e.2.IsDistinct := by
  constructor
  · intro h
    exact ⟨h es .here, fun e he es' hes' => h es' (.value he hes')⟩
  · rintro ⟨hnodup, hvalues⟩ es' hes'
    cases hes' with
    | here => exact hnodup
    | value he hes' => exact hvalues _ he es' hes'

/-- Shuffling repeats no key. -/
theorem Shuffled.isDistinct {x y : Cbor} (h : Shuffled x y) (hx : x.IsDistinct) :
    y.IsDistinct := by
  induction h with
  | refl x => exact hx
  | trans _ _ ih ih' => exact ih' (ih hx)
  | item before after _ ih =>
    rw [isDistinct_array, List.forall_mem_append, List.forall_mem_cons] at hx ⊢
    exact ⟨hx.1, ih hx.2.1, hx.2.2⟩
  | content n _ ih => exact isDistinct_tag.2 (ih (isDistinct_tag.1 hx))
  | key before after value h _ =>
    rw [isDistinct_map, List.forall_mem_append, List.forall_mem_cons, List.filterMap_append,
      List.filterMap_cons] at hx ⊢
    rw [← h.label?_eq]
    exact hx
  | value before after key _ ih =>
    rw [isDistinct_map, List.forall_mem_append, List.forall_mem_cons, List.filterMap_append,
      List.filterMap_cons] at hx ⊢
    exact ⟨hx.1, hx.2.1, ih hx.2.2.1, hx.2.2.2⟩
  | entries hperm =>
    rw [isDistinct_map] at hx ⊢
    exact ⟨(hperm.filterMap _).nodup_iff.1 hx.1, fun e he => hx.2 e (hperm.mem_iff.2 he)⟩

/-- Whether an item repeats a key is a matter of no order. -/
theorem Shuffled.isDistinct_iff {x y : Cbor} (h : Shuffled x y) :
    x.IsDistinct ↔ y.IsDistinct :=
  ⟨h.isDistinct, h.symm.isDistinct⟩

/-! ## Nesting -/

theorem depthItems_append (xs ys : List Cbor) :
    depthItems (xs ++ ys) = max (depthItems xs) (depthItems ys) := by
  induction xs with
  | nil => exact (Nat.zero_max _).symm
  | cons x xs ih => rw [List.cons_append, depthItems, depthItems, ih, Nat.max_assoc]

theorem depthEntries_append (es es' : List (Cbor × Cbor)) :
    depthEntries (es ++ es') = max (depthEntries es) (depthEntries es') := by
  induction es with
  | nil => exact (Nat.zero_max _).symm
  | cons e es ih => rw [List.cons_append, depthEntries, depthEntries, ih, ← Nat.max_assoc]

theorem depthEntries_perm {es es' : List (Cbor × Cbor)} (h : es.Perm es') :
    depthEntries es = depthEntries es' := by
  induction h with
  | nil => rfl
  | cons e _ ih => rw [depthEntries, depthEntries, ih]
  | swap e e' es => rw [depthEntries, depthEntries, depthEntries, depthEntries, Nat.max_left_comm]
  | trans _ _ ih ih' => exact ih.trans ih'

/-- Shuffling leaves the nesting. -/
theorem Shuffled.depth_eq {x y : Cbor} (h : Shuffled x y) : x.depth = y.depth := by
  induction h with
  | refl x => rfl
  | trans _ _ ih ih' => exact ih.trans ih'
  | item before after _ ih =>
    rw [depth, depth, depthItems_append, depthItems_append, depthItems, depthItems, ih]
  | content n _ ih => rw [depth, depth, ih]
  | key before after value _ ih | value before after key _ ih =>
    rw [depth, depth, depthEntries_append, depthEntries_append, depthEntries, depthEntries, ih]
  | entries hperm => rw [depth, depth, depthEntries_perm hperm]

end Rim.Cbor
