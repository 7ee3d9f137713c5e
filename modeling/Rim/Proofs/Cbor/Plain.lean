import Rim.Proofs.Cbor.Order
import Rim.Wire
/-!
# Plain items

An item is plain if its integers have a head, its maps are under ascending integer keys, and it
holds no floats and no null.  It repeats no key and is in order already.

## Main definitions

* `Cbor.Plain`: plain items of a nesting depth.

## Main results

* `Cbor.plain_mapOf`: maps of plain items are plain.
* `Cbor.Plain.firstRepeat?_eq_none`, `Cbor.Plain.ordered_eq`: what plain items need not undergo.
-/

namespace Rim.Cbor

/-- An item that nests at most `n` deep, without floats, with integers that have a head and maps
under ascending integer keys. -/
inductive Plain : Nat → Cbor → Prop where
  | bool {n : Nat} (b : Bool) : Plain n (.bool b)
  | int {n : Nat} {v : Int} (low : -18446744073709551616 ≤ v) (high : v < 18446744073709551616) :
    Plain n (.int v)
  | bytes {n : Nat} (b : List UInt8) : Plain n (.bytes b)
  | text {n : Nat} (s : String) : Plain n (.text s)
  | array {n : Nat} {items : List Cbor} (h : ∀ x ∈ items, Plain n x) : Plain (n + 1) (.array items)
  | map {n : Nat} {es : List (UInt64 × Cbor)}
    (ascending : es.Pairwise fun a b => a.1.toNat < b.1.toNat) (h : ∀ e ∈ es, Plain n e.2) :
    Plain (n + 1) (.map (es.map keyed))
  | tag {n : Nat} {x : Cbor} (number : UInt64) (h : Plain n x) : Plain (n + 1) (.tag number x)

/-- A value that is plain at some depth is so at any greater one. -/
theorem Plain.mono {n m : Nat} {v : Cbor} (h : Plain n v) (hm : n ≤ m) : Plain m v := by
  induction h generalizing m with
  | bool b => exact .bool b
  | int low high => exact .int low high
  | bytes b => exact .bytes b
  | text s => exact .text s
  | array _ ih =>
    obtain ⟨m, rfl⟩ : ∃ k, m = k + 1 := ⟨m - 1, by omega⟩
    exact .array fun x hx => ih x hx (by omega)
  | map ascending _ ih =>
    obtain ⟨m, rfl⟩ : ∃ k, m = k + 1 := ⟨m - 1, by omega⟩
    exact .map ascending fun e he => ih e he (by omega)
  | tag number _ ih =>
    obtain ⟨m, rfl⟩ : ∃ k, m = k + 1 := ⟨m - 1, by omega⟩
    exact .tag number (ih (by omega))

theorem depthItems_le_iff {n : Nat} {items : List Cbor} :
    depthItems items ≤ n ↔ ∀ x ∈ items, x.depth ≤ n := by
  induction items with
  | nil => simp [depthItems]
  | cons x rest ih => rw [depthItems, Nat.max_le, ih, List.forall_mem_cons]

theorem depthEntries_le_iff {n : Nat} {entries : List (Cbor × Cbor)} :
    depthEntries entries ≤ n ↔ ∀ e ∈ entries, e.1.depth ≤ n ∧ e.2.depth ≤ n := by
  induction entries with
  | nil => simp [depthEntries]
  | cons e rest ih => rw [depthEntries, Nat.max_le, Nat.max_le, ih, List.forall_mem_cons]

theorem depth_le_depthItems {x : Cbor} {items : List Cbor} (h : x ∈ items) :
    x.depth ≤ depthItems items :=
  depthItems_le_iff.1 (Nat.le_refl _) x h

theorem depth_le_depthEntries {e : Cbor × Cbor} {entries : List (Cbor × Cbor)} (h : e ∈ entries) :
    e.2.depth ≤ depthEntries entries :=
  (depthEntries_le_iff.1 (Nat.le_refl _) e h).2

/-- A plain value nests no deeper than it is allowed to. -/
theorem Plain.depth_le {n : Nat} {v : Cbor} (h : v.Plain n) : v.depth ≤ n := by
  induction h with
  | bool _ | int _ _ | bytes _ | text _ => rw [depth] <;> simp
  | array _ ih =>
    rw [depth]
    exact Nat.succ_le_succ (depthItems_le_iff.2 ih)
  | map _ _ ih =>
    rw [depth]
    refine Nat.succ_le_succ (depthEntries_le_iff.2 fun e' he' => ?_)
    obtain ⟨e, he, rfl⟩ := List.mem_map.1 he'
    exact ⟨Nat.zero_le _, ih e he⟩
  | tag _ _ ih =>
    rw [depth]
    exact Nat.succ_le_succ ih

theorem firstRepeatItems?_eq_none {items : List Cbor} (h : ∀ x ∈ items, x.firstRepeat? = none) :
    firstRepeatItems? items = none := by
  induction items with
  | nil => rw [firstRepeatItems?]
  | cons x rest ih =>
    obtain ⟨hx, hrest⟩ := List.forall_mem_cons.1 h
    rw [firstRepeatItems?, hx, ih hrest]
    rfl

/-- Distinct keys that have not been seen are not repeated. -/
theorem firstRepeatEntries?_keyed {es : List (UInt64 × Cbor)} {seen : List Label}
    (hkeys : (es.map (·.1)).Nodup) (hseen : ∀ e ∈ es, Label.int e.1.toNat ∉ seen)
    (hvalues : ∀ e ∈ es, e.2.firstRepeat? = none) :
    firstRepeatEntries? seen (es.map keyed) = none := by
  induction es generalizing seen with
  | nil => rw [List.map_nil, firstRepeatEntries?]
  | cons e rest ih =>
    obtain ⟨hfirst, hkeys⟩ := List.nodup_cons.1 hkeys
    obtain ⟨hnot, hseen⟩ := List.forall_mem_cons.1 hseen
    obtain ⟨hvalue, hvalues⟩ := List.forall_mem_cons.1 hvalues
    have hrest : firstRepeatEntries? (.int e.1.toNat :: seen) (rest.map keyed) = none := by
      refine ih hkeys (fun e' he' hmem => ?_) hvalues
      rcases List.mem_cons.1 hmem with heq | hmem
      · have hkey : e'.1 = e.1 := UInt64.toNat_inj.1 (Int.ofNat.inj (Label.int.inj heq))
        exact hfirst (List.mem_map.2 ⟨e', he', hkey⟩)
      · exact hseen e' he' hmem
    show firstRepeatEntries? seen ((.int e.1.toNat, e.2) :: rest.map keyed) = none
    rw [firstRepeatEntries?]
    simp only [label?, if_neg hnot, hvalue, hrest, Option.orElse_eq_orElse, Option.orElse_none]

/-- Keys in ascending order are distinct. -/
theorem nodup_of_ascending {es : List (UInt64 × Cbor)}
    (h : es.Pairwise fun a b => a.1.toNat < b.1.toNat) : (es.map (·.1)).Nodup := by
  refine List.pairwise_map.2 (h.imp fun {a b} hab heq => ?_)
  rw [heq] at hab
  exact Nat.lt_irrefl _ hab

/-- A plain item repeats no key. -/
theorem Plain.firstRepeat?_eq_none {n : Nat} {v : Cbor} (h : v.Plain n) :
    v.firstRepeat? = none := by
  induction h with
  | bool _ | int _ _ | bytes _ | text _ => rw [firstRepeat?] <;> simp
  | array _ ih =>
    rw [firstRepeat?]
    exact firstRepeatItems?_eq_none ih
  | map ascending _ ih =>
    rw [firstRepeat?]
    exact firstRepeatEntries?_keyed (nodup_of_ascending ascending) (by simp) ih
  | tag number _ ih => rw [firstRepeat?, ih]

/-- The map of plain items under distinct integer keys is plain.  Sorting keeps the entries, so
their keys still differ and thus ascend strictly. -/
theorem plain_mapOf {n : Nat} {es : List (UInt64 × Cbor)} (hkeys : (es.map (·.1)).Nodup)
    (h : ∀ e ∈ es, e.2.Plain n) : (mapOf (es.map keyed)).Plain (n + 1) := by
  have hperm : (sortEntries [] es).Perm es := by
    have := perm_sortEntries es []
    rwa [List.append_nil] at this
  have hdistinct : (sortEntries [] es).Pairwise fun a b => a.1 ≠ b.1 :=
    List.pairwise_map.1 ((hperm.map Prod.fst).nodup_iff.2 hkeys)
  rw [mapOf_keyed hkeys]
  refine .map ?_ fun e he => h e (hperm.mem_iff.1 he)
  apply ((pairwise_sortEntries es .nil).and hdistinct).imp
  intro a b hab
  have hne : a.1.toNat ≠ b.1.toNat := fun heq => hab.2 (UInt64.toNat_inj.1 heq)
  omega

theorem orderedItems_eq_map (items : List Cbor) : orderedItems items = items.map ordered := by
  induction items with
  | nil => rw [orderedItems, List.map_nil]
  | cons x rest ih => rw [orderedItems, List.map_cons, ih]

theorem orderedEntries_keyed (es : List (UInt64 × Cbor)) :
    orderedEntries (es.map keyed) = (es.map fun e => (e.1, e.2.ordered)).map keyed := by
  induction es with
  | nil => rw [List.map_nil, List.map_nil, List.map_nil, orderedEntries]
  | cons e rest ih =>
    show orderedEntries ((.int e.1.toNat, e.2) :: rest.map keyed) = _
    rw [orderedEntries, ih, ordered]
    · rfl
    all_goals simp

/-- A plain item is in order. -/
theorem Plain.ordered_eq {n : Nat} {v : Cbor} (h : v.Plain n) : v.ordered = v := by
  induction h with
  | bool _ | int _ _ | bytes _ | text _ => rw [ordered] <;> simp
  | @array _ items _ ih =>
    rw [ordered, orderedItems_eq_map, List.map_congr_left ih, List.map_id']
  | @map _ es ascending _ ih =>
    have hsort : sortEntries [] es = es := sortEntries_of_pairwise [] ascending
    have hvalues : (es.map fun e => (e.1, e.2.ordered)) = es := by
      rw [List.map_congr_left (g := id) fun e he => congrArg (Prod.mk e.1) (ih e he), List.map_id]
    rw [ordered, orderedEntries_keyed, hvalues, mapOf_keyed (nodup_of_ascending ascending), hsort]
  | tag number _ ih => rw [ordered, ih]

end Rim.Cbor
