import Rim.Cbor.Order
import Rim.Proofs.Basic
import Rim.Sorted
/-!
# Maps with integer keys

Integer keys that are not negative are ordered by their number, so building a map puts the entries
in ascending order of keys and changes nothing else about them.

## Main definitions

* `Cbor.keyed`: an entry under an integer key.
* `Cbor.sortEntries`: entries in ascending order of keys.

## Main results

* `Cbor.mapOf_keyed`: the map of some entries with distinct keys.
* `Cbor.mapOf_eq_of_perm`: it does not depend on the order they come in.
-/

namespace Rim.Cbor

/-- An entry of a record as one of a map. -/
def keyed (e : UInt64 × Cbor) : Cbor × Cbor := (.int e.1.toNat, e.2)

/-- Distinct keys are distinct as items. -/
theorem nodup_map_keyed {es : List (UInt64 × Cbor)} (h : (es.map (·.1)).Nodup) :
    ((es.map keyed).map (·.1)).Nodup := by
  rw [List.map_map]
  refine List.pairwise_map.2 ((List.pairwise_map.1 h).imp fun hne heq => hne ?_)
  exact UInt64.toNat_inj.1 (Int.ofNat_inj.1 (int.inj heq))

theorem compare_int (a b : Nat) : compare (.int a) (.int b) = Ord.compare a b := by
  have ha : (0 : Int) ≤ a := Int.natCast_nonneg a
  have hb : (0 : Int) ≤ b := Int.natCast_nonneg b
  simp only [compare, majorType, ha, hb, if_true, Int.natAbs_natCast]
  rfl

/-- An entry under a new key goes before the first one with a greater key. -/
theorem insertEntry_keyed {k : UInt64} {v : Cbor} {es : List (UInt64 × Cbor)}
    (h : ∀ e ∈ es, k ≠ e.1) :
    insertEntry (.int k.toNat) v (es.map keyed) = (insertBy (·.1.toNat) (k, v) es).map keyed := by
  induction es with
  | nil => rfl
  | cons e rest ih =>
    obtain ⟨hne, hrest⟩ := List.forall_mem_cons.1 h
    have hne : k.toNat ≠ e.1.toNat := fun heq => hne (UInt64.toNat_inj.1 heq)
    rw [List.map_cons]
    show insertEntry (.int k.toNat) v ((.int e.1.toNat, e.2) :: rest.map keyed) = _
    rw [insertEntry, compare_int, insertBy]
    by_cases hlt : k.toNat < e.1.toNat
    · rw [Nat.compare_eq_lt.2 hlt, if_pos hlt]
      rfl
    · rw [Nat.compare_eq_gt.2 (by omega), if_neg hlt, ih hrest]
      rfl

/-- Entries put in ascending order of keys, one after the other. -/
def sortEntries (into : List (UInt64 × Cbor)) : List (UInt64 × Cbor) → List (UInt64 × Cbor)
  | [] => into
  | e :: rest => sortEntries (insertBy (·.1.toNat) e into) rest

/-- Sorting entries keeps all of them. -/
theorem perm_sortEntries (es into : List (UInt64 × Cbor)) :
    (sortEntries into es).Perm (es ++ into) := by
  induction es generalizing into with
  | nil => exact .refl _
  | cons e rest ih =>
    refine (ih _).trans ?_
    exact ((perm_insertBy _ e into).append_left rest).trans List.perm_middle

theorem pairwise_sortEntries (es : List (UInt64 × Cbor)) {into : List (UInt64 × Cbor)}
    (h : into.Pairwise fun x y => ¬ y.1.toNat < x.1.toNat) :
    (sortEntries into es).Pairwise fun x y => ¬ y.1.toNat < x.1.toNat := by
  induction es generalizing into with
  | nil => exact h
  | cons e rest ih =>
    apply ih
    exact pairwise_insertBy (by omega) (by omega) e h

/-- Entries under distinct keys are inserted one by one. -/
theorem insertEntries_keyed {es : List (UInt64 × Cbor)} (into : List (UInt64 × Cbor))
    (h : ((into ++ es).map (·.1)).Nodup) :
    insertEntries (es.map keyed) (into.map keyed) = (sortEntries into es).map keyed := by
  induction es generalizing into with
  | nil => rfl
  | cons e rest ih =>
    have hperm : (insertBy (·.1.toNat) e into ++ rest).Perm (into ++ e :: rest) :=
      ((perm_insertBy _ e into).append_right rest).trans List.perm_middle.symm
    have hne : ∀ e' ∈ into, e.1 ≠ e'.1 := by
      rw [List.map_append, List.map_cons, List.nodup_append] at h
      intro e' he' heq
      exact h.2.2 e'.1 (List.mem_map_of_mem he') e.1 List.mem_cons_self heq.symm
    show insertEntries (rest.map keyed) (insertEntry (.int e.1.toNat) e.2 (into.map keyed)) = _
    rw [insertEntry_keyed hne, ih _ ((hperm.map _).nodup_iff.2 h)]
    rfl

/-- The map of some entries with distinct keys, in ascending order. -/
theorem mapOf_keyed {es : List (UInt64 × Cbor)} (h : (es.map (·.1)).Nodup) :
    mapOf (es.map keyed) = .map ((sortEntries [] es).map keyed) :=
  congrArg Cbor.map (insertEntries_keyed [] h)

/-- Entries of distinct keys are in ascending order once they are sorted. -/
theorem ascending_sortEntries {es : List (UInt64 × Cbor)} (h : (es.map (·.1)).Nodup) :
    (sortEntries [] es).Pairwise fun x y => x.1.toNat < y.1.toNat := by
  have hperm := perm_sortEntries es []
  rw [List.append_nil] at hperm
  have hkeys := List.pairwise_map.1 ((hperm.map (·.1)).nodup_iff.2 h)
  refine (pairwise_sortEntries es .nil).imp₂ (fun x y hle hne => ?_) hkeys
  have hne : x.1.toNat ≠ y.1.toNat := fun heq => hne (UInt64.toNat_inj.1 heq)
  omega

/-- The map of some entries with distinct keys does not depend on the order they come in. -/
theorem mapOf_eq_of_perm {es es' : List (UInt64 × Cbor)} (h : es.Perm es')
    (hnodup : (es.map (·.1)).Nodup) : mapOf (es.map keyed) = mapOf (es'.map keyed) := by
  have hnodup' : (es'.map (·.1)).Nodup := (h.map _).nodup_iff.1 hnodup
  have hes := perm_sortEntries es []
  have hes' := perm_sortEntries es' []
  rw [List.append_nil] at hes hes'
  have hsame : sortEntries [] es = sortEntries [] es' :=
    eq_of_perm_of_ascending (hes.trans (h.trans hes'.symm)) (ascending_sortEntries hnodup)
      (ascending_sortEntries hnodup')
  rw [mapOf_keyed hnodup, mapOf_keyed hnodup', hsame]

/-- Entries that ascend already stay in their order.  The next key is above all keys so far, so its
entry goes to the end. -/
theorem sortEntries_of_pairwise {es : List (UInt64 × Cbor)} (into : List (UInt64 × Cbor))
    (h : (into ++ es).Pairwise fun x y => x.1.toNat < y.1.toNat) :
    sortEntries into es = into ++ es := by
  induction es generalizing into with
  | nil => rw [List.append_nil]; rfl
  | cons e rest ih =>
    have hlast : insertBy (·.1.toNat) e into = into ++ [e] := by
      have hbefore : ∀ x ∈ into, x.1.toNat < e.1.toNat := fun x hx =>
        (List.pairwise_append.1 h).2.2 x hx e List.mem_cons_self
      clear h ih
      induction into with
      | nil => rfl
      | cons b into ih =>
        obtain ⟨hb, hinto⟩ := List.forall_mem_cons.1 hbefore
        rw [insertBy, if_neg (by omega), ih hinto]
        rfl
    rw [sortEntries, hlast, ih, List.append_assoc]
    · rfl
    · rwa [List.append_assoc]

end Rim.Cbor
