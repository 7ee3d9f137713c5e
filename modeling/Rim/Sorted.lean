/-!
# Lists ordered by a key

Some lists stay in ascending order of a key of their items.  An item goes behind the items whose
keys are not greater, and nothing else moves.

## Main definitions

* `insertBy`: an item put in its place.

## Main results

* `perm_insertBy`: the list gains the item and nothing else.
* `pairwise_insertBy`: the order is kept.
* `insertBy_comm`: items with different keys may come in any order.
-/

namespace Rim

variable {α κ : Type} [LT κ] [DecidableLT κ]

/-- An item put in its place among items in ascending order of a key. -/
def insertBy (key : α → κ) (a : α) : List α → List α
  | [] => [a]
  | b :: rest => if key a < key b then a :: b :: rest else b :: insertBy key a rest

theorem perm_insertBy (key : α → κ) (a : α) (l : List α) : (insertBy key a l).Perm (a :: l) := by
  induction l with
  | nil => exact .refl _
  | cons b rest ih =>
    unfold insertBy
    split
    · exact .refl _
    · exact (ih.cons b).trans (.swap a b rest)

@[simp] theorem mem_insertBy {key : α → κ} {a x : α} {l : List α} :
    x ∈ insertBy key a l ↔ x = a ∨ x ∈ l :=
  (perm_insertBy key a l).mem_iff.trans List.mem_cons

@[simp] theorem length_insertBy (key : α → κ) (a : α) (l : List α) :
    (insertBy key a l).length = l.length + 1 :=
  (perm_insertBy key a l).length_eq

theorem any_insertBy (key : α → κ) (a : α) (l : List α) (p : α → Bool) :
    (insertBy key a l).any p = (p a || l.any p) := by
  rw [Bool.eq_iff_iff]
  simp [List.any_eq_true]

/-- Insertion keeps the order, if the order of keys is total and transitive. -/
theorem pairwise_insertBy {key : α → κ} (trans : ∀ x y z : κ, ¬ y < x → ¬ z < y → ¬ z < x)
    (asymm : ∀ x y : κ, x < y → ¬ y < x) (a : α) {l : List α}
    (h : l.Pairwise fun x y => ¬ key y < key x) :
    (insertBy key a l).Pairwise fun x y => ¬ key y < key x := by
  induction l with
  | nil => simp [insertBy]
  | cons b rest ih =>
    obtain ⟨hb, hrest⟩ := List.pairwise_cons.1 h
    unfold insertBy
    split
    case isTrue hlt =>
      refine List.pairwise_cons.2 ⟨fun y hy => ?_, h⟩
      rcases List.mem_cons.1 hy with rfl | hy
      · exact asymm _ _ hlt
      · exact trans _ _ _ (asymm _ _ hlt) (hb y hy)
    case isFalse hge =>
      refine List.pairwise_cons.2 ⟨fun y hy => ?_, ih hrest⟩
      rcases mem_insertBy.1 hy with rfl | hy
      · exact hge
      · exact hb y hy

/-- Two items of different keys are inserted in either order. -/
theorem insertBy_comm_of_lt {key : α → κ} (trans : ∀ x y z : κ, x < y → y < z → x < z)
    (asymm : ∀ x y : κ, x < y → ¬ y < x) {a b : α} (h : key a < key b) (l : List α) :
    insertBy key a (insertBy key b l) = insertBy key b (insertBy key a l) := by
  have hba : ¬ key b < key a := asymm _ _ h
  induction l with
  | nil => simp [insertBy, h, hba]
  | cons c rest ih =>
    by_cases hbc : key b < key c
    · have hac : key a < key c := trans _ _ _ h hbc
      simp [insertBy, h, hba, hbc, hac]
    · by_cases hac : key a < key c <;> simp [insertBy, hba, hbc, hac, ih]

/-- Two items with different keys end up in the same places whichever of them comes first. -/
theorem insertBy_comm {key : α → κ} (trans : ∀ x y z : κ, x < y → y < z → x < z)
    (asymm : ∀ x y : κ, x < y → ¬ y < x) (total : ∀ x y : κ, x ≠ y → x < y ∨ y < x) {a b : α}
    (h : key a ≠ key b) (l : List α) :
    insertBy key a (insertBy key b l) = insertBy key b (insertBy key a l) := by
  rcases total _ _ h with h | h
  · exact insertBy_comm_of_lt trans asymm h l
  · exact (insertBy_comm_of_lt trans asymm h l).symm

end Rim
