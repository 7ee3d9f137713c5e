import Mathlib.Data.List.Nodup
/-!
# Results and lists

Facts about results that may be errors, and about lists, that several kinds of documents need.

## Main results

* `exists_of_bind_eq_ok`, `exists_of_map_eq_ok`: what succeeds has succeeded at each step.
* `map_bind_eq_bind`, `map_bind_congr`: two runs that correspond step by step.
* `rel_same`, `rel_flip`, `rel_trans`: options related by an equivalence.
* `length_le_length_flatMap`, `length_le_of_mem_flatMap`: how long a list of written parts is.
* `flatten_mapIdx_eq_nil_iff`, `forall_mem_map_iff`: a property of all items, item by item.
* `map_mapIdx_eq_map`: a change of the items that is lost on the way.
* `forall_mem_or_exists_first`: all items are as wanted, or there is a first one that is not.
* `exists_bound`: one bound for all items.
* `find?_key_eq_some_iff`: items with distinct keys are found by their keys.
* `find?_eq_some_iff_least`: the first of ascending items that is wanted.
* `mergeSort_eq_of_perm`: items in ascending order of distinct keys, whatever order they come in.
* `map_eq_range_iff`: ascending keys that are the numbers from zero on.
-/

namespace Rim

variable {α β ε : Type}

/-! ## Results -/

/-- Two steps that succeed together succeed one after the other. -/
theorem exists_of_bind_eq_ok {x : Except ε α} {next : α → Except ε β} {b : β}
    (h : x.bind next = .ok b) : ∃ a, x = .ok a ∧ next a = .ok b := by
  cases x with
  | error e => cases h
  | ok a => exact ⟨a, rfl, h⟩

/-- What is made of a result comes from a result. -/
theorem exists_of_map_eq_ok {x : Except ε α} {g : α → β} {b : β} (h : x.map g = .ok b) :
    ∃ a, x = .ok a ∧ g a = b := by
  cases x with
  | error e => cases h
  | ok a => exact ⟨a, rfl, Except.ok.inj h⟩

/-- Two runs that correspond step by step have corresponding results. -/
theorem map_bind_eq_bind {α' β' : Type} {x : Except ε α} {x' : Except ε α'}
    {next : α → Except ε β} {next' : α' → Except ε β'} {g : α → α'} {k : β → β'}
    (hx : x.map g = x') (hnext : ∀ a, (next a).map k = next' (g a)) :
    (x.bind next).map k = x'.bind next' := by
  subst hx
  cases x with
  | error e => rfl
  | ok a => exact hnext a

/-- What is done after one and the same step corresponds if it does for every result of it. -/
theorem map_bind_congr {β' : Type} {x : Except ε α} {next : α → Except ε β}
    {next' : α → Except ε β'} {k : β → β'} (h : ∀ a, (next a).map k = next' a) :
    (x.bind next).map k = x.bind next' := by
  cases x with
  | error e => rfl
  | ok a => exact h a

theorem exists_of_any_toOption {x : Except ε α} {p : α → Bool} (h : x.toOption.any p = true) :
    ∃ a, x = .ok a ∧ p a = true := by
  cases x with
  | error e => cases h
  | ok a => exact ⟨a, rfl, h⟩

/-! ## Lookups that correspond -/

theorem rel_same {r : α → α → Prop} (hr : ∀ a, r a a) (o : Option α) : Option.Rel r o o := by
  cases o with
  | none => exact .none
  | some a => exact .some (hr a)

/-- Related options have values together. -/
theorem isSome_eq_of_rel {r : α → β → Prop} {o : Option α} {o' : Option β}
    (h : Option.Rel r o o') : o.isSome = o'.isSome := by
  cases h with
  | none => rfl
  | some _ => rfl

/-- The values of related options are related. -/
theorem related_of_rel {r : α → β → Prop} {o : Option α} {o' : Option β}
    (h : Option.Rel r o o') {a : α} {b : β} (ha : o = some a) (hb : o' = some b) : r a b := by
  subst ha hb
  cases h with
  | some h => exact h

theorem related_getD_of_rel {r : α → α → Prop} {o o' : Option α} (h : Option.Rel r o o') {a : α}
    (ha : r a a) : r (o.getD a) (o'.getD a) := by
  cases h with
  | none => exact ha
  | some h => exact h

/-- Two lookups correspond if both find something or neither does, and what they find does. -/
theorem rel_of_isSome_eq {r : α → β → Prop} {o : Option α} {o' : Option β}
    (hsome : o.isSome = o'.isSome) (h : ∀ a b, o = some a → o' = some b → r a b) :
    Option.Rel r o o' := by
  cases o with
  | none =>
    cases o' with
    | none => exact .none
    | some b => cases hsome
  | some a =>
    cases o' with
    | none => cases hsome
    | some b => exact .some (h a b rfl rfl)

theorem rel_flip {r : α → β → Prop} {q : β → α → Prop} (hr : ∀ a b, r a b → q b a) {o : Option α}
    {o' : Option β} (h : Option.Rel r o o') : Option.Rel q o' o := by
  cases h with
  | none => exact .none
  | some h => exact .some (hr _ _ h)

theorem rel_trans {r : α → α → Prop} (hr : ∀ a b c, r a b → r b c → r a c) {o o₁ o' : Option α}
    (h : Option.Rel r o o₁) (h' : Option.Rel r o₁ o') : Option.Rel r o o' := by
  cases h with
  | none =>
    cases h'
    exact .none
  | some h =>
    cases h' with
    | some h' => exact .some (hr _ _ _ h h')

/-! ## Lists in reverse

A reader keeps what it has read in reverse. -/

theorem reverse_cons_append (x : α) (taken xs : List α) :
    (x :: taken).reverse ++ xs = taken.reverse ++ x :: xs := by
  rw [List.reverse_cons, List.append_assoc, List.singleton_append]

/-! ## Lengths

A reader counts by the length of its input, so what is written must not be shorter than what is
counted. -/

/-- Parts of at least one character each are as many as their characters at most. -/
theorem length_le_length_flatMap {write : α → List β} {xs : List α}
    (h : ∀ x ∈ xs, 0 < (write x).length) : xs.length ≤ (xs.flatMap write).length := by
  induction xs with
  | nil => exact Nat.le_refl 0
  | cons x xs ih =>
    obtain ⟨hx, hxs⟩ := List.forall_mem_cons.1 h
    have hrest := ih hxs
    rw [List.flatMap_cons, List.length_append, List.length_cons]
    omega

/-! ## Items -/

/-- Nothing comes of the items of a list if nothing comes of each. -/
theorem flatten_mapIdx_eq_nil_iff {each : Nat → α → List β} {P : α → Prop}
    (h : ∀ i a, each i a = [] ↔ P a) {l : List α} :
    (l.mapIdx each).flatten = [] ↔ ∀ a ∈ l, P a := by
  rw [List.flatten_eq_nil_iff]
  constructor
  · intro hall a ha
    obtain ⟨i, hi, rfl⟩ := List.getElem_of_mem ha
    exact (h i _).1 (hall _ (List.mem_mapIdx.2 ⟨i, hi, rfl⟩))
  · intro hall bs hbs
    obtain ⟨i, hi, rfl⟩ := List.mem_mapIdx.1 hbs
    exact (h i _).2 (hall _ (List.getElem_mem hi))

theorem forall_mem_map_iff {g : α → β} {P : β → Prop} {Q : α → Prop} {l : List α}
    (h : ∀ a ∈ l, P (g a) ↔ Q a) : (∀ b ∈ l.map g, P b) ↔ ∀ a ∈ l, Q a := by
  rw [List.forall_mem_map]
  constructor
  · intro hall a ha
    exact (h a ha).1 (hall a ha)
  · intro hall a ha
    exact (h a ha).2 (hall a ha)

theorem flatten_mapIdx_map {γ : Type} {g : α → γ} {each : Nat → α → List β}
    {each' : Nat → γ → List β} {after : β → β} (h : ∀ i a, each' i (g a) = (each i a).map after)
    (l : List α) : ((l.map g).mapIdx each').flatten = (l.mapIdx each).flatten.map after := by
  induction l generalizing each each' with
  | nil => rfl
  | cons a l ih =>
    rw [List.map_cons, List.mapIdx_cons, List.mapIdx_cons, List.flatten_cons, List.flatten_cons,
      List.map_append, h, ih fun i => h (i + 1)]

theorem map_mapIdx_eq_map {g : α → β} {change : Nat → α → α} (h : ∀ i a, g (change i a) = g a)
    (l : List α) : (l.mapIdx change).map g = l.map g := by
  induction l generalizing change with
  | nil => rfl
  | cons a l ih =>
    rw [List.mapIdx_cons, List.map_cons, List.map_cons, h, ih fun i => h (i + 1)]

/-- All items are as wanted, or there is a first one that is not. -/
theorem forall_mem_or_exists_first {α : Type*} (P : α → Prop) (l : List α) :
    (∀ a ∈ l, P a) ∨
      ∃ before a after, l = before ++ a :: after ∧ (∀ b ∈ before, P b) ∧ ¬ P a := by
  induction l with
  | nil => exact .inl (List.forall_mem_nil _)
  | cons a l ih =>
    by_cases ha : P a
    · rcases ih with hall | ⟨before, b, after, rfl, hbefore, hb⟩
      · exact .inl (List.forall_mem_cons.2 ⟨ha, hall⟩)
      · exact .inr ⟨a :: before, b, after, rfl, List.forall_mem_cons.2 ⟨ha, hbefore⟩, hb⟩
    · exact .inr ⟨[], a, l, rfl, List.forall_mem_nil _, ha⟩

/-- What holds of each item from some bound on holds of all items from one bound on. -/
theorem exists_bound {P : Nat → α → Prop} (hmono : ∀ a n m, n ≤ m → P n a → P m a) {l : List α}
    (h : ∀ a ∈ l, ∃ n, P n a) : ∃ n, ∀ a ∈ l, P n a := by
  induction l with
  | nil => exact ⟨0, List.forall_mem_nil _⟩
  | cons a l ih =>
    obtain ⟨⟨n, hn⟩, hl⟩ := List.forall_mem_cons.1 h
    obtain ⟨m, hm⟩ := ih hl
    refine ⟨max n m, List.forall_mem_cons.2 ⟨hmono a _ _ (Nat.le_max_left n m) hn, ?_⟩⟩
    exact fun b hb => hmono b _ _ (Nat.le_max_right n m) (hm b hb)

/-- Items with distinct keys are found by their keys. -/
theorem find?_key_eq_some_iff {κ : Type} [BEq κ] [LawfulBEq κ] {key : α → κ} {l : List α}
    (h : (l.map key).Nodup) {k : κ} {a : α} :
    l.find? (key · == k) = some a ↔ a ∈ l ∧ key a = k := by
  constructor
  · intro hfound
    exact ⟨List.mem_of_find?_eq_some hfound, by simpa using List.find?_some hfound⟩
  · rintro ⟨ha, rfl⟩
    cases hfound : l.find? (key · == key a) with
    | none => exact absurd (BEq.rfl) (List.find?_eq_none.1 hfound a ha)
    | some b =>
      have hb : key b = key a := by simpa using List.find?_some hfound
      rw [List.inj_on_of_nodup_map h (List.mem_of_find?_eq_some hfound) ha hb]

/-- Nothing is found under a key that no item has. -/
theorem find?_key_eq_none {κ : Type} [BEq κ] [LawfulBEq κ] {key : α → κ} {l : List α} {k : κ}
    (h : k ∉ l.map key) : l.find? (key · == k) = none :=
  List.find?_eq_none.2 fun _ ha heq => h (List.mem_map.2 ⟨_, ha, eq_of_beq heq⟩)

/-! ## Lists in ascending order -/

section Ascending

variable {key : α → Nat} {l l' : List α}

/-- There is only one way to list items in ascending order of distinct keys. -/
theorem eq_of_perm_of_ascending (h : l.Perm l') (hl : l.Pairwise fun a b => key a < key b)
    (hl' : l'.Pairwise fun a b => key a < key b) : l = l' :=
  h.eq_of_pairwise (fun _ _ _ _ hab hba => absurd hab (Nat.lt_asymm hba)) hl hl'

/-- Of items in ascending order, the first that is wanted is the least that is. -/
theorem find?_eq_some_iff_least (h : l.Pairwise fun a b => key a < key b) {p : α → Bool} {b : α} :
    l.find? p = some b ↔ b ∈ l ∧ p b = true ∧ ∀ a ∈ l, p a = true → key b ≤ key a := by
  induction l with
  | nil => simp
  | cons c l ih =>
    obtain ⟨hc, hl⟩ := List.pairwise_cons.1 h
    cases hp : p c with
    | true =>
      rw [List.find?_cons_of_pos hp]
      constructor
      · intro hfound
        obtain rfl := Option.some.inj hfound
        exact ⟨List.mem_cons_self, hp,
          List.forall_mem_cons.2 ⟨fun _ => Nat.le_refl _, fun a ha _ => Nat.le_of_lt (hc a ha)⟩⟩
      · rintro ⟨hb, -, hleast⟩
        rcases List.mem_cons.1 hb with rfl | hb
        · rfl
        · exact absurd (hc b hb) (Nat.not_lt.2 (hleast c List.mem_cons_self hp))
    | false =>
      rw [List.find?_cons_of_neg (by simp [hp]), ih hl]
      have hother : ∀ a, p a = true → a ≠ c := fun a ha hac => by simp [← hac, ha] at hp
      constructor
      · rintro ⟨hb, hpb, hleast⟩
        exact ⟨List.mem_cons_of_mem _ hb, hpb,
          List.forall_mem_cons.2 ⟨fun hpc => absurd rfl (hother c hpc), hleast⟩⟩
      · rintro ⟨hb, hpb, hleast⟩
        exact ⟨List.mem_of_ne_of_mem (hother b hpb) hb, hpb, (List.forall_mem_cons.1 hleast).2⟩

/-- Items of distinct keys are in ascending order once they are sorted. -/
theorem ascending_mergeSort (h : (l.map key).Nodup) :
    (l.mergeSort fun a b => key a ≤ key b).Pairwise fun a b => key a < key b := by
  have hsorted : (l.mergeSort fun a b => key a ≤ key b).Pairwise
      fun a b => decide (key a ≤ key b) = true := by
    apply List.pairwise_mergeSort
    · simp only [decide_eq_true_eq]
      omega
    · intro a b
      simp only [Bool.or_eq_true, decide_eq_true_eq]
      omega
  have hnodup : ((l.mergeSort fun a b => key a ≤ key b).map key).Nodup :=
    ((List.mergeSort_perm l _).map key).nodup_iff.2 h
  refine hsorted.imp₂ (fun a b hab hne => ?_) (List.pairwise_map.1 hnodup)
  have hle : key a ≤ key b := by simpa using hab
  omega

/-- Sorting by distinct keys forgets the order that the items come in. -/
theorem mergeSort_eq_of_perm (h : l.Perm l') (hnodup : (l.map key).Nodup) :
    (l.mergeSort fun a b => key a ≤ key b) = l'.mergeSort fun a b => key a ≤ key b := by
  refine eq_of_perm_of_ascending ?_ (ascending_mergeSort hnodup)
    (ascending_mergeSort ((h.map key).nodup_iff.1 hnodup))
  exact (List.mergeSort_perm l _).trans (h.trans (List.mergeSort_perm l' _).symm)

/-- Keys in ascending order count from zero on exactly if they are the numbers below some bound. -/
theorem map_eq_range_iff (h : l.Pairwise fun a b => key a < key b) :
    l.map key = List.range l.length ↔ ∀ k, (∃ a ∈ l, key a = k) ↔ k < l.length := by
  have hmem : ∀ k, (∃ a ∈ l, key a = k) ↔ k ∈ l.map key := fun k => List.mem_map.symm
  simp only [hmem, ← List.mem_range]
  constructor
  · intro hkeys k
    rw [hkeys]
  · intro hkeys
    have hascend : (l.map key).Pairwise fun i j => id i < id j := List.pairwise_map.2 h
    refine eq_of_perm_of_ascending ?_ hascend List.pairwise_lt_range
    exact (List.perm_ext_iff_of_nodup (hascend.imp Nat.ne_of_lt) List.nodup_range).2 hkeys

end Ascending

end Rim
