import Mathlib.Data.List.Forall2
import Rim.Proofs.Basic
import Rim.Proofs.Repeats
/-!
# Values up to the order of members

A value is shuffled by listing the members of its objects, at any depth, in some other order.
Whoever looks into objects by name sees no difference, provided that no object repeats a name: the
same names are found, with values that are shuffled again.

## Main definitions

* `Json.Shuffled`: a value is another one with its members in some other order.
* `Json.Like`: nothing tells two values apart that are looked into by name and by position.

## Main results

* `Json.Shuffled.isDistinct_iff`: whether a value repeats a name is a matter of no order.
* `Json.Shuffled.depth_eq`: nor does its nesting depend on it.
* `Json.Shuffled.like`: looking into a value by name does not tell its order of members.
-/

namespace Rim.Json

/-! ## Shuffled values -/

/-- A value is another one whose objects list their members in some other order, at any depth. -/
inductive Shuffled : Json → Json → Prop where
  | refl (v : Json) : Shuffled v v
  | trans {u v w : Json} (h : Shuffled u v) (h' : Shuffled v w) : Shuffled u w
  | item {v w : Json} (before after : List Json) (h : Shuffled v w) :
    Shuffled (.array (before ++ v :: after)) (.array (before ++ w :: after))
  | member {v w : Json} (before after : List (String × Json)) (name : String)
    (h : Shuffled v w) :
    Shuffled (.object (before ++ (name, v) :: after)) (.object (before ++ (name, w) :: after))
  | members {ms ns : List (String × Json)} (h : ms.Perm ns) : Shuffled (.object ms) (.object ns)

theorem Shuffled.symm {v w : Json} (h : Shuffled v w) : Shuffled w v := by
  induction h with
  | refl v => exact .refl v
  | trans _ _ ih ih' => exact .trans ih' ih
  | item before after _ ih => exact .item before after ih
  | member before after name _ ih => exact .member before after name ih
  | members h => exact .members h.symm

/-! ## Repeated names -/

theorem isDistinct_array {items : List Json} :
    (array items).IsDistinct ↔ ∀ v ∈ items, v.IsDistinct := by
  constructor
  · intro h v hv members hmembers
    exact h members (.item hv hmembers)
  · rintro h members (_ | ⟨hv, hmembers⟩)
    exact h _ hv members hmembers

/-- An object is distinct if its names and its values are. -/
theorem isDistinct_object {ms : List (String × Json)} :
    (object ms).IsDistinct ↔ (ms.map (·.1)).Nodup ∧ ∀ m ∈ ms, m.2.IsDistinct := by
  constructor
  · intro h
    exact ⟨h ms .here, fun m hm members hmembers => h members (.value hm hmembers)⟩
  · rintro ⟨hnodup, hvalues⟩ members (_ | _ | ⟨hm, hmembers⟩)
    · exact hnodup
    · exact hvalues _ hm members hmembers

/-- Shuffling repeats no name. -/
theorem Shuffled.isDistinct {v w : Json} (h : Shuffled v w) (hv : v.IsDistinct) :
    w.IsDistinct := by
  induction h with
  | refl v => exact hv
  | trans _ _ ih ih' => exact ih' (ih hv)
  | item before after _ ih =>
    rw [isDistinct_array, List.forall_mem_append, List.forall_mem_cons] at hv ⊢
    exact ⟨hv.1, ih hv.2.1, hv.2.2⟩
  | member before after name _ ih =>
    rw [isDistinct_object, List.forall_mem_append, List.forall_mem_cons, List.map_append,
      List.map_cons] at hv ⊢
    exact ⟨hv.1, hv.2.1, ih hv.2.2.1, hv.2.2.2⟩
  | members hperm =>
    rw [isDistinct_object] at hv ⊢
    exact ⟨(hperm.map _).nodup_iff.1 hv.1, fun m hm => hv.2 m (hperm.mem_iff.2 hm)⟩

/-- Whether a value repeats a name is a matter of no order. -/
theorem Shuffled.isDistinct_iff {v w : Json} (h : Shuffled v w) :
    v.IsDistinct ↔ w.IsDistinct :=
  ⟨h.isDistinct, h.symm.isDistinct⟩

/-! ## Nesting -/

theorem depthItems_append (vs ws : List Json) :
    depthItems (vs ++ ws) = max (depthItems vs) (depthItems ws) := by
  induction vs with
  | nil => exact (Nat.zero_max _).symm
  | cons v vs ih => rw [List.cons_append, depthItems, depthItems, ih, Nat.max_assoc]

theorem depthMembers_append (ms ns : List (String × Json)) :
    depthMembers (ms ++ ns) = max (depthMembers ms) (depthMembers ns) := by
  induction ms with
  | nil => exact (Nat.zero_max _).symm
  | cons m ms ih => rw [List.cons_append, depthMembers, depthMembers, ih, Nat.max_assoc]

theorem depthMembers_perm {ms ns : List (String × Json)} (h : ms.Perm ns) :
    depthMembers ms = depthMembers ns := by
  induction h with
  | nil => rfl
  | cons m _ ih => rw [depthMembers, depthMembers, ih]
  | swap m n ms => rw [depthMembers, depthMembers, depthMembers, depthMembers, Nat.max_left_comm]
  | trans _ _ ih ih' => exact ih.trans ih'

/-- Shuffling leaves the nesting. -/
theorem Shuffled.depth_eq {v w : Json} (h : Shuffled v w) : v.depth = w.depth := by
  induction h with
  | refl v => rfl
  | trans _ _ ih ih' => exact ih.trans ih'
  | item before after _ ih =>
    rw [depth, depth, depthItems_append, depthItems_append, depthItems, depthItems, ih]
  | member before after name _ ih =>
    rw [depth, depth, depthMembers_append, depthMembers_append, depthMembers, depthMembers, ih]
  | members hperm => rw [depth, depth, depthMembers_perm hperm]

/-! ## Looking into values

Members are found by their names.  Where names are distinct the order of members makes no
difference to that. -/

/-- Where names are distinct, what is found under one is the member of that name. -/
theorem find?_eq_some_iff {ms : List (String × Json)} (hnodup : (ms.map (·.1)).Nodup)
    {name : String} {v : Json} : find? name ms = some v ↔ (name, v) ∈ ms := by
  induction ms with
  | nil => exact ⟨nofun, nofun⟩
  | cons m rest ih =>
    obtain ⟨n, w⟩ := m
    rw [List.map_cons, List.nodup_cons] at hnodup
    rw [find?, List.mem_cons, Prod.mk.injEq]
    by_cases hname : n = name
    · subst hname
      rw [if_pos rfl, Option.some.injEq]
      constructor
      · exact fun h => .inl ⟨rfl, h.symm⟩
      · rintro (⟨-, h⟩ | h)
        · exact h.symm
        · exact absurd (List.mem_map_of_mem (f := (·.1)) h) hnodup.1
    · rw [if_neg hname, ih hnodup.2]
      exact ⟨.inr, fun h => h.resolve_left fun h => hname h.1.symm⟩

/-- A value that is found under a name is that of a member. -/
theorem mem_of_find? {ms : List (String × Json)} {name : String} {v : Json}
    (h : find? name ms = some v) : (name, v) ∈ ms := by
  induction ms with
  | nil => cases h
  | cons m rest ih =>
    obtain ⟨n, w⟩ := m
    rw [find?] at h
    split at h
    · next hname =>
      obtain rfl := Option.some.inj h
      rw [hname]
      exact List.mem_cons_self
    · exact List.mem_cons_of_mem _ (ih h)

/-- Names are told by what is found under them. -/
theorem find?_isSome_iff {ms : List (String × Json)} {name : String} :
    (find? name ms).isSome = true ↔ ∃ m ∈ ms, m.1 = name := by
  constructor
  · intro h
    obtain ⟨v, hv⟩ := Option.isSome_iff_exists.1 h
    exact ⟨(name, v), mem_of_find? hv, rfl⟩
  · rintro ⟨m, hm, rfl⟩
    induction ms with
    | nil => cases hm
    | cons m' rest ih =>
      obtain ⟨n, w⟩ := m'
      rw [find?]
      split
      · rfl
      · next hne =>
        rcases List.mem_cons.1 hm with rfl | hm
        · exact absurd rfl hne
        · exact ih hm

theorem find?_perm {ms ns : List (String × Json)} (hnodup : (ms.map (·.1)).Nodup)
    (hperm : ms.Perm ns) (name : String) : find? name ms = find? name ns := by
  ext v
  rw [find?_eq_some_iff hnodup, find?_eq_some_iff ((hperm.map (·.1)).nodup_iff.1 hnodup),
    hperm.mem_iff]

/-- Nothing tells two values apart that are looked into by name and by position only: they are the
same, or arrays of such values, or objects with such values under the same names. -/
inductive Like : Json → Json → Prop where
  | refl (v : Json) : Like v v
  | array {vs ws : List Json} (length : vs.length = ws.length)
    (items : ∀ (i : Nat) v w, vs[i]? = some v → ws[i]? = some w → Like v w) :
    Like (.array vs) (.array ws)
  | object {ms ns : List (String × Json)}
    (names : ∀ name, (find? name ms).isSome = (find? name ns).isSome)
    (values : ∀ name v w, find? name ms = some v → find? name ns = some w → Like v w) :
    Like (.object ms) (.object ns)

namespace Like

variable {v w : Json} {vs ws : List Json} {ms ns : List (String × Json)}

theorem trans {u : Json} (h : Like u v) (h' : Like v w) : Like u w := by
  induction h generalizing w with
  | refl v => exact h'
  | @array us vs length items ih =>
    cases h' with
    | refl => exact .array length items
    | @array _ ws length' items' =>
      refine .array (length.trans length') fun i u w hu hw => ?_
      obtain ⟨hi, -⟩ := List.getElem?_eq_some_iff.1 hu
      have hv : vs[i]? = some (vs.get ⟨i, length ▸ hi⟩) := List.getElem?_eq_getElem _
      exact ih i u _ hu hv (items' i _ w hv hw)
  | @object ls ms names values ih =>
    cases h' with
    | refl => exact .object names values
    | @object _ ns names' values' =>
      refine .object (fun name => (names name).trans (names' name)) fun name u w hu hw => ?_
      have hsome : (find? name ms).isSome := by rw [← names name, hu]; rfl
      obtain ⟨v, hv⟩ := Option.isSome_iff_exists.1 hsome
      exact ih name u v hu hv (values' name v w hv hw)

/-- Arrays look the same if their items do, one by one. -/
theorem of_forall₂ (h : List.Forall₂ Like vs ws) : Like (.array vs) (.array ws) := by
  obtain ⟨hlength, hitems⟩ := List.forall₂_iff_get.1 h
  refine .array hlength fun i v w hv hw => ?_
  obtain ⟨hi, rfl⟩ := List.getElem?_eq_some_iff.1 hv
  obtain ⟨hi', rfl⟩ := List.getElem?_eq_some_iff.1 hw
  exact hitems i hi hi'

theorem forall₂ (h : Like (.array vs) (.array ws)) : List.Forall₂ Like vs ws := by
  cases h with
  | refl => exact List.forall₂_same.2 fun v _ => .refl v
  | array length items =>
    refine List.forall₂_iff_get.2 ⟨length, fun i hi hi' => ?_⟩
    exact items i _ _ (List.getElem?_eq_getElem hi) (List.getElem?_eq_getElem hi')

/-- Objects in which the same names are found. -/
theorem of_find? (h : ∀ name, Option.Rel Like (find? name ms) (find? name ns)) :
    Like (.object ms) (.object ns) :=
  .object (fun name => isSome_eq_of_rel (h name)) fun name _ _ => related_of_rel (h name)

/-- What is found in objects that look alike looks alike. -/
theorem rel_find? (h : Like (.object ms) (.object ns)) (name : String) :
    Option.Rel Like (find? name ms) (find? name ns) := by
  cases h with
  | refl => exact rel_same .refl _
  | object names values => exact rel_of_isSome_eq (names name) (values name)

end Like

/-- One member may be changed for one that is alike. -/
theorem rel_find?_append {v w : Json} (h : Like v w) (before after : List (String × Json))
    (name found : String) :
    Option.Rel Like (find? found (before ++ (name, v) :: after))
      (find? found (before ++ (name, w) :: after)) := by
  induction before with
  | nil =>
    rw [List.nil_append, List.nil_append, find?, find?]
    split
    · exact .some h
    · exact rel_same .refl _
  | cons m before ih =>
    rw [List.cons_append, List.cons_append, find?, find?]
    split
    · exact .some (.refl _)
    · exact ih

/-- Looking into a value by name and by position does not tell its order of members. -/
theorem Shuffled.like {v w : Json} (h : Shuffled v w) (hv : v.IsDistinct) : Like v w := by
  induction h with
  | refl v => exact .refl v
  | trans h _ ih ih' => exact (ih hv).trans (ih' (h.isDistinct hv))
  | @item v w before after _ ih =>
    rw [isDistinct_array, List.forall_mem_append, List.forall_mem_cons] at hv
    have hsame : ∀ items : List Json, List.Forall₂ Like items items := fun items =>
      List.forall₂_same.2 fun v _ => .refl v
    exact .of_forall₂ (List.rel_append (hsame before) (.cons (ih hv.2.1) (hsame after)))
  | @member v w before after name _ ih =>
    rw [isDistinct_object, List.forall_mem_append, List.forall_mem_cons] at hv
    exact .of_find? (rel_find?_append (ih hv.2.2.1) before after name)
  | members hperm =>
    refine .of_find? fun name => ?_
    rw [find?_perm (isDistinct_object.1 hv).1 hperm]
    exact rel_same .refl _

end Rim.Json
