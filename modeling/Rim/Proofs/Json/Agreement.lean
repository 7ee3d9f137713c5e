import Mathlib.Data.List.Forall2
import Rim.Proofs.Basic
import Rim.Proofs.Json.Shuffled
/-!
# Values that agree

Two values are compared with the order of their members aside: the members of either object are
looked for in the other by their names.  Agreement is an equivalence, also among values that repeat
a name, and values that agree stay so when they are looked into by name or by position.

## Main definitions

* `Json.Agree`: two values agree.

## Main results

* `Json.agree_array_iff`, `Json.agree_object_iff`: agreement of arrays and of objects.
* `Json.Agree.refl`, `Json.Agree.symm`, `Json.Agree.trans`: agreement as an equivalence.
-/

namespace Rim.Json

/-- Two values agree. -/
def Agree (v w : Json) : Prop := v.agrees w = true

variable {u v w : Json} {vs ws : List Json} {ms ns : List (String × Json)}

/-! ## Arrays and objects -/

/-- Arrays agree if their items do, one by one. -/
theorem agree_array_iff : Agree (array vs) (array ws) ↔ List.Forall₂ Agree vs ws := by
  show agreeItems vs ws = true ↔ _
  induction vs generalizing ws with
  | nil =>
    cases ws with
    | nil => exact iff_of_true rfl .nil
    | cons w ws => exact iff_of_false nofun nofun
  | cons v vs ih =>
    cases ws with
    | nil => exact iff_of_false nofun nofun
    | cons w ws =>
      rw [agreeItems, Bool.and_eq_true_iff, ih, List.forall₂_cons]
      rfl

/-- Members count unless their name was seen before, be it among the members themselves. -/
theorem agreeMembers_iff {seen : List String} : agreeMembers seen ms ns = true ↔
    ∀ name v, name ∉ seen → find? name ms = some v → ∃ w, find? name ns = some w ∧ Agree v w := by
  induction ms generalizing seen with
  | nil => exact iff_of_true rfl nofun
  | cons m ms ih =>
    obtain ⟨name, v⟩ := m
    rw [agreeMembers, Bool.and_eq_true_iff, Bool.or_eq_true, decide_eq_true_iff,
      Option.any_eq_true, ih]
    constructor
    · rintro ⟨hfirst, hlater⟩ found u hunseen hfind
      rw [find?] at hfind
      split at hfind
      case isTrue heq =>
        obtain rfl := heq
        obtain rfl := Option.some.inj hfind
        exact hfirst.resolve_left hunseen
      case isFalse hne =>
        exact hlater found u (List.not_mem_cons_of_ne_of_not_mem (Ne.symm hne) hunseen) hfind
    · intro h
      refine ⟨or_iff_not_imp_left.2 fun hunseen => ?_, fun found u hunseen hfind => ?_⟩
      · exact h name v hunseen (by rw [find?, if_pos rfl])
      · obtain ⟨hne, hunseen⟩ := List.ne_and_not_mem_of_not_mem_cons hunseen
        exact h found u hunseen (by rw [find?, if_neg (Ne.symm hne), hfind])

/-- Objects agree if what is found in them under any name does. -/
theorem agree_object_iff : Agree (object ms) (object ns) ↔
    ∀ name, Option.Rel Agree (find? name ms) (find? name ns) := by
  show agrees (object ms) (object ns) = true ↔ _
  rw [agrees, Bool.and_eq_true_iff, List.all_eq_true, agreeMembers_iff]
  constructor
  · rintro ⟨hback, hfound⟩ name
    cases hv : find? name ms with
    | some v =>
      obtain ⟨w, hw, hagree⟩ := hfound name v List.not_mem_nil hv
      rw [hw]
      exact .some hagree
    | none =>
      cases hw : find? name ns with
      | none => exact .none
      | some w =>
        have hsome : (find? name ms).isSome := hback (name, w) (mem_of_find? hw)
        rw [hv] at hsome
        cases hsome
  · intro h
    refine ⟨fun m hm => ?_, fun name v _ hv => ?_⟩
    · rw [isSome_eq_of_rel (h m.1)]
      exact find?_isSome_iff.2 ⟨m, hm, rfl⟩
    · have hrel := h name
      rw [hv] at hrel
      obtain ⟨w, hw⟩ := Option.isSome_iff_exists.1 (isSome_eq_of_rel hrel).symm
      exact ⟨w, hw, related_of_rel hrel rfl hw⟩

/-- Doubles agree if they are the same, or zeros of either sign. -/
theorem agree_float_iff {a b : UInt64} :
    Agree (float a) (float b) ↔ a = b ∨ isZero a = true ∧ isZero b = true := by
  rw [Agree, agrees, Bool.or_eq_true, Bool.and_eq_true_iff, beq_iff_eq]

namespace Agree

theorem bool_inj {a b : Bool} (h : Agree (bool a) (bool b)) : a = b := eq_of_beq h

theorem int_inj {a b : Int} (h : Agree (int a) (int b)) : a = b := eq_of_beq h

theorem string_inj {s t : String} (h : Agree (string s) (string t)) : s = t := eq_of_beq h

end Agree

/-! ## Agreement as an equivalence

Values that agree are the same but for zeros and for their parts, which agree in turn. -/

/-- The values right within a value. -/
def parts : Json → List Json
  | array items => items
  | object members => members.map (·.2)
  | _ => []

theorem mem_parts_of_find? {name : String} (h : find? name ms = some v) : v ∈ (object ms).parts :=
  List.mem_map_of_mem (mem_of_find? h)

/-- What holds of a value if it does of its parts holds of all values. -/
@[elab_as_elim]
theorem parts_induction {motive : Json → Prop} (step : ∀ v, (∀ u ∈ v.parts, motive u) → motive v)
    (v : Json) : motive v :=
  @Json.rec motive (fun vs => ∀ v ∈ vs, motive v)
    (fun ms => ∀ v ∈ ms.map fun m : String × Json => m.2, motive v) (fun m => motive m.2)
    (step null (List.forall_mem_nil _)) (fun b => step (bool b) (List.forall_mem_nil _))
    (fun n => step (int n) (List.forall_mem_nil _))
    (fun a => step (float a) (List.forall_mem_nil _))
    (fun s => step (string s) (List.forall_mem_nil _)) (fun vs => step (array vs))
    (fun ms => step (object ms)) (List.forall_mem_nil _)
    (fun _ _ h hs => List.forall_mem_cons.2 ⟨h, hs⟩) (List.forall_mem_nil _)
    (fun _ _ h hs => List.forall_mem_cons.2 ⟨h, hs⟩) (fun _ _ h => h) v

namespace Agree

/-- Two values that agree are the same, both zeros, or both arrays or objects. -/
theorem inversion (h : Agree v w) : v = w ∨
    (∃ a b, v = float a ∧ w = float b ∧ isZero a = true ∧ isZero b = true) ∨
    (∃ vs ws, v = array vs ∧ w = array ws ∧ List.Forall₂ Agree vs ws) ∨
    ∃ ms ns, v = object ms ∧ w = object ns ∧
      ∀ name, Option.Rel Agree (find? name ms) (find? name ns) := by
  match v, w, h with
  | null, null, _ => exact .inl rfl
  | bool _, bool _, h => exact .inl (congrArg bool h.bool_inj)
  | int _, int _, h => exact .inl (congrArg int h.int_inj)
  | float a, float b, h =>
    rcases agree_float_iff.1 h with rfl | ⟨ha, hb⟩
    · exact .inl rfl
    · exact .inr (.inl ⟨a, b, rfl, rfl, ha, hb⟩)
  | string _, string _, h => exact .inl (congrArg string h.string_inj)
  | array vs, array ws, h => exact .inr (.inr (.inl ⟨vs, ws, rfl, rfl, agree_array_iff.1 h⟩))
  | object ms, object ns, h =>
    exact .inr (.inr (.inr ⟨ms, ns, rfl, rfl, agree_object_iff.1 h⟩))

/-- A value agrees with itself. -/
theorem refl (v : Json) : Agree v v := by
  induction v using parts_induction with
  | step v ih =>
    cases v with
    | null => rfl
    | bool b => exact beq_self_eq_true b
    | int n => exact beq_self_eq_true n
    | float a => exact agree_float_iff.2 (.inl rfl)
    | string s => exact beq_self_eq_true s
    | array vs => exact agree_array_iff.2 (List.forall₂_same.2 ih)
    | object ms =>
      exact agree_object_iff.2 fun name => rel_of_isSome_eq rfl fun v w hv hw => by
        obtain rfl := Option.some.inj (hv.symm.trans hw)
        exact ih v (mem_parts_of_find? hv)

/-- Agreement is symmetric. -/
theorem symm (h : Agree v w) : Agree w v := by
  induction v using parts_induction generalizing w with
  | step v ih =>
    obtain rfl | ⟨a, b, rfl, rfl, ha, hb⟩ | ⟨vs, ws, rfl, rfl, hitems⟩ |
      ⟨ms, ns, rfl, rfl, hmembers⟩ := h.inversion
    · exact refl v
    · exact agree_float_iff.2 (.inr ⟨hb, ha⟩)
    · have hflip := ((List.forall₂_and_left _ _).2 ⟨ih, hitems⟩).imp fun _ _ h => h.1 h.2
      exact agree_array_iff.2 hflip.flip
    · refine agree_object_iff.2 fun name => ?_
      exact rel_of_isSome_eq (isSome_eq_of_rel (hmembers name)).symm fun w v hw hv =>
        ih v (mem_parts_of_find? hv) (related_of_rel (hmembers name) hv hw)

theorem forall₂_trans {us vs ws : List Json}
    (htrans : ∀ u ∈ us, ∀ {v w}, Agree u v → Agree v w → Agree u w)
    (h : List.Forall₂ Agree us vs) (h' : List.Forall₂ Agree vs ws) : List.Forall₂ Agree us ws := by
  induction h generalizing ws with
  | nil => exact h'
  | cons hfirst _ ih =>
    obtain ⟨w, ws, hfirst', hrest', rfl⟩ := List.forall₂_cons_left_iff.1 h'
    exact .cons (htrans _ List.mem_cons_self hfirst hfirst')
      (ih (fun u hu => htrans u (List.mem_cons_of_mem _ hu)) hrest')

/-- Agreement is transitive. -/
theorem trans (h : Agree u v) (h' : Agree v w) : Agree u w := by
  induction u using parts_induction generalizing v w with
  | step u ih =>
    obtain rfl | ⟨a, b, rfl, rfl, ha, hb⟩ | ⟨us, vs, rfl, rfl, hitems⟩ |
      ⟨ls, ms, rfl, rfl, hmembers⟩ := h.inversion
    · exact h'
    · cases w with
      | float c =>
        refine agree_float_iff.2 (.inr ⟨ha, ?_⟩)
        rcases agree_float_iff.1 h' with rfl | ⟨-, hc⟩
        · exact hb
        · exact hc
      | _ => cases h'
    · cases w with
      | array ws =>
        exact agree_array_iff.2 (forall₂_trans ih hitems (agree_array_iff.1 h'))
      | _ => cases h'
    · cases w with
      | object ns =>
        refine agree_object_iff.2 fun name => ?_
        have hrel := agree_object_iff.1 h' name
        refine rel_of_isSome_eq ((isSome_eq_of_rel (hmembers name)).trans (isSome_eq_of_rel hrel))
          fun u w hu hw => ?_
        obtain ⟨v, hv⟩ := Option.isSome_iff_exists.1 (by
          rw [isSome_eq_of_rel hrel, hw]
          rfl)
        exact ih u (mem_parts_of_find? hu) (related_of_rel (hmembers name) hu hv)
          (related_of_rel hrel hv hw)
      | _ => cases h'

end Agree

end Rim.Json
