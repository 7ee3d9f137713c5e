import Rim.Proofs.Basic
import Rim.Json.Basic
/-!
# Plain values

A value is plain if its integers have 64 bits, its objects repeat no name, and it holds no floats
and no nulls.

## Main definitions

* `Json.Plain`: plain values of a nesting depth.

## Main results

* `Json.Plain.firstRepeat?_eq_none`: plain values repeat no name.
-/

namespace Rim.Json

/-- A value that nests at most `n` deep, without floats and nulls, with integers of 64 bits and
objects of distinct names. -/
inductive Plain : Nat → Json → Prop where
  | bool {n : Nat} (b : Bool) : Plain n (.bool b)
  | int {n : Nat} {v : Int} (low : -9223372036854775808 ≤ v) (high : v < 18446744073709551616) :
    Plain n (.int v)
  | string {n : Nat} (s : String) : Plain n (.string s)
  | array {n : Nat} {items : List Json} (h : ∀ x ∈ items, Plain n x) : Plain (n + 1) (.array items)
  | object {n : Nat} {members : List (String × Json)} (distinct : (members.map (·.1)).Nodup)
    (h : ∀ e ∈ members, Plain n e.2) : Plain (n + 1) (.object members)

theorem Plain.mono {n m : Nat} {v : Json} (h : Plain n v) (hm : n ≤ m) : Plain m v := by
  induction h generalizing m with
  | bool b => exact .bool b
  | int low high => exact .int low high
  | string s => exact .string s
  | array _ ih =>
    obtain ⟨m, rfl⟩ : ∃ k, m = k + 1 := ⟨m - 1, by omega⟩
    exact .array fun x hx => ih x hx (by omega)
  | object distinct _ ih =>
    obtain ⟨m, rfl⟩ : ∃ k, m = k + 1 := ⟨m - 1, by omega⟩
    exact .object distinct fun e he => ih e he (by omega)

theorem depthItems_le_iff {n : Nat} {items : List Json} :
    depthItems items ≤ n ↔ ∀ v ∈ items, v.depth ≤ n := by
  induction items with
  | nil => simp [depthItems]
  | cons v items ih => rw [depthItems, Nat.max_le, ih, List.forall_mem_cons]

theorem depthMembers_le_iff {n : Nat} {members : List (String × Json)} :
    depthMembers members ≤ n ↔ ∀ m ∈ members, m.2.depth ≤ n := by
  induction members with
  | nil => simp [depthMembers]
  | cons m members ih => rw [depthMembers, Nat.max_le, ih, List.forall_mem_cons]

theorem depth_le_depthItems {x : Json} {items : List Json} (h : x ∈ items) :
    x.depth ≤ depthItems items :=
  depthItems_le_iff.1 (Nat.le_refl _) x h

theorem depth_le_depthMembers {e : String × Json} {members : List (String × Json)}
    (h : e ∈ members) : e.2.depth ≤ depthMembers members :=
  depthMembers_le_iff.1 (Nat.le_refl _) e h

theorem Plain.depth_le {n : Nat} {v : Json} (h : v.Plain n) : v.depth ≤ n := by
  induction h with
  | bool _ | int _ _ | string _ => rw [depth] <;> simp
  | array _ ih =>
    rw [depth]
    exact Nat.succ_le_succ (depthItems_le_iff.2 ih)
  | object _ _ ih =>
    rw [depth]
    exact Nat.succ_le_succ (depthMembers_le_iff.2 ih)

theorem firstRepeatItems?_eq_none {items : List Json} (h : ∀ x ∈ items, x.firstRepeat? = none) :
    firstRepeatItems? items = none := by
  induction items with
  | nil => rw [firstRepeatItems?]
  | cons x rest ih =>
    obtain ⟨hx, hrest⟩ := List.forall_mem_cons.1 h
    rw [firstRepeatItems?, hx, ih hrest]
    rfl

theorem firstRepeatMembers?_eq_none {members : List (String × Json)} {seen : List String}
    (hnames : (members.map (·.1)).Nodup) (hseen : ∀ e ∈ members, e.1 ∉ seen)
    (hvalues : ∀ e ∈ members, e.2.firstRepeat? = none) :
    firstRepeatMembers? seen members = none := by
  induction members generalizing seen with
  | nil => rw [firstRepeatMembers?]
  | cons e rest ih =>
    obtain ⟨hfirst, hnames⟩ := List.nodup_cons.1 hnames
    obtain ⟨hnot, hseen⟩ := List.forall_mem_cons.1 hseen
    obtain ⟨hvalue, hvalues⟩ := List.forall_mem_cons.1 hvalues
    have hrest : firstRepeatMembers? (e.1 :: seen) rest = none := by
      refine ih hnames (fun e' he' hmem => ?_) hvalues
      rcases List.mem_cons.1 hmem with heq | hmem
      · exact hfirst (List.mem_map.2 ⟨e', he', heq⟩)
      · exact hseen e' he' hmem
    rw [firstRepeatMembers?, if_neg hnot, hvalue, hrest]
    rfl

/-- A plain value repeats no name. -/
theorem Plain.firstRepeat?_eq_none {n : Nat} {v : Json} (h : v.Plain n) :
    v.firstRepeat? = none := by
  induction h with
  | bool _ | int _ _ | string _ => rw [firstRepeat?] <;> simp
  | array _ ih =>
    rw [firstRepeat?]
    exact firstRepeatItems?_eq_none ih
  | object distinct _ ih =>
    rw [firstRepeat?]
    exact firstRepeatMembers?_eq_none distinct (by simp) ih

end Rim.Json
