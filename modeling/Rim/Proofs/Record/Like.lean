import Rim.Proofs.Alike
import Rim.Proofs.Json.Shuffled
import Rim.Proofs.Record.Ordered
/-!
# Raw values that look the same

A reader looks into a raw value as a plain value, as a list, or as a record, whose entries it finds
by their keys.  Where nothing that is looked at tells two raw values apart, readings of them are
alike.

## Main definitions

* `Format.Like`: nothing tells two raw values of a format apart.
* `Format.Nests`: values that have others within them.
* `Entries.Like`: the same is found among entries.

## Main results

* `Format.Like.readPlain`: readers of plain values answer alike.
* `Format.Like.toEntries`: the entries of raw values that look the same.
* `Entries.Like.without`, `Entries.Like.finish`: claiming entries keeps the rest the same.
-/

namespace Rim

namespace Format

/-- Nothing that is looked at tells two raw values of a format apart. -/
def Like : (f : Format) → Raw f → Raw f → Prop
  | .cbor => Cbor.Like
  | .json => Json.Like

theorem like_refl (f : Format) (v : Raw f) : f.Like v v := by
  cases f with
  | cbor => exact Cbor.Like.refl v
  | json => exact Json.Like.refl v

/-! ## Plain values and lists

A plain value looks like no other one, and what has others within it is refused as a plain value. -/

/-- Values that have others within them. -/
inductive Nests : (f : Format) → Raw f → Prop where
  | items (xs : List Cbor) : Nests .cbor (.array xs)
  | entries (es : List (Cbor × Cbor)) : Nests .cbor (.map es)
  | content (n : UInt64) (x : Cbor) : Nests .cbor (.tag n x)
  | array (vs : List Json) : Nests .json (.array vs)
  | object (ms : List (String × Json)) : Nests .json (.object ms)

section Plain

variable {α : Type} {f : Format} {v w : Raw f}

theorem Like.eq_or_nests (h : f.Like v w) : v = w ∨ f.Nests v ∧ f.Nests w := by
  cases f with
  | cbor =>
    cases h with
    | refl => exact .inl rfl
    | array => exact .inr ⟨.items _, .items _⟩
    | tag => exact .inr ⟨.content _ _, .content _ _⟩
    | map => exact .inr ⟨.entries _, .entries _⟩
  | json =>
    cases h with
    | refl => exact .inl rfl
    | array => exact .inr ⟨.array _, .array _⟩
    | object => exact .inr ⟨.object _, .object _⟩

/-- Who reads plain values only answers alike. -/
theorem Like.readPlain (h : f.Like v w) {read : Raw f → Coded α}
    (hread : ∀ u, f.Nests u → ∃ e, read u = .error e ∧ e.kind = .schema ∧ e.path = []) :
    Alike Eq (read v) (read w) := by
  rcases h.eq_or_nests with rfl | ⟨hv, hw⟩
  · exact .same _
  · obtain ⟨e, hv, hkind, hpath⟩ := hread v hv
    obtain ⟨e', hw, hkind', hpath'⟩ := hread w hw
    rw [hv, hw]
    exact .error (hkind.trans hkind'.symm) (hpath.trans hpath'.symm)

theorem Like.toBytes (h : f.Like v w) : Alike Eq (f.toBytes v) (f.toBytes w) :=
  h.readPlain fun _ hu => by cases hu <;> exact ⟨_, rfl, rfl, rfl⟩

theorem Like.toText (h : f.Like v w) : Alike Eq (f.toText v) (f.toText w) :=
  h.readPlain fun _ hu => by cases hu <;> exact ⟨_, rfl, rfl, rfl⟩

theorem Like.toInt (h : f.Like v w) (low high : Int) :
    Alike Eq (Format.toInt low high f v) (Format.toInt low high f w) :=
  h.readPlain fun _ hu => by cases hu <;> exact ⟨_, rfl, rfl, rfl⟩

theorem Like.toBool (h : f.Like v w) : Alike Eq (f.toBool v) (f.toBool w) :=
  h.readPlain fun _ hu => by cases hu <;> exact ⟨_, rfl, rfl, rfl⟩

/-- Lists that look alike have items that look alike. -/
theorem Like.toList (h : f.Like v w) : Alike (List.Forall₂ f.Like) (f.toList v) (f.toList w) := by
  have hsame : ∀ items : List (Raw f), List.Forall₂ f.Like items items := fun items =>
    List.forall₂_same.2 fun v _ => f.like_refl v
  cases f with
  | cbor =>
    cases h with
    | refl => exact (Alike.same _).mono fun items _ h => h ▸ hsame items
    | array length items => exact .ok (Cbor.Like.array length items).forall₂
    | tag | map => exact .error rfl rfl
  | json =>
    cases h with
    | refl => exact (Alike.same _).mono fun items _ h => h ▸ hsame items
    | array length items => exact .ok (Json.Like.array length items).forall₂
    | object => exact .error rfl rfl

end Plain

end Format

/-! ## Entries

A record is taken apart into entries.  What is found among them by key is the same, and what is left
when fields have claimed theirs is nothing on one side if it is nothing on the other. -/

namespace Entries

variable {f : Format} {es es' : Entries f}

/-- The same is found among entries. -/
def Like (es es' : Entries f) : Prop :=
  ∀ k : Key f, Option.Rel f.Like ((List.find? (·.1 = k) es).map (·.2))
    ((List.find? (·.1 = k) es').map (·.2))

theorem like_refl (es : Entries f) : es.Like es := fun _ => rel_same f.like_refl _

/-- Entries look the same if they are under the same keys, one by one, and their values look the
same. -/
theorem like_of_forall₂ (h : List.Forall₂ (fun d e => d.1 = e.1 ∧ f.Like d.2 e.2) es es') :
    es.Like es' := by
  intro k
  induction h with
  | nil => exact .none
  | @cons d e _ _ hfirst _ ih =>
    rw [List.find?_cons, List.find?_cons, hfirst.1]
    cases decide (e.1 = k) with
    | true => exact .some hfirst.2
    | false => exact ih

/-- Entries that look alike have values that look alike under every field. -/
theorem Like.get? (h : es.Like es') (spec : FieldSpec) :
    Option.Rel f.Like (es.get? spec) (es'.get? spec) := h (f.keyFor spec)

theorem find?_without (es : Entries f) (spec : FieldSpec) (k : Key f) :
    List.find? (·.1 = k) (es.without spec) =
      if k = f.keyFor spec then none else List.find? (·.1 = k) es := by
  rw [without, List.find?_filter]
  split
  case isTrue hk =>
    rw [List.find?_eq_none]
    intro e _ h
    simp_all
  case isFalse hk =>
    congr 1
    funext e
    by_cases he : e.1 = k
    · simp [he, hk]
    · simp [he]

/-- A field that claims its entry leaves the rest the same. -/
theorem Like.without (h : es.Like es') (spec : FieldSpec) :
    (es.without spec).Like (es'.without spec) := by
  intro k
  rw [find?_without, find?_without]
  split
  · exact .none
  · exact h k

theorem eq_nil_iff (es : Entries f) :
    es = [] ↔ ∀ k, ((List.find? (·.1 = k) es).map (·.2)).isSome = false := by
  constructor
  · rintro rfl k
    rfl
  · intro h
    cases es with
    | nil => rfl
    | cons e rest =>
      have hfirst := h e.1
      rw [List.find?_cons, decide_eq_true rfl] at hfirst
      cases hfirst

/-- What nobody claimed is a fault of the schema, whatever it is. -/
theorem Like.finish (h : es.Like es') (entity : String) :
    Alike Eq (Entries.finish entity es) (Entries.finish entity es') := by
  have hnil : es = [] ↔ es' = [] := by
    rw [eq_nil_iff, eq_nil_iff]
    exact forall_congr' fun k => by rw [isSome_eq_of_rel (h k)]
  unfold Entries.finish
  rw [Bool.eq_iff_iff.2 (List.isEmpty_iff.trans (hnil.trans List.isEmpty_iff.symm))]
  split
  · exact .ok rfl
  · exact .error rfl rfl

end Entries

namespace Format

theorem rel_positioned {xs ys : List Cbor} (h : List.Forall₂ Cbor.Like xs ys) (n : Nat) :
    List.Forall₂ (fun d e : UInt64 × Cbor => d.1 = e.1 ∧ Cbor.Like d.2 e.2)
      (positioned n xs) (positioned n ys) := by
  induction h generalizing n with
  | nil => exact .nil
  | cons hfirst _ ih => exact .cons ⟨rfl, hfirst⟩ (ih (n + 1))

/-- A map is taken apart into its entries exactly if all its keys are those of fields. -/
theorem recordEntries_cases (es : List (Cbor × Cbor)) :
    (Cbor.HasRecordKeys es ∧ ∃ out, recordEntries es = .ok out) ∨
      ¬ Cbor.HasRecordKeys es ∧ ∃ word, recordEntries es = .error (.wrongType
        "unsigned integer key" word) := by
  rcases forall_mem_or_exists_first (fun e => IsRecordKey e.1) es with
    hall | ⟨before, ⟨k, x⟩, after, rfl, hbefore, hk⟩
  · obtain ⟨out, rfl⟩ := exists_eq_map_keyed hall
    exact .inl ⟨hall, out, recordEntries_keyed out⟩
  · refine .inr ⟨fun h => hk ?_, _, recordEntries_of_foreignKey hbefore hk⟩
    exact h (k, x) (List.mem_append_right before List.mem_cons_self)

/-- Maps that look alike are taken apart into entries that look alike. -/
theorem like_recordEntries {es es' : List (Cbor × Cbor)} (h : Cbor.Like (.map es) (.map es')) :
    Alike (Entries.Like (f := .cbor)) (recordEntries es) (recordEntries es') := by
  rcases recordEntries_cases es with ⟨hes, out, hout⟩ | ⟨hes, word, hout⟩ <;>
    rcases recordEntries_cases es' with ⟨hes', out', hout'⟩ | ⟨hes', word', hout'⟩
  · rw [hout, hout']
    refine .ok fun k => ?_
    rw [← findKey?_eq_find? hout k, ← findKey?_eq_find? hout' k]
    exact h.rel_findKey? k
  · exact absurd (h.hasRecordKeys_iff.1 hes) hes'
  · exact absurd (h.hasRecordKeys_iff.2 hes') hes
  · rw [hout, hout']
    exact .error rfl rfl

variable {f : Format} {v w : Raw f}

/-- The entries of raw values that look the same. -/
theorem Like.toEntries (h : f.Like v w) (layout : Layout) :
    Alike Entries.Like (f.toEntries layout v) (f.toEntries layout w) := by
  have hsame : ∀ v, Alike Entries.Like (f.toEntries layout v) (f.toEntries layout v) := fun v =>
    (Alike.same _).mono fun es _ h => h ▸ es.like_refl
  cases f with
  | cbor =>
    cases h with
    | refl => exact hsame _
    | @array xs ys length items =>
      cases layout with
      | map => exact .error rfl rfl
      | array =>
        have hitems := (Cbor.Like.array length items).forall₂
        exact .ok (Entries.like_of_forall₂ (rel_positioned hitems 0))
    | tag => cases layout <;> exact .error rfl rfl
    | map records keys values =>
      cases layout with
      | map => exact like_recordEntries (.map records keys values)
      | array => exact .error rfl rfl
  | json =>
    cases h with
    | refl => exact hsame _
    | array => exact .error rfl rfl
    | object names values =>
      refine .ok fun name => ?_
      rw [← find?_eq_find?, ← find?_eq_find?]
      exact (Json.Like.object names values).rel_find? name

/-- A field that is looked up without the others. -/
theorem Like.entry? (h : f.Like v w) (spec : FieldSpec) :
    Option.Rel f.Like (f.entry? v spec) (f.entry? w spec) := by
  cases f with
  | cbor =>
    cases h with
    | refl => exact rel_same Cbor.Like.refl _
    | array | tag => exact .none
    | map records keys values => exact (Cbor.Like.map records keys values).rel_findKey? spec.key
  | json =>
    cases h with
    | refl => exact rel_same Json.Like.refl _
    | array => exact .none
    | object names values => exact (Json.Like.object names values).rel_find? spec.name

end Format

end Rim
