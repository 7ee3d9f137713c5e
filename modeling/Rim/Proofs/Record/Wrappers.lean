import Rim.Proofs.Record.Acceptance
/-!
# The wrappers of errors

An error met within a field or an item of a list is wrapped with the name of the field or the index
of the item.  Nothing else wraps an error: what a plain value, a type choice, the shape of a record
or its keys are refused for stands by itself.

## Main definitions

* `ErrorStep`, `RecordError.steps`, `RecordError.layers`: the wrappers of an error, and what each of
  them wraps.
* `Coded.Unwrapped`: results whose error has no wrapper.

## Main results

* `encodeItems_eq_error`: what is wrong with a list is wrong with one of its items.
* `exists_of_takeAll_eq_error`: members fail for one of them, over the entry there is for it.
-/

namespace Rim

/-! ## The wrappers of an error -/

/-- A step from a value to one inside of it. -/
inductive ErrorStep where
  | field (name : String)
  | item (index : Nat)
  deriving DecidableEq, Repr

/-- The name of the field a step goes to, if it goes to a field. -/
def ErrorStep.field? : ErrorStep → Option String
  | field name => some name
  | item _ => none

namespace RecordError

/-- The wrapper of an error with what it wraps. -/
def peel? : RecordError → Option (ErrorStep × RecordError)
  | field name source => some (.field name, source)
  | item index source => some (.item index, source)
  | _ => none

/-- The wrappers of an error, from the outside in. -/
def steps : RecordError → List ErrorStep
  | field name source => .field name :: source.steps
  | item index source => .item index :: source.steps
  | _ => []

/-- An error and all that its wrappers wrap, from the outside in. -/
def layers : RecordError → List RecordError
  | field name source => field name source :: source.layers
  | item index source => item index source :: source.layers
  | e => [e]

/-- The path of an error is the names of the fields on its way. -/
theorem path_eq_filterMap_steps (e : RecordError) :
    e.path = e.steps.filterMap ErrorStep.field? := by
  induction e with
  | field name source ih => exact congrArg (name :: ·) ih
  | item index source ih => exact ih
  | _ => rfl

@[simp] theorem layers_getElem?_zero (e : RecordError) : e.layers[0]? = some e := by
  cases e <;> rfl

/-- What is left after some wrappers is left, with one fewer, of what the outermost one wraps. -/
theorem exists_peel_of_layers {e e' : RecordError} {n : Nat} (h : e.layers[n + 1]? = some e') :
    ∃ s source, e.peel? = some (s, source) ∧ e.steps = s :: source.steps ∧
      source.layers[n]? = some e' := by
  cases e with
  | field name source => exact ⟨_, source, rfl, rfl, h⟩
  | item index source => exact ⟨_, source, rfl, rfl, h⟩
  | _ => cases h

theorem layers_getElem?_length_steps (e : RecordError) :
    e.layers[e.steps.length]? = some e.innermost := by
  induction e with
  | field name source ih => exact ih
  | item index source ih => exact ih
  | _ => rfl

theorem steps_innermost (e : RecordError) : e.innermost.steps = [] := by
  induction e with
  | field name source ih => exact ih
  | item index source ih => exact ih
  | _ => rfl

/-- Every layer of an error has the kind of its root cause. -/
theorem kind_of_mem_layers {e e' : RecordError} (h : e' ∈ e.layers) :
    e'.kind = e.innermost.kind := by
  induction e with
  | field name source ih =>
    rcases List.mem_cons.1 h with rfl | h
    · exact (kind_innermost _).symm
    · exact ih h
  | item index source ih =>
    rcases List.mem_cons.1 h with rfl | h
    · exact (kind_innermost _).symm
    · exact ih h
  | _ => rw [List.mem_singleton.1 h]; rfl

end RecordError

/-! ## Errors without a wrapper

Only fields and items wrap the errors they end in. -/

/-- A result whose error has no wrapper. -/
def Coded.Unwrapped {α : Type} (x : Coded α) : Prop := ∀ e, x = .error e → e.peel? = none

namespace Coded.Unwrapped

variable {α β : Type}

theorem ok (a : α) : Unwrapped (.ok a) := fun _ h => by cases h

theorem error {e : RecordError} (h : e.peel? = none) : Unwrapped (.error e : Coded α) := by
  rintro _ ⟨⟩
  exact h

theorem bind {x : Coded α} {next : α → Coded β} (hx : x.Unwrapped)
    (hnext : ∀ a, (next a).Unwrapped) : Unwrapped (x.bind next) := by
  cases x with
  | ok a => exact hnext a
  | error e => exact error (hx e rfl)

theorem map {x : Coded α} (hx : x.Unwrapped) (g : α → β) : Unwrapped (x.map g) := by
  cases x with
  | ok a => exact ok (g a)
  | error e => exact error (hx e rfl)

theorem ofChoice (x : Except VariantError α) : Unwrapped (Coded.ofChoice x) := by
  cases x with
  | ok a => exact ok a
  | error e => exact error rfl

end Coded.Unwrapped

namespace Format

open Coded

variable {f : Format}

theorem unwrapped_toBool (v : Raw f) : (f.toBool v).Unwrapped := by
  unfold toBool
  split <;> first | exact .ok _ | exact .error rfl

theorem unwrapped_toInt (low high : Int) (v : Raw f) : (Format.toInt low high f v).Unwrapped := by
  unfold toInt
  split
  · split <;> first | exact .ok _ | exact .error rfl
  · split <;> first | exact .ok _ | exact .error rfl
  · exact .error rfl

theorem unwrapped_toText (v : Raw f) : (f.toText v).Unwrapped := by
  unfold toText
  split
  · exact .ok _
  · split <;> first | exact .ok _ | exact .error rfl
  · exact .ok _
  · exact .error rfl

theorem unwrapped_toBytes (v : Raw f) : (f.toBytes v).Unwrapped := by
  unfold toBytes
  split
  · exact .ok _
  · exact .error rfl
  · split <;> first | exact .ok _ | exact .error rfl
  · exact .error rfl

theorem unwrapped_toList (v : Raw f) : (f.toList v).Unwrapped := by
  unfold toList
  split <;> first | exact .ok _ | exact .error rfl

theorem unwrapped_toEntries (layout : Layout) (v : Raw f) :
    (f.toEntries layout v).Unwrapped := by
  rcases f.isRecord_or_misshapen layout v with hshape | ⟨e, h⟩
  · obtain ⟨es, hes, -⟩ := hshape.exists_toEntries
    rw [hes]
    exact .ok es
  · rw [h.toEntries_eq]
    cases h <;> exact .error rfl

end Format

theorem Entries.unwrapped_finish {f : Format} (entity : String) (entries : Entries f) :
    (Entries.finish entity entries).Unwrapped := by
  unfold finish
  split
  · exact .ok ()
  · exact .error rfl

namespace FieldCodec

variable {f : Format} {cx : Context}

theorem unwrapped_uint64 (v : Raw f) : (uint64.decode f cx v).Unwrapped :=
  (Format.unwrapped_toInt _ _ v).map _

theorem unwrapped_code {α : Type} [OpenCode α] (v : Raw f) :
    ((code α).decode f cx v).Unwrapped := by
  unfold code
  dsimp only
  split
  · split
    · exact .ok _
    · exact .error rfl
  · exact (unwrapped_uint64 _).map _

theorem unwrapped_uuid (v : Raw f) : (uuid.decode f cx v).Unwrapped := by
  cases f with
  | cbor => exact (Format.unwrapped_toBytes v).bind fun _ => .ofChoice _
  | json => exact (Format.unwrapped_toText v).bind fun _ => .ofChoice _

theorem unwrapped_digest (v : Raw f) : (digest.decode f cx v).Unwrapped := by
  cases f with
  | json => exact (Format.unwrapped_toText v).bind fun _ => .ofChoice _
  | cbor =>
    refine (Format.unwrapped_toList v).bind fun items => ?_
    split
    · refine (unwrapped_uint64 _).bind fun _ => ?_
      exact (Format.unwrapped_toBytes _).bind fun _ => .ofChoice _
    · exact .error rfl

theorem unwrapped_tagId (v : Raw f) : (tagId.decode f cx v).Unwrapped := by
  unfold tagId
  dsimp only
  split
  · exact (Coded.Unwrapped.ofChoice _).map _
  · exact (Format.unwrapped_toText _).map _
  · exact (Format.unwrapped_toText _).map _

/-- The error of a choice is not wrapped. -/
theorem unwrapped_choice (family : Family) (v : Raw f) :
    ((choice family).decode f cx v).Unwrapped := by
  refine (Coded.Unwrapped.ofChoice _).bind fun r => ?_
  cases f with
  | cbor =>
    show (decodeTagged r v).Unwrapped
    unfold decodeTagged
    split
    · exact .ofChoice _
    · exact .error rfl
  | json =>
    show (decodeNamed r v).Unwrapped
    unfold decodeNamed
    split
    · dsimp only
      split
      · exact .error rfl
      · split
        · exact .error rfl
        · split
          · exact .error rfl
          · exact .ofChoice _
        · exact .error rfl
    · exact .error rfl

/-- What is wrong with a list is wrong with one of its items. -/
theorem encodeItems_eq_error {α β : Type} {one : α → Coded β} {items : List α} {index : Nat}
    {e : RecordError} (h : encodeItems one index items = .error e) :
    ∃ i x e', items[i]? = some x ∧ one x = .error e' ∧ e = .item (index + i) e' := by
  induction items generalizing index with
  | nil => cases h
  | cons a rest ih =>
    rw [encodeItems] at h
    cases hone : one a with
    | error e' =>
      rw [hone] at h
      obtain rfl := Except.error.inj h
      exact ⟨0, a, e', rfl, hone, rfl⟩
    | ok b =>
      rw [hone] at h
      cases hrest : encodeItems one (index + 1) rest with
      | ok bs =>
        rw [hrest] at h
        cases h
      | error e₁ =>
        rw [hrest] at h
        obtain rfl := Except.error.inj h
        obtain ⟨i, x, e', hx, he', rfl⟩ := ih hrest
        exact ⟨i + 1, x, e', hx, he', congrArg (RecordError.item · e') (by omega)⟩

end FieldCodec

/-! ## Members and entries -/

/-- A field claims nothing, or what the record holds for it. -/
theorem Entries.get?_without_subset {f : Format} {entries : Entries f} {spec other : FieldSpec}
    {x : Raw f} (h : (entries.without spec).get? other = some x) :
    entries.get? other = some x := by
  by_cases hkey : f.keyFor other = f.keyFor spec
  · have hnone : (entries.without spec).get? other = none := by
      refine Entries.get?_of_absent fun e he => ?_
      rw [hkey]
      simpa using (List.mem_filter.1 he).2
    rw [hnone] at h
    cases h
  · rwa [Entries.get?_without hkey] at h

/-- Members that claim their entries fail for one of them, with no entry or with the one there is
for it. -/
theorem exists_of_takeAll_eq_error {R : Type} {f : Format} {cx : Context}
    {members : List (Member R)} {r : R} {entries : Entries f} {e : RecordError}
    (h : takeAll cx members r entries = .error e) :
    ∃ m ∈ members, ∃ claimed r', m.decode f cx claimed r' = .error e ∧
      ∀ x, claimed = some x → entries.get? m.spec = some x := by
  induction members generalizing r entries with
  | nil => cases h
  | cons m rest ih =>
    rw [takeAll_cons_eq] at h
    cases hfirst : m.decode f cx (entries.get? m.spec) r with
    | error e' =>
      rw [hfirst] at h
      obtain rfl := Except.error.inj h
      exact ⟨m, List.mem_cons_self, _, r, hfirst, fun _ hx => hx⟩
    | ok r₁ =>
      rw [hfirst] at h
      obtain ⟨m', hm', claimed, r', hread, hclaimed⟩ := ih h
      exact ⟨m', List.mem_cons_of_mem _ hm', claimed, r', hread,
        fun x hx => Entries.get?_without_subset (hclaimed x hx)⟩

end Rim
