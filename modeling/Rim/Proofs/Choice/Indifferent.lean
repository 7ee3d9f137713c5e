import Rim.Proofs.Choice.Exact
import Rim.Proofs.Record.Like
/-!
# Variants that look at content only

The payload of a variant is hardly ever anything but a plain value: only digests are a list in the
binary form, of a number and a byte string.  So none of the families' own variants tells payloads
apart that look the same.

## Main definitions

* `PayloadType.Indifferent`: payloads that look the same are read alike.
* `Catalog.Indifferent`, `Catalogs.Indifferent`: all that is registered is built alike from them.

## Main results

* `Catalogs.indifferent_standard`: the standard catalogs are indifferent.
* `FieldCodec.alike_decodeChoice`: type choices that look the same are read alike.
-/

namespace Rim

variable {α T : Type}

/-! ## Payloads -/

/-- Payloads that look the same are read alike. -/
structure PayloadType.Indifferent (p : PayloadType α) : Prop where
  json : ∀ v w, Json.Like v w → Alike Eq (p.ofJson v) (p.ofJson w)
  cbor : ∀ v w, Cbor.Like v w → Alike Eq (p.ofCbor v) (p.ofCbor w)

/-- A number and a byte string look like nothing else. -/
theorem Digest.eq_pair_of_like {id : Int} {b : List UInt8} {w : Cbor}
    (h : Cbor.Like (.array [.int id, .bytes b]) w) : w = .array [.int id, .bytes b] := by
  cases h with
  | refl => rfl
  | array length items =>
    rcases (Cbor.Like.array length items).forall₂ with _ | ⟨hid, _ | ⟨hb, _ | _⟩⟩
    cases hid
    cases hb
    rfl

/-- Anything else is a malformed digest. -/
theorem Digest.ofCbor_of_ne {v : Cbor} (h : ∀ id b, v ≠ .array [.int id, .bytes b]) :
    ∃ expected, ofCbor v = .error (.wrongInput "digest" expected) := by
  unfold ofCbor
  split
  · exact absurd rfl (h _ _)
  · exact ⟨_, rfl⟩
  · exact ⟨_, rfl⟩

/-- Digests are read alike from values that look alike. -/
theorem Digest.alike_ofCbor {v w : Cbor} (h : Cbor.Like v w) :
    Alike Eq (ofCbor v) (ofCbor w) := by
  by_cases hv : ∃ id b, v = .array [.int id, .bytes b]
  · obtain ⟨id, b, rfl⟩ := hv
    rw [eq_pair_of_like h]
    exact .same _
  · have hw : ¬ ∃ id b, w = .array [.int id, .bytes b] := by
      rintro ⟨id, b, rfl⟩
      exact hv ⟨id, b, eq_pair_of_like h.symm⟩
    obtain ⟨expected, hv⟩ := ofCbor_of_ne fun id b heq => hv ⟨id, b, heq⟩
    obtain ⟨expected', hw⟩ := ofCbor_of_ne fun id b heq => hw ⟨id, b, heq⟩
    rw [hv, hw]
    exact .error rfl rfl

/-- The payload types of the families are indifferent to the order of entries. -/
theorem PayloadType.Standard.indifferent {p : PayloadType α} (h : p.Standard) : p.Indifferent where
  json v w hlike := by
    cases hlike with
    | refl => exact .same _
    | array | object => cases h <;> exact .error rfl rfl
  cbor v w hlike := by
    cases h with
    | thumbprint => exact (Digest.alike_ofCbor hlike).map_eq Thumbprint.mk
    | _ =>
      cases hlike with
      | refl => exact .same _
      | array | tag | map => exact .error rfl rfl

/-! ## Catalogs -/

/-- Two sources that look the same. -/
inductive PayloadSource.Like : PayloadSource → PayloadSource → Prop where
  | json {v w : Json} (h : v.Like w) : Like (.json v) (.json w)
  | cbor {v w : Cbor} (h : v.Like w) : Like (.cbor v) (.cbor w)

/-- A builder answers alike to sources that look the same. -/
def CatalogEntry.Indifferent (entry : CatalogEntry T) : Prop :=
  ∀ input input', PayloadSource.Like input input' →
    Alike Eq (entry.build input) (entry.build input')

/-- All builders of a catalog do. -/
def Catalog.Indifferent (g : Catalog T) : Prop := ∀ entry ∈ g.byTag, entry.Indifferent

/-- All builders of all catalogs do. -/
def Catalogs.Indifferent (r : Catalogs) : Prop := ∀ f g, r.get? f = some g → g.Indifferent

theorem PayloadType.Indifferent.entryOf {p : PayloadType α} (h : p.Indifferent) (wrap : α → T) :
    (Catalog.entryOf p wrap).Indifferent := by
  have hchecked : ∀ x y : Except VariantError α, Alike Eq x y →
      Alike Eq (x.bind fun a => (p.check a).bind fun _ => .ok a)
        (y.bind fun a => (p.check a).bind fun _ => .ok a) :=
    fun x y hxy => hxy.bind_eq fun a => .same _
  intro input input' hlike
  cases hlike with
  | json hlike => exact (hchecked _ _ (h.json _ _ hlike)).map_eq wrap
  | cbor hlike => exact (hchecked _ _ (h.cbor _ _ hlike)).map_eq wrap

/-- The standard catalogs list variants only that look at content. -/
theorem Catalogs.indifferent_standard : Catalogs.standard.Indifferent := by
  intro f g hg entry hentry
  obtain ⟨α, p, wrap, hp, -, rfl⟩ := exists_entryOf_standard hg hentry
  exact hp.indifferent.entryOf wrap

/-! ## Type choices -/

section Building

variable [TypeChoice T] {g : Catalog T} {input input' : PayloadSource}

/-- A tagged payload is built alike from values that look alike. -/
theorem Catalog.Indifferent.buildTagged (h : g.Indifferent) (hlike : input.Like input')
    (tag : UInt64) : Alike Eq (g.buildTagged tag input) (g.buildTagged tag input') := by
  unfold Catalog.buildTagged
  cases hfound : g.findTag? tag with
  | none => exact .same _
  | some entry => exact h entry (List.mem_of_find?_eq_some hfound) input input' hlike

theorem Catalog.Indifferent.buildNamed (h : g.Indifferent) (hlike : input.Like input')
    (name : String) : Alike Eq (g.buildNamed name input) (g.buildNamed name input') := by
  unfold Catalog.buildNamed
  cases g.tagOf? name with
  | none => exact .same _
  | some tag => exact h.buildTagged hlike tag

/-- Whether some member stands beside the type and the value is a matter of what is found. -/
theorem FieldCodec.only_iff {ms ns : List (String × Json)}
    (names : ∀ name, (Json.find? name ms).isSome = (Json.find? name ns).isSome) :
    (∀ m ∈ ms, m.1 = "type" ∨ m.1 = "value") ↔ ∀ n ∈ ns, n.1 = "type" ∨ n.1 = "value" := by
  have honly : ∀ ms : List (String × Json), (∀ m ∈ ms, m.1 = "type" ∨ m.1 = "value") ↔
      ∀ name, (Json.find? name ms).isSome = true → name = "type" ∨ name = "value" := by
    intro ms
    constructor
    · intro h name hname
      obtain ⟨m, hm, rfl⟩ := Json.find?_isSome_iff.1 hname
      exact h m hm
    · intro h m hm
      exact h m.1 (Json.find?_isSome_iff.2 ⟨m, hm, rfl⟩)
  rw [honly, honly]
  exact forall_congr' fun name => by rw [names]

/-- A named choice is read alike from values that look alike.  Its payload is what is found beside
the name, or null. -/
theorem FieldCodec.alike_decodeNamed (h : g.Indifferent) {v w : Json} (hlike : v.Like w) :
    Alike Eq (decodeNamed g v) (decodeNamed g w) := by
  cases hlike with
  | refl => exact .same _
  | array => exact .error rfl rfl
  | @object ms ns names values =>
    have hfind := (Json.Like.object names values).rel_find?
    unfold decodeNamed
    dsimp only
    by_cases honly : ∀ m ∈ ms, m.1 = "type" ∨ m.1 = "value"
    · have honly' := (only_iff names).1 honly
      rw [filter_extra_isEmpty_iff.2 honly, filter_extra_isEmpty_iff.2 honly',
        if_neg Bool.false_ne_true, if_neg Bool.false_ne_true]
      have hvalue : PayloadSource.Like (.json ((Json.find? "value" ms).getD .null))
          (.json ((Json.find? "value" ns).getD .null)) :=
        .json (related_getD_of_rel (hfind "value") (.refl .null))
      have htype := hfind "type"
      revert htype
      generalize Json.find? "type" ms = found
      generalize Json.find? "type" ns = found'
      intro htype
      cases htype with
      | none => exact .error rfl rfl
      | @some name _ hlike =>
        cases hlike with
        | array | object => exact .error rfl rfl
        | refl =>
          cases name with
          | string name =>
            dsimp only
            split
            · exact .error rfl rfl
            · exact (h.buildNamed hvalue name).ofChoice
          | _ => exact .error rfl rfl
    · have honly' := mt (only_iff names).2 honly
      rw [← filter_extra_isEmpty_iff, Bool.not_eq_false] at honly honly'
      rw [if_pos honly, if_pos honly']
      exact .error rfl rfl

/-- A tagged choice is read alike from values that look alike. -/
theorem FieldCodec.alike_decodeTagged (h : g.Indifferent) {v w : Cbor} (hlike : v.Like w) :
    Alike Eq (decodeTagged g v) (decodeTagged g w) := by
  cases hlike with
  | refl => exact .same _
  | array | map => exact .error rfl rfl
  | tag n content => exact (h.buildTagged (.cbor content) n).ofChoice

/-- Type choices that look the same are read alike. -/
theorem FieldCodec.alike_decodeChoice (h : g.Indifferent) {f : Format} {v w : Raw f}
    (hlike : f.Like v w) : Alike Eq (decodeChoice g f v) (decodeChoice g f w) := by
  cases f with
  | cbor => exact alike_decodeTagged h hlike
  | json => exact alike_decodeNamed h hlike

end Building

end Rim
