import Rim.Proofs.Choice.RoundTrip
import Rim.Proofs.Record.Plain
/-!
# Type choices are written plainly

Every payload of a family's own variants is written as a plain raw value, with at most one list
around it, and so is the choice that holds it.

## Main definitions

* `PayloadType.Plain`: payloads that are written plainly.

## Main results

* `plain_variant`: what an own variant writes is plain.
* `FieldCodec.plain_choice`: so is the choice with its tag or its name.
-/

namespace Rim

/-! ## Payloads -/

/-- What is written of a payload is plain in both formats. -/
structure PayloadType.Plain {α : Type} (p : PayloadType α) : Prop where
  cbor : ∀ a v, p.toCbor a = .ok v → v.Plain 1
  json : ∀ a v, p.toJson a = .ok v → v.Plain 1

namespace PayloadType

/-- A type of texts has plain payloads. -/
theorem plain_text {α : Type} (typeName : String) (tag : UInt64) (get : α → String)
    (make : String → α) (reason? : String → Option String) :
    (text typeName tag get make reason?).Plain where
  cbor a v hv := by
    obtain rfl := Except.ok.inj hv
    exact .text _
  json a v hv := by
    obtain rfl := Except.ok.inj hv
    exact .string _

theorem plain_byteString {α : Type} (typeName : String) (tag : UInt64) (get : α → List UInt8)
    (make : List UInt8 → α) (reason? : List UInt8 → Option String) :
    (byteString typeName tag get make reason?).Plain where
  cbor a v hv := by
    obtain rfl := Except.ok.inj hv
    exact .bytes _
  json a v hv := by
    obtain rfl := Except.ok.inj hv
    exact .string _

end PayloadType

theorem Uuid.plain_payload : Uuid.payload.Plain where
  cbor u v hv := by
    obtain rfl := Except.ok.inj hv
    exact .bytes _
  json u v hv := by
    obtain rfl := Except.ok.inj hv
    exact .string _

theorem TaggedInt.plain_payload : TaggedInt.payload.Plain where
  cbor i v hv := by
    obtain rfl := Except.ok.inj hv
    have hlow := i.value.le_toInt
    have hhigh := i.value.toInt_lt
    exact .int (by omega) (by omega)
  json i v hv := by
    obtain rfl := Except.ok.inj hv
    exact .string _

/-- The list of the number of an algorithm and a value is plain. -/
theorem Digest.plain_toCbor (d : Digest) : d.toCbor.Plain 1 := by
  have hid := natCast_toNat_bounds d.alg.id
  apply Cbor.Plain.array
  intro x hx
  rcases List.mem_cons.1 hx with rfl | hx
  · exact .int (by omega) hid.2
  · rw [List.mem_singleton] at hx
    rw [hx]
    exact .bytes _

theorem Thumbprint.plain_payload : Thumbprint.payload.Plain where
  cbor t v hv := by
    obtain rfl : t.digest.toCbor = v := Except.ok.inj hv
    exact t.digest.plain_toCbor
  json t v hv := by
    obtain rfl := Except.ok.inj hv
    exact .string _

theorem Oid.plain_payload : Oid.payload.Plain where
  cbor oid v hv := by
    obtain ⟨bytes, -, rfl⟩ := toBer_of_toCbor hv
    exact .bytes _
  json oid v hv := by
    obtain ⟨_, -, rfl⟩ := exists_of_map_eq_ok (of_lift hv)
    exact .string _

/-! ## Choices -/

/-- The payloads of a variant of such a type are plain. -/
theorem PayloadType.Plain.variant {α : Type} {p : PayloadType α} (h : p.Plain) (a : α) :
    (∀ v, (p.variant a).toCbor = .ok v → v.Plain 1) ∧
      ∀ v, (p.variant a).toJson = .ok v → v.Plain 1 :=
  ⟨h.cbor a, h.json a⟩

/-- What one of a family's own variants writes is plain. -/
theorem plain_variant (family : Family) (x : family.Value) (h : TypeChoice.isForeign x = false) :
    (∀ v, (TypeChoice.variant x).toCbor = .ok v → v.Plain 1) ∧
      ∀ v, (TypeChoice.variant x).toJson = .ok v → v.Plain 1 := by
  cases family with
  | classId =>
    cases x with
    | oid v => exact Oid.plain_payload.variant v
    | uuid v => exact Uuid.plain_payload.variant v
    | implId v => exact (PayloadType.plain_byteString _ _ _ _ _).variant v
    | int v => exact TaggedInt.plain_payload.variant v
    | registered v => cases h
  | instanceId =>
    cases x with
    | ueid v => exact (PayloadType.plain_byteString _ _ _ _ _).variant v
    | uuid v => exact Uuid.plain_payload.variant v
    | registered v => cases h
  | groupId =>
    cases x with
    | uuid v => exact Uuid.plain_payload.variant v
    | bytes v => exact (PayloadType.plain_byteString _ _ _ _ _).variant v
    | registered v => cases h
  | mkey =>
    cases x with
    | uuid v => exact Uuid.plain_payload.variant v
    | oid v => exact Oid.plain_payload.variant v
    | registered v => cases h
  | cryptoKey =>
    cases x with
    | pkixKey v => exact (PayloadType.plain_text _ _ _ _ _).variant v
    | pkixCert v => exact (PayloadType.plain_text _ _ _ _ _).variant v
    | pkixCertPath v => exact (PayloadType.plain_text _ _ _ _ _).variant v
    | thumbprint v => exact Thumbprint.plain_payload.variant v
    | coseKey v => exact (PayloadType.plain_byteString _ _ _ _ _).variant v
    | registered v => cases h
  | conciseTag =>
    cases x with
    | comid v => exact (PayloadType.plain_byteString _ _ _ _ _).variant v
    | registered v => cases h
  | profileId =>
    cases x with
    | uri v => exact (PayloadType.plain_text _ _ _ _ _).variant v
    | oid v => exact Oid.plain_payload.variant v
    | registered v => cases h

/-- What is written of a choice is plain if its payload is; the tag, or the object of type and
value, nests once around it. -/
theorem FieldCodec.plain_choice_of_payload {family : Family} {x : family.Value} {n : Nat}
    (h : (∀ v, (TypeChoice.variant x).toCbor = .ok v → v.Plain n) ∧
      ∀ v, (TypeChoice.variant x).toJson = .ok v → v.Plain n) {f : Format} {v : Raw f}
    (hv : (choice family).encode f x = .ok v) : f.Plain (n + 1) v := by
  cases f with
  | cbor =>
    have henc : (do
        let payload ← Coded.ofChoice (TypeChoice.variant x).toCbor
        return Cbor.tag (TypeChoice.tag x) payload) = .ok v := hv
    obtain ⟨payload, hp, henc⟩ := exists_of_bind_eq_ok henc
    obtain rfl := Except.ok.inj henc
    exact .tag _ (h.1 payload (Coded.of_ofChoice hp))
  | json =>
    have henc : (do
        let value ← Coded.ofChoice (TypeChoice.variant x).toJson
        return Json.object [("type", .string (TypeChoice.typeName x)), ("value", value)]) =
          .ok v := hv
    obtain ⟨value, hp, henc⟩ := exists_of_bind_eq_ok henc
    obtain rfl := Except.ok.inj henc
    refine .object (by simp) ?_
    intro e he
    rcases List.mem_cons.1 he with rfl | he
    · exact .string _
    · rw [List.mem_singleton] at he
      rw [he]
      exact h.2 value (Coded.of_ofChoice hp)

/-- What is written of a choice with one of the family's own variants is plain. -/
theorem FieldCodec.plain_choice {family : Family} {x : family.Value}
    (h : TypeChoice.isForeign x = false) {f : Format} {v : Raw f}
    (hv : (choice family).encode f x = .ok v) : f.Plain 2 v :=
  plain_choice_of_payload (plain_variant family x h) hv

end Rim
