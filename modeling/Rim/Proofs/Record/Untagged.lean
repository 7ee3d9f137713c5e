import Rim.Proofs.Choice.Exact
import Rim.Proofs.Record.Travels
/-!
# Payloads with and without a tag

A payload is the variant of a type choice, with a tag or a name around it, or it stands under a
field of its own type, with neither.  The two are read and written by functions that know nothing of
each other.  What they accept is told for each of them alone, as the raw values that have a certain
form; as it is the same form, the two agree.

Only the variant is checked.  The codec of a field reads what has the form, and leaves the check to
whoever validates the record.

## Main definitions

* `PayloadType.AgreesWith`: a payload type and a codec read and write the same.

## Main results

* `FieldCodec.toBytes_eq_ok_iff`, `FieldCodec.uint64_eq_ok_iff`: plain values are read from one form
  only.
* `Digest.ofCbor_eq_ok_iff`, `Digest.ofText_eq_ok_iff`: so are digests.
* `FieldCodec.untagged_agree`: all payloads that have both forms agree.
-/

namespace Rim

/-! ## Two forms of one payload -/

/-- A raw value as what a payload is read from. -/
def Format.source : (f : Format) → Raw f → PayloadSource
  | .cbor, v => .cbor v
  | .json, v => .json v

theorem Format.source_ne_empty (f : Format) (v : Raw f) : f.source v ≠ .empty := by
  cases f <;> exact fun h => nomatch h

namespace PayloadType

variable {α β : Type}

/-- What stands under the tag of a payload, or beside its name. -/
def written (p : PayloadType α) : (f : Format) → α → Except VariantError (Raw f)
  | .cbor, a => p.toCbor a
  | .json, a => p.toJson a

/-- A payload type agrees with the codec of a field, up to a wrapper around what the field holds.
It builds exactly the valid ones among the payloads that the codec reads, and what both write is the
same. -/
structure AgreesWith (p : PayloadType α) (wrap : β → α) (c : FieldCodec β) : Prop where
  reads : ∀ (f : Format) (cx : Context) (v : Raw f) (a : α),
    p.ofInput (f.source v) = .ok a ↔
      (∃ b, c.decode f cx v = .ok b ∧ wrap b = a) ∧ p.check a = .ok ()
  writes : ∀ (f : Format) (b : β), ∃ v, p.written f (wrap b) = .ok v ∧ c.encode f b = .ok v

/-- The check is the same on both sides, so it is enough to look at what is read before it. -/
theorem agreesWith_of_parse {p : PayloadType α} {wrap : β → α} {c : FieldCodec β}
    (hreads : ∀ (f : Format) (cx : Context) (v : Raw f) (a : α),
      p.parse (f.source v) = .ok a ↔ ∃ b, c.decode f cx v = .ok b ∧ wrap b = a)
    (hwrites : ∀ (f : Format) (b : β), ∃ v, p.written f (wrap b) = .ok v ∧ c.encode f b = .ok v) :
    p.AgreesWith wrap c where
  reads f cx v a := by
    rw [ofInput_eq_ok_iff (f.source_ne_empty v), hreads f cx v a]
  writes := hwrites

end PayloadType

theorem Coded.ofChoice_eq_ok_iff {α : Type} {x : Except VariantError α} {a : α} :
    Coded.ofChoice x = .ok a ↔ x = .ok a := by
  cases x <;> simp [Coded.ofChoice]

/-! ## Plain values

There is one raw value for each of them. -/

namespace FieldCodec

variable {f : Format} {cx : Context} {v : Raw f}

theorem toBytes_eq_ok_iff {b : List UInt8} : f.toBytes v = .ok b ↔ v = f.ofBytes b := by
  constructor
  · intro h
    cases f with
    | cbor =>
      cases v with
      | bytes b' => exact congrArg Cbor.bytes (Except.ok.inj h)
      | _ => cases h
    | json =>
      cases v with
      | string text =>
        cases hdecode : Base64.decode? text with
        | none => simp [Format.toBytes, hdecode] at h
        | some b' =>
          obtain rfl : b' = b := by simpa [Format.toBytes, hdecode] using h
          exact congrArg Json.string (Base64.decode?_eq_some_iff.1 hdecode)
      | _ => cases h
  · rintro rfl
    exact toBytes_ofBytes f b

theorem uint64_eq_ok_iff {n : UInt64} : uint64.decode f cx v = .ok n ↔ v = f.ofInt n.toNat := by
  constructor
  · intro h
    obtain ⟨i, hi, rfl⟩ := exists_of_map_eq_ok h
    have hbounds : v = f.ofInt i ∧ 0 ≤ i ∧ i ≤ 18446744073709551615 := by
      cases f with
      | cbor =>
        cases v with
        | int j =>
          simp only [Format.toInt] at hi
          split_ifs at hi with hj
          obtain rfl := Except.ok.inj hi
          exact ⟨rfl, hj⟩
        | _ => cases hi
      | json =>
        cases v with
        | int j =>
          simp only [Format.toInt] at hi
          split_ifs at hi with hj
          obtain rfl := Except.ok.inj hi
          exact ⟨rfl, hj⟩
        | _ => cases hi
    obtain ⟨rfl, hlow, hhigh⟩ := hbounds
    rw [UInt64.toNat_ofNat_of_lt' (by rw [UInt64.size]; omega), Int.toNat_of_nonneg hlow]
  · rintro rfl
    exact decode_number f cx n

theorem toText_json_eq_ok_iff {v : Json} {s : String} :
    Format.toText .json v = .ok s ↔ v = .string s := by
  cases v <;> simp [Format.toText]

/-! ## Byte strings -/

theorem byteString_eq_ok_iff {α : Type} {get : α → List UInt8} {make : List UInt8 → α} {a : α} :
    (byteString get make).decode f cx v = .ok a ↔ ∃ b, v = f.ofBytes b ∧ make b = a := by
  constructor
  · intro h
    obtain ⟨b, hb, rfl⟩ := exists_of_map_eq_ok h
    exact ⟨b, toBytes_eq_ok_iff.1 hb, rfl⟩
  · rintro ⟨b, rfl, rfl⟩
    show (f.toBytes (f.ofBytes b)).map make = _
    rw [toBytes_ofBytes]
    rfl

end FieldCodec

namespace PayloadType

variable {α : Type} {typeName : String} {tag : UInt64} {get : α → List UInt8}
  {make : List UInt8 → α} {reason? : List UInt8 → Option String}

theorem parse_byteString_eq_ok_iff {f : Format} {v : Raw f} {a : α} :
    (byteString typeName tag get make reason?).parse (f.source v) = .ok a ↔
      ∃ b, v = f.ofBytes b ∧ make b = a := by
  cases f with
  | cbor =>
    cases v with
    | bytes b => simp [parse, byteString, Format.source, Format.ofBytes]
    | _ => simp [parse, byteString, Format.source, Format.ofBytes]
  | json =>
    cases v with
    | string text =>
      show (decodeBase64 typeName text).map make = _ ↔ _
      unfold decodeBase64
      constructor
      · intro h
        obtain ⟨b, hb, rfl⟩ := exists_of_map_eq_ok h
        split at hb
        · rename_i b' hdecode
          obtain rfl := Except.ok.inj hb
          exact ⟨_, congrArg Json.string (Base64.decode?_eq_some_iff.1 hdecode), rfl⟩
        · cases hb
      · rintro ⟨b, hv, rfl⟩
        obtain rfl := Json.string.inj hv
        rw [Base64.decode?_encode]
        rfl
    | _ => simp [parse, byteString, Format.source, Format.ofBytes]

/-- Tagged or not, a byte string is read and written alike. -/
theorem agreesWith_byteString :
    (byteString typeName tag get make reason?).AgreesWith id (FieldCodec.byteString get make) := by
  refine agreesWith_of_parse (fun f cx v a => ?_) fun f a => ⟨f.ofBytes (get a), ?_, rfl⟩
  · simp [parse_byteString_eq_ok_iff, FieldCodec.byteString_eq_ok_iff]
  · cases f <;> rfl

end PayloadType

/-! ## UUIDs -/

namespace Uuid

theorem lift_eq_ok_iff {x : Except UuidError Uuid} {u : Uuid} : lift x = .ok u ↔ x = .ok u := by
  cases x <;> simp [lift]

theorem decode_cbor_eq_ok_iff {cx : Context} {v : Cbor} {u : Uuid} :
    FieldCodec.uuid.decode .cbor cx v = .ok u ↔ ∃ b, v = .bytes b ∧ ofBytes b = .ok u := by
  constructor
  · intro h
    obtain ⟨b, hb, hu⟩ := exists_of_bind_eq_ok h
    exact ⟨b, FieldCodec.toBytes_eq_ok_iff.1 hb, lift_eq_ok_iff.1 (Coded.ofChoice_eq_ok_iff.1 hu)⟩
  · rintro ⟨b, rfl, hu⟩
    exact Coded.ofChoice_eq_ok_iff.2 (lift_eq_ok_iff.2 hu)

theorem decode_json_eq_ok_iff {cx : Context} {v : Json} {u : Uuid} :
    FieldCodec.uuid.decode .json cx v = .ok u ↔ ∃ s, v = .string s ∧ parse s = .ok u := by
  constructor
  · intro h
    obtain ⟨s, hs, hu⟩ := exists_of_bind_eq_ok h
    exact ⟨s, FieldCodec.toText_json_eq_ok_iff.1 hs,
      lift_eq_ok_iff.1 (Coded.ofChoice_eq_ok_iff.1 hu)⟩
  · rintro ⟨s, rfl, hu⟩
    exact Coded.ofChoice_eq_ok_iff.2 (lift_eq_ok_iff.2 hu)

theorem agreesWith_uuid : payload.AgreesWith id FieldCodec.uuid := by
  refine PayloadType.agreesWith_of_parse (fun f cx v u => ?_) fun f u => ?_
  · cases f with
    | cbor =>
      simp only [decode_cbor_eq_ok_iff, id_eq, exists_eq_right]
      cases v with
      | bytes b =>
        show lift (ofBytes b) = _ ↔ _
        simp [lift_eq_ok_iff]
      | _ => simp [PayloadType.parse, payload, Format.source]
    | json =>
      simp only [decode_json_eq_ok_iff, id_eq, exists_eq_right]
      cases v with
      | string s =>
        show lift (parse s) = _ ↔ _
        simp [lift_eq_ok_iff]
      | _ => simp [PayloadType.parse, payload, Format.source]
  · cases f with
    | cbor => exact ⟨.bytes u.bytes, rfl, rfl⟩
    | json => exact ⟨.string u.toText, rfl, rfl⟩

end Uuid

/-! ## Digests

The number of an algorithm is within the bounds of all numbers, so neither reader has to be asked
about a number outside of them. -/

theorem HashAlg.eq_id_of_ofId? {n : UInt64} {alg : HashAlg} (h : ofId? n = some alg) :
    n = alg.id := by
  have hfound := List.find?_some h
  exact (eq_of_beq hfound).symm

theorem HashAlg.eq_name_of_ofName? {s : String} {alg : HashAlg} (h : ofName? s = some alg) :
    s = alg.name := by
  have hfound := List.find?_some h
  exact (eq_of_beq hfound).symm

namespace Digest

theorem toText_eq (d : Digest) : d.toText = d.alg.name ++ ";" ++ Base64.encode d.value := by
  rfl

/-- A digest is made of the number of its algorithm and its value. -/
theorem ofParts_eq_ok_iff {id : Int} {value : List UInt8} {d : Digest} :
    ofParts id value = .ok d ↔ id = d.alg.id.toNat ∧ value = d.value := by
  constructor
  · intro h
    unfold ofParts at h
    split at h
    · rename_i alg hfound
      split_ifs at hfound with hbounds
      obtain rfl := Except.ok.inj h
      have hid : id.toNat = alg.id.toNat := by
        rw [← HashAlg.eq_id_of_ofId? hfound, UInt64.toNat_ofNat_of_lt' (by rw [UInt64.size]; omega)]
      refine ⟨?_, rfl⟩
      show id = alg.id.toNat
      omega
    · cases h
  · rintro ⟨rfl, rfl⟩
    exact ofParts_id d.alg d.value

/-- The reader of the variant accepts the binary form and nothing else. -/
theorem ofCbor_eq_ok_iff {v : Cbor} {d : Digest} : ofCbor v = .ok d ↔ v = d.toCbor := by
  constructor
  · intro h
    unfold ofCbor at h
    split at h
    case h_1 id value =>
      obtain ⟨rfl, rfl⟩ := ofParts_eq_ok_iff.1 h
      rfl
    all_goals cases h
  · rintro rfl
    exact ofCbor_toCbor d

/-- The reader of the field accepts the binary form and nothing else. -/
theorem decode_cbor_eq_ok_iff {cx : Context} {v : Cbor} {d : Digest} :
    FieldCodec.digest.decode .cbor cx v = .ok d ↔ v = d.toCbor := by
  constructor
  · intro h
    obtain ⟨items, hitems, h⟩ := exists_of_bind_eq_ok h
    cases v with
    | array items' =>
      obtain rfl := Except.ok.inj hitems
      split at h
      case h_1 alg value =>
        obtain ⟨id, hid, h⟩ := exists_of_bind_eq_ok h
        obtain ⟨b, hb, h⟩ := exists_of_bind_eq_ok h
        obtain ⟨hnumber, rfl⟩ := ofParts_eq_ok_iff.1 (Coded.ofChoice_eq_ok_iff.1 h)
        rw [FieldCodec.uint64_eq_ok_iff.1 hid, FieldCodec.toBytes_eq_ok_iff.1 hb, hnumber]
        rfl
      case h_2 => cases h
    | _ => cases hitems
  · rintro rfl
    exact (FieldCodec.travels_digest (n := 0) d).reads _ rfl

/-- The reader of texts accepts the text form and nothing else.  The text is the name, followed by
what is dropped with it. -/
theorem ofText_eq_ok_iff {text : String} {d : Digest} : ofText text = .ok d ↔ text = d.toText := by
  constructor
  · intro h
    have hsplit := List.prefix_iff_eq_append.1 (List.takeWhile_prefix (l := text.toList) (· != ';'))
    unfold ofText at h
    dsimp only at h
    split at h
    case h_2 => cases h
    case h_1 value hvalue =>
      split at h
      case h_2 => cases h
      case h_1 alg hname =>
        split at h
        case h_2 => cases h
        case h_1 bytes hbytes =>
          obtain rfl := Except.ok.inj h
          rw [← String.toList_inj, toList_toText, ← HashAlg.eq_name_of_ofName? hname,
            ← Base64.decodeChars?_eq_some_iff.1 hbytes, ← hvalue, String.toList_ofList]
          exact hsplit.symm
  · rintro rfl
    exact ofText_toText d

theorem decode_json_eq_ok_iff {cx : Context} {v : Json} {d : Digest} :
    FieldCodec.digest.decode .json cx v = .ok d ↔ v = .string d.toText := by
  constructor
  · intro h
    obtain ⟨s, hs, hd⟩ := exists_of_bind_eq_ok h
    rw [FieldCodec.toText_json_eq_ok_iff.1 hs, ofText_eq_ok_iff.1 (Coded.ofChoice_eq_ok_iff.1 hd)]
  · rintro rfl
    exact Coded.ofChoice_eq_ok_iff.2 (ofText_toText d)

end Digest

namespace Thumbprint

theorem map_eq_ok_iff {ε : Type} {x : Except ε Digest} {t : Thumbprint} :
    x.map Thumbprint.mk = .ok t ↔ x = .ok t.digest := by
  constructor
  · intro h
    obtain ⟨d, rfl, rfl⟩ := exists_of_map_eq_ok h
    rfl
  · rintro rfl
    rfl

theorem parse_eq_ok_iff {f : Format} (cx : Context) {v : Raw f} {t : Thumbprint} :
    payload.parse (f.source v) = .ok t ↔ FieldCodec.digest.decode f cx v = .ok t.digest := by
  cases f with
  | cbor =>
    rw [Digest.decode_cbor_eq_ok_iff, ← Digest.ofCbor_eq_ok_iff]
    exact map_eq_ok_iff
  | json =>
    rw [Digest.decode_json_eq_ok_iff]
    cases v with
    | string s =>
      rw [Json.string.injEq, ← Digest.ofText_eq_ok_iff]
      exact map_eq_ok_iff
    | _ => simp [PayloadType.parse, payload, Format.source]

theorem agreesWith_digest : payload.AgreesWith Thumbprint.mk FieldCodec.digest := by
  refine PayloadType.agreesWith_of_parse (fun f cx v t => ?_) fun f d => ?_
  · rw [parse_eq_ok_iff cx]
    constructor
    · exact fun h => ⟨t.digest, h, rfl⟩
    · rintro ⟨d, h, rfl⟩
      exact h
  · cases f with
    | cbor => exact ⟨d.toCbor, rfl, rfl⟩
    | json => exact ⟨.string d.toText, rfl, rfl⟩

end Thumbprint

namespace FieldCodec

/-- The payloads that occur with and without a tag are read from the same raw values, up to the
check of the variant, and written the same way.  As for digests, both readers of the binary form
accept arrays of an algorithm's number and a byte string and nothing else, both readers of the text
form accept an algorithm's name and canonical base64 around a semicolon and nothing else, and each
digest is read back from what either writes, of whatever length its value is. -/
theorem untagged_agree :
    Uuid.payload.AgreesWith id uuid ∧ Ueid.payload.AgreesWith id ueid ∧
    TaggedBytes.payload.AgreesWith id taggedBytes ∧ ImplId.payload.AgreesWith id implId ∧
    CoseKey.payload.AgreesWith id coseKey ∧ Thumbprint.payload.AgreesWith Thumbprint.mk digest ∧
    (∀ (v : Cbor) (d : Digest),
      Digest.ofCbor v = .ok d ↔ v = .array [.int d.alg.id.toNat, .bytes d.value]) ∧
    (∀ (cx : Context) (v : Cbor) (d : Digest),
      digest.decode .cbor cx v = .ok d ↔ v = .array [.int d.alg.id.toNat, .bytes d.value]) ∧
    (∀ (text : String) (d : Digest),
      Digest.ofText text = .ok d ↔ text = d.alg.name ++ ";" ++ Base64.encode d.value) ∧
    (∀ (cx : Context) (v : Json) (d : Digest),
      digest.decode .json cx v = .ok d ↔
        v = .string (d.alg.name ++ ";" ++ Base64.encode d.value)) ∧
    ∀ (f : Format) (cx : Context) (d : Digest), ∃ v, digest.encode f d = .ok v ∧
      digest.decode f cx v = .ok d ∧ Thumbprint.payload.written f ⟨d⟩ = .ok v ∧
        Thumbprint.payload.parse (f.source v) = .ok ⟨d⟩ := by
  refine ⟨Uuid.agreesWith_uuid, PayloadType.agreesWith_byteString,
    PayloadType.agreesWith_byteString, PayloadType.agreesWith_byteString,
    PayloadType.agreesWith_byteString, Thumbprint.agreesWith_digest,
    fun _ _ => Digest.ofCbor_eq_ok_iff, fun _ _ _ => Digest.decode_cbor_eq_ok_iff,
    fun _ d => ?_, fun _ _ d => ?_, fun f cx d => ?_⟩
  · rw [← Digest.toText_eq, Digest.ofText_eq_ok_iff]
  · rw [← Digest.toText_eq, Digest.decode_json_eq_ok_iff]
  · obtain ⟨v, hwritten, hv⟩ := Thumbprint.agreesWith_digest.writes f d
    have hread : digest.decode f cx v = .ok d := (travels_digest (n := 0) d).reads v hv
    exact ⟨v, hv, hread, hwritten, (Thumbprint.parse_eq_ok_iff cx).2 hread⟩

end FieldCodec

end Rim
