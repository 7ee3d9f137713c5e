import Rim.Payload.Bytes
import Rim.Payload.Digest
import Rim.Payload.Integer
import Rim.Payload.Pem
import Rim.Payload.Registered
import Rim.Payload.Uri
import Rim.Payload.Uuid
import Rim.Proofs.Base64
import Rim.Proofs.Basic
import Rim.Proofs.Payload.Oid
/-!
# Payloads are read back

A payload type is lawful when each payload that passes its check has a text form, and both forms are
read back as that payload.  Whether it also has a binary form is left open here: object identifiers
are the one type where this depends on the payload.

## Main definitions

* `PayloadType.Lawful`: checked payloads are read back.

## Main results

* `PayloadType.lawful_text`, `PayloadType.lawful_byteString`: the two common kinds.
* `Uuid.lawful_payload`, `Oid.lawful_payload`, `TaggedInt.lawful_payload`,
  `Thumbprint.lawful_payload`: those with forms of their own.
-/

namespace Rim

/-- Checked payloads have a text form, and what is written of them is read back. -/
structure PayloadType.Lawful {α : Type} (p : PayloadType α) : Prop where
  json : ∀ a, p.check a = .ok () → ∃ v, p.toJson a = .ok v ∧ p.ofJson v = .ok a
  cbor : ∀ a v, p.check a = .ok () → p.toCbor a = .ok v → p.ofCbor v = .ok a

namespace PayloadType

variable {α : Type} {p : PayloadType α}

/-- Input that is parsed as a checked payload builds that payload. -/
theorem ofInput_of_parse {input : PayloadSource} {a : α} (hne : input ≠ .empty)
    (hp : p.parse input = .ok a) (hc : p.check a = .ok ()) : p.ofInput input = .ok a := by
  cases input with
  | empty => exact absurd rfl hne
  | text _ | json _ | cbor _ =>
    simp only [ofInput, hp]
    show (do p.check a; return a) = _
    rw [hc]
    rfl

theorem Lawful.ofInput_json (h : p.Lawful) {a : α} (hc : p.check a = .ok ()) :
    ∃ v, p.toJson a = .ok v ∧ p.ofInput (.json v) = .ok a := by
  obtain ⟨v, hv, hread⟩ := h.json a hc
  refine ⟨v, hv, ?_⟩
  exact ofInput_of_parse (by simp) hread hc

theorem Lawful.ofInput_cbor (h : p.Lawful) {a : α} {v : Cbor} (hc : p.check a = .ok ())
    (hv : p.toCbor a = .ok v) : p.ofInput (.cbor v) = .ok a :=
  ofInput_of_parse (by simp) (h.cbor a v hc hv) hc

/-! ## Texts and byte strings

They travel as they are, or as base64, and are read without a look at what they hold. -/

/-- A type of texts reads back what it writes. -/
theorem lawful_text (typeName : String) (tag : UInt64) {get : α → String} {make : String → α}
    (reason? : String → Option String) (h : ∀ a, make (get a) = a) :
    (text typeName tag get make reason?).Lawful where
  json a _ := by
    refine ⟨.string (get a), rfl, ?_⟩
    show Except.ok (make (get a)) = _
    rw [h]
  cbor a v _ hv := by
    obtain rfl := Except.ok.inj hv
    show Except.ok (make (get a)) = _
    rw [h]

/-- Bytes are read back from base 64. -/
theorem decodeBase64_encode (typeName : String) (bytes : List UInt8) :
    decodeBase64 typeName (Base64.encode bytes) = .ok bytes := by
  unfold decodeBase64
  rw [Base64.decode?_encode]

theorem lawful_byteString (typeName : String) (tag : UInt64) {get : α → List UInt8}
    {make : List UInt8 → α} (reason? : List UInt8 → Option String) (h : ∀ a, make (get a) = a) :
    (byteString typeName tag get make reason?).Lawful where
  json a _ := by
    refine ⟨.string (Base64.encode (get a)), rfl, ?_⟩
    show (decodeBase64 typeName (Base64.encode (get a))).map make = _
    rw [decodeBase64_encode]
    show Except.ok (make (get a)) = _
    rw [h]
  cbor a v _ hv := by
    obtain rfl := Except.ok.inj hv
    show Except.ok (make (get a)) = _
    rw [h]

end PayloadType

/-! ## UUIDs

The text form is thirty-two digits with four hyphens between them; all of it is ASCII, so it has as
many bytes as characters. -/

theorem Utf8.length_encode_ofList {cs : List Char} (h : ∀ c ∈ cs, c.utf8Size = 1) :
    (Utf8.encode (String.ofList cs)).length = cs.length := by
  unfold Utf8.encode
  rw [Array.length_toList, String.toByteArray_ofList]
  show cs.utf8Encode.size = cs.length
  induction cs with
  | nil => rfl
  | cons c cs ih =>
    obtain ⟨hc, hcs⟩ := List.forall_mem_cons.1 h
    rw [List.utf8Encode_cons, ByteArray.size_append, ih hcs, List.utf8Encode_singleton,
      List.size_toByteArray, String.length_utf8EncodeChar, hc, List.length_cons, Nat.add_comm]

theorem Hex.utf8Size_digit {n : Nat} (h : n < 16) : (Hex.digit n).utf8Size = 1 := by
  have key : ∀ m : Fin 16, (Hex.digit m).utf8Size = 1 := by decide
  exact key ⟨n, h⟩

theorem Hex.utf8Size_of_mem {bytes : List UInt8} {c : Char} (h : c ∈ bytes.flatMap Hex.pair) :
    c.utf8Size = 1 := by
  obtain ⟨b, -, hc⟩ := List.mem_flatMap.1 h
  have hb : b.toNat < 256 := b.toNat_lt
  simp only [Hex.pair, List.mem_cons, List.not_mem_nil, or_false] at hc
  rcases hc with rfl | rfl
  · exact Hex.utf8Size_digit (by omega)
  · exact Hex.utf8Size_digit (by omega)

theorem Hex.length_flatMap_pair (bytes : List UInt8) :
    (bytes.flatMap Hex.pair).length = 2 * bytes.length := by
  induction bytes with
  | nil => rfl
  | cons b rest ih =>
    rw [List.flatMap_cons, List.length_append, ih, List.length_cons]
    simp only [Hex.pair, List.length_cons, List.length_nil]
    omega

namespace Uuid

/-- Digits with hyphens after the eighth, the twelfth, the sixteenth and the twentieth. -/
def hyphenated (ds : List Char) : List Char :=
  ds.take 8 ++ '-' :: (ds.drop 8).take 4 ++ '-' :: (ds.drop 12).take 4 ++
    '-' :: (ds.drop 16).take 4 ++ '-' :: ds.drop 20

/-- The text of a UUID is its hexadecimal digits with hyphens between. -/
theorem toText_eq (u : Uuid) : u.toText = String.ofList (hyphenated (u.bytes.flatMap Hex.pair)) :=
  rfl

theorem length_hyphenated {ds : List Char} (h : ds.length = 32) : (hyphenated ds).length = 36 := by
  simp only [hyphenated, List.length_append, List.length_cons, List.length_take, List.length_drop]
  omega

/-- Hyphens are all that is put between the digits. -/
theorem mem_hyphenated {ds : List Char} {c : Char} (h : c ∈ hyphenated ds) : c = '-' ∨ c ∈ ds := by
  simp only [hyphenated, List.mem_append, List.mem_cons] at h
  have htake : ∀ m n, c ∈ (ds.drop m).take n → c ∈ ds :=
    fun m n hc => List.mem_of_mem_drop (List.mem_of_mem_take hc)
  have hdrop : c ∈ ds.drop 20 → c ∈ ds := List.mem_of_mem_drop
  have hfirst : c ∈ ds.take 8 → c ∈ ds := List.mem_of_mem_take
  grind

/-- The digits are read from between the hyphens.  The lengths of the five runs tell where each
hyphen is. -/
theorem digits?_hyphenated {ds : List Char} (h : ds.length = 32) :
    digits? (hyphenated ds) = some ds := by
  obtain ⟨a, b, c, d, e, rfl, ha, hb, hc, hd⟩ : ∃ a b c d e : List Char,
      ds = a ++ (b ++ (c ++ (d ++ e))) ∧ a.length = 8 ∧ b.length = 4 ∧ c.length = 4 ∧
        d.length = 4 := by
    refine ⟨ds.take 8, (ds.drop 8).take 4, (ds.drop 12).take 4, (ds.drop 16).take 4, ds.drop 20,
      ?_, ?_, ?_, ?_, ?_⟩
    · rw [show ds.drop 20 = (ds.drop 16).drop 4 by rw [List.drop_drop], List.take_append_drop,
        show ds.drop 16 = (ds.drop 12).drop 4 by rw [List.drop_drop], List.take_append_drop,
        show ds.drop 12 = (ds.drop 8).drop 4 by rw [List.drop_drop], List.take_append_drop,
        List.take_append_drop]
    all_goals simp only [List.length_take, List.length_drop]; omega
  have hcs : hyphenated (a ++ (b ++ (c ++ (d ++ e)))) =
      a ++ ('-' :: (b ++ ('-' :: (c ++ ('-' :: (d ++ ('-' :: e))))))) := by
    simp [hyphenated, List.drop_append, List.drop_eq_nil_of_le, ha, hb, hc, hd]
  rw [hcs]
  simp [digits?, List.getElem?_append, List.drop_append, List.drop_eq_nil_of_le, ha, hb, hc, hd]

/-- A UUID is read back from its text.  The reader counts bytes, and all characters are ASCII. -/
theorem parse_toText (u : Uuid) : parse u.toText = .ok u := by
  have hlength : (u.bytes.flatMap Hex.pair).length = 32 := by
    rw [Hex.length_flatMap_pair, u.length_eq]
  have hascii : ∀ c ∈ hyphenated (u.bytes.flatMap Hex.pair), c.utf8Size = 1 := by
    intro c hc
    rcases mem_hyphenated hc with rfl | hc
    · decide
    · exact Hex.utf8Size_of_mem hc
  unfold parse
  rw [toText_eq, Utf8.length_encode_ofList hascii, length_hyphenated hlength,
    if_neg (fun h => h rfl), String.toList_ofList, digits?_hyphenated hlength]
  simp only [Option.bind_some, Hex.decodeChars?_flatMap_pair, dif_pos u.length_eq]

/-- A UUID is read back from its bytes. -/
theorem ofBytes_bytes (u : Uuid) : ofBytes u.bytes = .ok u :=
  dif_pos u.length_eq

theorem lawful_payload : payload.Lawful where
  json u _ := by
    refine ⟨.string u.toText, rfl, ?_⟩
    show lift (parse u.toText) = _
    rw [parse_toText]
    rfl
  cbor u v _ hv := by
    obtain rfl := Except.ok.inj hv
    show lift (ofBytes u.bytes) = _
    rw [ofBytes_bytes]
    rfl

end Uuid

/-! ## Integers -/

namespace TaggedInt

theorem ofInt?_toInt (i : TaggedInt) : ofInt? i.value.toInt = some i := by
  have hlow := i.value.le_toInt
  have hhigh := i.value.toInt_lt
  have hbounds : -(top : Int) - 1 ≤ i.value.toInt ∧ i.value.toInt ≤ top := by
    unfold top
    omega
  unfold ofInt?
  rw [if_pos hbounds, Int64.ofInt_toInt]

theorem ofText_toText (i : TaggedInt) : ofText i.toText = .ok i := by
  have hlow := i.value.le_toInt
  have hhigh := i.value.toInt_lt
  have hread : signed? top (toString i.value.toInt) = .ok i.value.toInt := by
    apply signed?_toString
    all_goals unfold top; omega
  unfold ofText toText
  rw [hread]
  show Except.ok (TaggedInt.mk (Int64.ofInt i.value.toInt)) = _
  rw [Int64.ofInt_toInt]

theorem lawful_payload : payload.Lawful where
  json i _ := ⟨.string i.toText, rfl, ofText_toText i⟩
  cbor i v _ hv := by
    obtain rfl := Except.ok.inj hv
    show ofCbor (.int i.value.toInt) = _
    simp only [ofCbor, ofInt?_toInt]

end TaggedInt

/-! ## Digests

No name of an algorithm holds the semicolon that ends it in the text form. -/

namespace Digest

theorem semicolon_notMem_name (alg : HashAlg) : ∀ c ∈ alg.name.toList, (c != ';') = true := by
  apply List.all_eq_true.1
  cases alg <;> rfl

/-- The text of a digest is the name of its algorithm and its value in base 64. -/
theorem toList_toText (d : Digest) :
    d.toText.toList = d.alg.name.toList ++ ';' :: Base64.encodeChars d.value := by
  show (toString d.alg.name ++ ";" ++ toString (Base64.encode d.value)).toList = _
  simp [Base64.encode, toString]

/-- A digest is read back from its text.  The first semicolon is the one after the name. -/
theorem ofText_toText (d : Digest) : ofText d.toText = .ok d := by
  have hname : d.toText.toList.takeWhile (· != ';') = d.alg.name.toList := by
    rw [toList_toText, List.takeWhile_append_of_pos (semicolon_notMem_name d.alg)]
    simp
  have hvalue : d.toText.toList.drop d.alg.name.toList.length =
      ';' :: Base64.encodeChars d.value := by
    rw [toList_toText, List.drop_left]
  unfold ofText
  simp only [hname, hvalue, String.ofList_toList, HashAlg.ofName?_name,
    Base64.decodeChars?_encodeChars]

theorem natCast_toNat_bounds (n : UInt64) :
    0 ≤ (n.toNat : Int) ∧ (n.toNat : Int) < 18446744073709551616 := by
  have := n.toNat_lt
  omega

theorem ofNat_toNat_natCast (n : UInt64) : UInt64.ofNat (n.toNat : Int).toNat = n := by
  rw [Int.toNat_natCast, UInt64.ofNat_toNat]

/-- A digest is made of a number that names an algorithm. -/
theorem ofParts_of_ofId? {id : Int} {alg : HashAlg} (hb : 0 ≤ id ∧ id < 18446744073709551616)
    (hid : HashAlg.ofId? (UInt64.ofNat id.toNat) = some alg) (value : List UInt8) :
    ofParts id value = .ok ⟨alg, value⟩ := by
  unfold ofParts
  rw [if_pos hb, hid]

theorem ofParts_id (alg : HashAlg) (value : List UInt8) :
    ofParts alg.id.toNat value = .ok ⟨alg, value⟩ := by
  apply ofParts_of_ofId? (natCast_toNat_bounds alg.id)
  rw [ofNat_toNat_natCast, HashAlg.ofId?_id]

theorem ofCbor_parts (id : Int) (value : List UInt8) :
    ofCbor (.array [.int id, .bytes value]) = ofParts id value := rfl

/-- A digest is read back from its binary form. -/
theorem ofCbor_toCbor (d : Digest) : ofCbor d.toCbor = .ok d := by
  unfold toCbor
  rw [ofCbor_parts, ofParts_id]

end Digest

namespace Thumbprint

theorem ofCbor_payload (c : Cbor) :
    payload.ofCbor c = (Digest.ofCbor c).map Thumbprint.mk := rfl

theorem ofJson_payload (text : String) :
    payload.ofJson (.string text) = (Digest.ofText text).map Thumbprint.mk := rfl

theorem lawful_payload : payload.Lawful where
  json t _ := by
    refine ⟨.string t.digest.toText, rfl, ?_⟩
    rw [ofJson_payload, Digest.ofText_toText]
    rfl
  cbor t v _ hv := by
    obtain rfl : t.digest.toCbor = v := Except.ok.inj hv
    rw [ofCbor_payload, Digest.ofCbor_toCbor]
    rfl

end Thumbprint

/-! ## Object identifiers

The text form is refused where the check is; the binary form is refused in one case more. -/

namespace Oid

theorem of_lift {α : Type} {x : Except OidError α} {a : α} (h : lift x = .ok a) : x = .ok a := by
  cases x with
  | error e => cases h
  | ok b => exact congrArg Except.ok (Except.ok.inj h)

/-- An identifier with a binary payload has a binary form. -/
theorem toBer_of_toCbor {oid : Oid} {v : Cbor} (h : payload.toCbor oid = .ok v) :
    ∃ bytes, oid.toBer = .ok bytes ∧ v = .bytes bytes := by
  obtain ⟨bytes, hb, rfl⟩ := exists_of_map_eq_ok (of_lift h)
  exact ⟨bytes, hb, rfl⟩

theorem lawful_payload : payload.Lawful where
  json oid h := by
    have hc : oid.check = .ok () := of_lift h
    refine ⟨.string oid.toText, ?_, ?_⟩
    · show lift (oid.check.map fun _ => Json.string oid.toText) = _
      rw [hc]
      rfl
    · show lift (ofText oid.toText) = _
      rw [ofText_toText hc]
      rfl
  cbor oid v _ hv := by
    obtain ⟨bytes, hb, rfl⟩ := toBer_of_toCbor hv
    show lift (ofBer bytes) = _
    rw [ofBer_of_toBer hb]
    rfl

end Oid

end Rim
