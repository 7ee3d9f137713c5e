/-!
# Text as bytes

A text travels as its UTF-8 encoding, a list of bytes.

## Main definitions

* `Utf8.encode`: the bytes of a text.
* `Utf8.decode?`: the text some bytes encode; ill-formed bytes encode none.
-/

namespace Rim.Utf8

/-- The bytes of a text. -/
def encode (text : String) : List UInt8 :=
  text.toByteArray.data.toList

/-- The text some bytes encode. -/
def decode? (bytes : List UInt8) : Option String :=
  String.fromUTF8? ⟨bytes.toArray⟩

theorem decode?_encode (text : String) : decode? (encode text) = some text := by
  have h : (⟨text.toByteArray.data.toList.toArray⟩ : ByteArray) = text.toByteArray := by
    cases text.toByteArray; simp
  unfold decode? encode
  rw [h]
  simp [String.fromUTF8?, String.fromUTF8, text.isValidUTF8]

theorem encode_of_decode? {bytes : List UInt8} {text : String} (h : decode? bytes = some text) :
    encode text = bytes := by
  unfold decode? String.fromUTF8? at h
  split at h
  · cases h; rfl
  · cases h

/-- Well-formed bytes encode one text, and each text has one encoding. -/
theorem decode?_eq_some_iff {bytes : List UInt8} {text : String} :
    decode? bytes = some text ↔ bytes = encode text :=
  ⟨fun h => (encode_of_decode? h).symm, fun h => h ▸ decode?_encode text⟩

theorem encode_inj {s t : String} (h : encode s = encode t) : s = t :=
  Option.some.inj ((decode?_encode s).symm.trans (decode?_eq_some_iff.2 h))

end Rim.Utf8
