import Rim.Proofs.Cbor.Float
import Rim.Cbor.Order
/-!
# The order of keys

Keys are ordered by their major type, then by a size, then by bytes, so the order of keys is one of
triples and transitive.  Keys may coincide in it without being the same: composite keys whose bytes
agree, and not-a-numbers.  A scalar key coincides with no key but itself.

## Main definitions

* `Cbor.isScalar`: the keys that coincide with no key but themselves.

## Main results

* `Cbor.compare_eq`: the order of keys, part by part.
* `Cbor.compare_lt_trans`: the order of keys is transitive.
* `Cbor.eq_of_compare_eq`: a scalar key coincides with no other one.
-/

namespace Rim.Cbor

/-! ## The order of bytes -/

/-- Byte strings compare as equal if they are the same. -/
theorem compareBytes_eq_eq_iff {a b : List UInt8} : compareBytes a b = .eq ↔ a = b := by
  induction a generalizing b with
  | nil => cases b <;> simp [compareBytes]
  | cons x a ih =>
    cases b with
    | nil => simp [compareBytes]
    | cons y b =>
      rw [compareBytes, Ordering.then_eq_eq, Nat.compare_eq_eq, ih, UInt8.toNat_inj,
        List.cons.injEq]

/-- The order of byte strings is transitive. -/
theorem compareBytes_lt_trans {a b c : List UInt8} (h : compareBytes a b = .lt)
    (h' : compareBytes b c = .lt) : compareBytes a c = .lt := by
  induction a generalizing b c with
  | nil =>
    cases c with
    | nil => cases b <;> cases h'
    | cons _ _ => rfl
  | cons x a ih =>
    cases b with
    | nil => cases h
    | cons y b =>
      cases c with
      | nil => cases h'
      | cons z c =>
        rw [compareBytes, Ordering.then_eq_lt, Nat.compare_eq_lt, Nat.compare_eq_eq] at h h' ⊢
        rcases h with h | ⟨heq, h⟩
        · left
          rcases h' with h' | ⟨heq', -⟩ <;> omega
        · rcases h' with h' | ⟨heq', h'⟩
          · left
            omega
          · exact .inr ⟨heq.trans heq', ih h h'⟩

/-- Of two byte strings that differ, one comes first. -/
theorem compareBytes_gt {a b : List UInt8} (h : compareBytes a b = .gt) :
    compareBytes b a = .lt := by
  induction a generalizing b with
  | nil => cases b <;> cases h
  | cons x a ih =>
    cases b with
    | nil => rfl
    | cons y b =>
      rw [compareBytes, Ordering.then_eq_gt, Nat.compare_eq_gt, Nat.compare_eq_eq] at h
      rw [compareBytes, Ordering.then_eq_lt, Nat.compare_eq_lt, Nat.compare_eq_eq]
      rcases h with h | ⟨heq, h⟩
      · exact .inl h
      · exact .inr ⟨heq.symm, ih h⟩

/-! ## The order of keys -/

/-- What keys of one major type are ordered by first. -/
def size : Cbor → Nat
  | int v => v.natAbs
  | bytes v => v.length
  | text v => (Utf8.encode v).length
  | array items => items.length
  | map entries => entries.length
  | tag _ _ | null | bool _ | float _ => 0

/-- What keys of one major type and size are ordered by. -/
def content : Cbor → List UInt8
  | int _ => []
  | bytes v => v
  | text v => Utf8.encode v
  | x => x.encode

/-- Integers have the first two major types. -/
theorem majorType_int_ne {v : Int} {m : Nat} : (int v).majorType ≠ m + 2 := by
  rw [majorType]
  split <;> omega

/-- The order of keys is that of their major types, sizes and contents. -/
theorem compare_eq (a b : Cbor) :
    compare a b = (Ord.compare a.majorType b.majorType).then
      ((Ord.compare a.size b.size).then (compareBytes a.content b.content)) := by
  unfold compare
  by_cases hmajor : a.majorType = b.majorType
  · congr 1
    cases a with
    | int x =>
      cases b with
      | int y =>
        show Ord.compare x.natAbs y.natAbs = (Ord.compare x.natAbs y.natAbs).then .eq
        cases Ord.compare x.natAbs y.natAbs <;> rfl
      | null | bool _ | float _ | bytes _ | text _ | array _ | map _ | tag _ _ =>
        exact absurd hmajor majorType_int_ne
    | null | bool _ | float _ | bytes _ | text _ | array _ | map _ | tag _ _ =>
      cases b with
      | int y => exact absurd hmajor.symm majorType_int_ne
      | null | bool _ | float _ | bytes _ | text _ | array _ | map _ | tag _ _ =>
        first | rfl | cases hmajor
  · rcases Nat.lt_or_gt_of_ne hmajor with h | h
    · rw [Nat.compare_eq_lt.2 h]
      rfl
    · rw [Nat.compare_eq_gt.2 h]
      rfl

/-- Keys coincide if they agree in every part. -/
theorem compare_eq_eq_iff {a b : Cbor} : compare a b = .eq ↔
    a.majorType = b.majorType ∧ a.size = b.size ∧ a.content = b.content := by
  rw [compare_eq, Ordering.then_eq_eq, Ordering.then_eq_eq, Nat.compare_eq_eq, Nat.compare_eq_eq,
    compareBytes_eq_eq_iff]

/-- Keys that coincide do so both ways. -/
theorem compare_eq_eq_comm {a b : Cbor} : compare a b = .eq ↔ compare b a = .eq := by
  rw [compare_eq_eq_iff, compare_eq_eq_iff, eq_comm, @eq_comm _ a.size, @eq_comm _ a.content]

/-- Keys are ordered by major type, then by length, then byte by byte. -/
theorem compare_eq_lt_iff {a b : Cbor} : compare a b = .lt ↔
    a.majorType < b.majorType ∨ a.majorType = b.majorType ∧
      (a.size < b.size ∨ a.size = b.size ∧ compareBytes a.content b.content = .lt) := by
  rw [compare_eq, Ordering.then_eq_lt, Ordering.then_eq_lt, Nat.compare_eq_lt, Nat.compare_eq_eq,
    Nat.compare_eq_lt, Nat.compare_eq_eq]

/-- The order of keys is transitive. -/
theorem compare_lt_trans {a b c : Cbor} (h : compare a b = .lt) (h' : compare b c = .lt) :
    compare a c = .lt := by
  rw [compare_eq_lt_iff] at h h' ⊢
  rcases h with h | ⟨hmajor, h⟩
  · exact .inl (by rcases h' with h' | ⟨hmajor', -⟩ <;> omega)
  rcases h' with h' | ⟨hmajor', h'⟩
  · exact .inl (by omega)
  refine .inr ⟨hmajor.trans hmajor', ?_⟩
  rcases h with h | ⟨hsize, h⟩
  · exact .inl (by rcases h' with h' | ⟨hsize', -⟩ <;> omega)
  rcases h' with h' | ⟨hsize', h'⟩
  · exact .inl (by omega)
  · exact .inr ⟨hsize.trans hsize', compareBytes_lt_trans h h'⟩

/-- Of two keys that differ, one comes first. -/
theorem compare_gt {a b : Cbor} (h : compare a b = .gt) : compare b a = .lt := by
  rw [compare_eq, Ordering.then_eq_gt, Ordering.then_eq_gt, Nat.compare_eq_gt, Nat.compare_eq_eq,
    Nat.compare_eq_gt, Nat.compare_eq_eq] at h
  rw [compare_eq_lt_iff]
  rcases h with h | ⟨hmajor, h | ⟨hsize, h⟩⟩
  · exact .inl h
  · exact .inr ⟨hmajor.symm, .inl h⟩
  · exact .inr ⟨hmajor.symm, .inr ⟨hsize.symm, compareBytes_gt h⟩⟩

/-! ## Scalar keys -/

/-- Whether a key is a scalar: neither composite nor a not-a-number. -/
def isScalar : Cbor → Bool
  | array _ | map _ | tag _ _ => false
  | float bits => !BinaryFormat.double.isNaN bits.toNat
  | _ => true

/-- A float begins with a byte of its own. -/
theorem exists_encodeFloat (bits : UInt64) :
    ∃ b tail, encodeFloat bits = b :: tail ∧ (b = 0xf9 ∨ b = 0xfa ∨ b = 0xfb) := by
  by_cases hnan : BinaryFormat.double.isNaN bits.toNat
  · exact ⟨_, _, if_pos hnan, .inl rfl⟩
  · rcases encodeFloat_cases hnan with ⟨k, -, h⟩ | ⟨k, -, h⟩ | h
    · exact ⟨_, _, h, .inl rfl⟩
    · exact ⟨_, _, h, .inr (.inl rfl)⟩
    · exact ⟨_, _, h, .inr (.inr rfl)⟩

theorem encodeFloat_ne {bits : UInt64} {b : UInt8} (hb : b ≠ 0xf9 ∧ b ≠ 0xfa ∧ b ≠ 0xfb) :
    encodeFloat bits ≠ [b] := by
  obtain ⟨b', tail, heq, hb'⟩ := exists_encodeFloat bits
  intro h
  rw [heq] at h
  obtain rfl := (List.cons.inj h).1
  rcases hb' with rfl | rfl | rfl
  · exact hb.1 rfl
  · exact hb.2.1 rfl
  · exact hb.2.2 rfl

/-- The items that are written under the last major type. -/
theorem exists_of_majorType_eq_seven {x : Cbor} (h : x.majorType = 7) :
    x = .null ∨ (∃ b, x = .bool b) ∨ ∃ bits, x = .float bits := by
  cases x with
  | null => exact .inl rfl
  | bool b => exact .inr (.inl ⟨b, rfl⟩)
  | float bits => exact .inr (.inr ⟨bits, rfl⟩)
  | int v => exact absurd h majorType_int_ne
  | bytes _ | text _ | array _ | map _ | tag _ _ => cases h

/-- A simple item is told by its bytes, unless it is a not-a-number. -/
theorem eq_of_encode_eq {a b : Cbor} (ha : a.isScalar) (hmajor : a.majorType = 7)
    (hmajor' : b.majorType = 7) (h : a.encode = b.encode) : a = b := by
  rcases exists_of_majorType_eq_seven hmajor with rfl | ⟨v, rfl⟩ | ⟨bits, rfl⟩ <;>
    rcases exists_of_majorType_eq_seven hmajor' with rfl | ⟨w, rfl⟩ | ⟨bits', rfl⟩
  · rfl
  · cases w <;> cases h
  · exact absurd h.symm (encodeFloat_ne (by decide))
  · cases v <;> cases h
  · cases v <;> cases w <;> first | rfl | cases h
  · cases v <;> exact absurd h.symm (encodeFloat_ne (by decide))
  · exact absurd h (encodeFloat_ne (by decide))
  · cases w <;> exact absurd h (encodeFloat_ne (by decide))
  · exact congrArg float (encodeFloat_inj (by simpa [isScalar] using ha) h)

/-- A scalar key coincides with no key but itself. -/
theorem eq_of_compare_eq {a b : Cbor} (ha : a.isScalar) (h : compare a b = .eq) : a = b := by
  obtain ⟨hmajor, hsize, hcontent⟩ := compare_eq_eq_iff.1 h
  cases a with
  | int x =>
    cases b with
    | int y =>
      have hsize : x.natAbs = y.natAbs := hsize
      rw [majorType, majorType] at hmajor
      congr 1
      split at hmajor <;> split at hmajor <;> omega
    | null | bool _ | float _ | bytes _ | text _ | array _ | map _ | tag _ _ =>
      exact absurd hmajor majorType_int_ne
  | bytes x =>
    cases b with
    | bytes y => exact congrArg bytes hcontent
    | int y => exact absurd hmajor.symm majorType_int_ne
    | null | bool _ | float _ | text _ | array _ | map _ | tag _ _ => cases hmajor
  | text x =>
    cases b with
    | text y => exact congrArg text (Utf8.encode_inj hcontent)
    | int y => exact absurd hmajor.symm majorType_int_ne
    | null | bool _ | float _ | bytes _ | array _ | map _ | tag _ _ => cases hmajor
  | null | bool _ | float _ =>
    cases b with
    | null | bool _ | float _ => exact eq_of_encode_eq ha rfl rfl hcontent
    | int y => exact absurd hmajor.symm majorType_int_ne
    | bytes _ | text _ | array _ | map _ | tag _ _ => cases hmajor
  | array _ | map _ | tag _ _ => cases ha

end Rim.Cbor
