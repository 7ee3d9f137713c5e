import Mathlib.Algebra.Group.Nat.Defs
import Mathlib.Order.Monotone.Basic
import Rim.Cbor.Reader
import Rim.Cbor.Writer
/-!
# Floats are told apart by their bytes

A magnitude of a binary format stands for a multiple of the least number of the format, and a
greater magnitude for a greater multiple.  A number is therefore written narrower by one pattern
only, and its bytes tell its bits.  The bytes of a not-a-number tell nothing of its payload.

## Main results

* `BinaryFormat.strictMono_multiple`: the order of magnitudes is that of their numbers.
* `Cbor.encodeFloat_inj`: two floats with the same bytes are the same, unless one is a not-a-number.
-/

namespace Rim

namespace BinaryFormat

variable {f : BinaryFormat} {m n : Nat}

/-! ## Numbers of a format -/

/-- How many times the least number of its format a magnitude stands for. -/
def multiple (f : BinaryFormat) (magnitude : Nat) : Nat :=
  f.significand magnitude * 2 ^ (magnitude / 2 ^ f.fractionBits - 1)

/-- The significand has a leading one unless the number is subnormal. -/
theorem significand_eq (f : BinaryFormat) (m : Nat) :
    f.significand m = if m / 2 ^ f.fractionBits = 0 then m % 2 ^ f.fractionBits
      else 2 ^ f.fractionBits + m % 2 ^ f.fractionBits := by
  have hpos : 0 < 2 ^ f.fractionBits := Nat.two_pow_pos _
  simp only [significand, Nat.pow_eq, Nat.div_eq_zero_iff_lt hpos]

/-- A magnitude with the exponent field `e` stands for less than those with greater fields. -/
theorem multiple_lt (f : BinaryFormat) (m : Nat) :
    f.multiple m < 2 ^ f.fractionBits * 2 ^ (m / 2 ^ f.fractionBits) := by
  have hmod : m % 2 ^ f.fractionBits < 2 ^ f.fractionBits := Nat.mod_lt _ (Nat.two_pow_pos _)
  rw [multiple, significand_eq]
  by_cases hzero : m / 2 ^ f.fractionBits = 0
  · rw [if_pos hzero, hzero, Nat.zero_sub]
    exact Nat.mul_lt_mul_of_pos_right hmod (Nat.two_pow_pos 0)
  · obtain ⟨e, he⟩ := Nat.exists_eq_succ_of_ne_zero hzero
    rw [if_neg hzero, he, Nat.succ_sub_one, Nat.pow_succ', ← Nat.mul_assoc]
    exact Nat.mul_lt_mul_of_pos_right (by omega) (Nat.two_pow_pos e)

theorem le_multiple (hm : 2 ^ f.fractionBits ≤ m) :
    2 ^ f.fractionBits * 2 ^ (m / 2 ^ f.fractionBits - 1) ≤ f.multiple m := by
  have hpos : m / 2 ^ f.fractionBits ≠ 0 := (Nat.div_pos hm (Nat.two_pow_pos _)).ne'
  rw [multiple, significand_eq, if_neg hpos]
  exact Nat.mul_le_mul_right _ (Nat.le_add_right _ _)

/-- A greater magnitude stands for a greater number. -/
theorem strictMono_multiple (f : BinaryFormat) : StrictMono f.multiple := by
  intro m n h
  have hm := Nat.div_add_mod m (2 ^ f.fractionBits)
  have hn := Nat.div_add_mod n (2 ^ f.fractionBits)
  have hfields : m / 2 ^ f.fractionBits ≤ n / 2 ^ f.fractionBits := Nat.div_le_div_right h.le
  rcases Nat.eq_or_lt_of_le hfields with heq | hlt
  · -- The fields agree, so the fractions decide.
    have hfractions : m % 2 ^ f.fractionBits < n % 2 ^ f.fractionBits := by
      rw [heq] at hm
      exact Nat.lt_of_add_lt_add_left (hm.trans_lt (h.trans_eq hn.symm))
    rw [multiple, multiple, significand_eq, significand_eq, heq]
    apply Nat.mul_lt_mul_of_pos_right _ (Nat.two_pow_pos _)
    split
    · exact hfractions
    · exact Nat.add_lt_add_left hfractions _
  · have hone : 2 ^ f.fractionBits ≤ n :=
      (Nat.div_ne_zero_iff.1 (Nat.ne_zero_of_lt hlt)).2
    calc f.multiple m < 2 ^ f.fractionBits * 2 ^ (m / 2 ^ f.fractionBits) := multiple_lt f m
      _ ≤ 2 ^ f.fractionBits * 2 ^ (n / 2 ^ f.fractionBits - 1) :=
        Nat.mul_le_mul_left _ (Nat.pow_le_pow_right (by decide) (Nat.le_sub_one_of_lt hlt))
      _ ≤ f.multiple n := le_multiple hone

/-- The ratio of a magnitude is its multiple of the least number. -/
theorem ratio_eq (hf : f.leastScale ≤ 0) (m : Nat) :
    (f.ratio m).1 * 2 ^ (-f.leastScale).toNat = f.multiple m * (f.ratio m).2 := by
  simp only [ratio, multiple, scale, Nat.pow_eq, Nat.mul_assoc, ← Nat.pow_add]
  congr 2
  omega

theorem ratio_den_pos (f : BinaryFormat) (m : Nat) : 0 < (f.ratio m).2 := Nat.two_pow_pos _

/-- A magnitude is told by its ratio. -/
theorem eq_of_ratio_eq (hf : f.leastScale ≤ 0)
    (h : (f.ratio m).1 * (f.ratio n).2 = (f.ratio n).1 * (f.ratio m).2) : m = n := by
  apply (strictMono_multiple f).injective
  apply Nat.eq_of_mul_eq_mul_right (Nat.mul_pos (ratio_den_pos f m) (ratio_den_pos f n))
  calc f.multiple m * ((f.ratio m).2 * (f.ratio n).2)
      = (f.ratio m).1 * (f.ratio n).2 * 2 ^ (-f.leastScale).toNat := by
        rw [← Nat.mul_assoc, ← ratio_eq hf, Nat.mul_right_comm]
    _ = (f.ratio n).1 * (f.ratio m).2 * 2 ^ (-f.leastScale).toNat := by rw [h]
    _ = f.multiple n * ((f.ratio m).2 * (f.ratio n).2) := by
        rw [Nat.mul_comm (f.ratio m).2, ← Nat.mul_assoc, ← ratio_eq hf, Nat.mul_right_comm]

/-- The nearest pattern of a format is that of a finite number. -/
theorem nearest?_lt {num den : Nat} (hf : 0 < f.infinity) (h : f.nearest? num den = some n) :
    n < f.infinity := by
  rw [nearest?] at h
  by_cases hnum : num = 0
  · rw [if_pos hnum] at h
    obtain rfl := Option.some.inj h
    exact hf
  · rw [if_neg hnum] at h
    obtain ⟨hlt, h⟩ := Option.ite_none_right_eq_some.1 h
    obtain rfl := Option.some.inj h
    exact hlt

theorem infinity_le_signBit (f : BinaryFormat) : f.infinity ≤ f.signBit :=
  Nat.mul_le_mul_right _ (Nat.le_succ _)

end BinaryFormat

namespace Double

open BinaryFormat

variable {f : BinaryFormat} {a b : UInt64} {k : Nat}

/-- Patterns of one sign and one magnitude are the same. -/
theorem eq_of_magnitude_eq (hsign : double.isNegative a.toNat = double.isNegative b.toNat)
    (h : double.magnitude a.toNat = double.magnitude b.toNat) : a = b := by
  have hbit : double.signBit = 9223372036854775808 := by decide
  have ha := a.toNat_lt
  have hb := b.toNat_lt
  rw [isNegative, isNegative, hbit, decide_eq_decide] at hsign
  rw [magnitude, magnitude, hbit] at h
  apply UInt64.toNat_inj.1
  omega

/-- The sign a pattern of a format has if a double has it. -/
def signIn (f : BinaryFormat) (bits : UInt64) : Nat :=
  if double.isNegative bits.toNat then f.signBit else 0

/-- A pattern tells its sign and its magnitude. -/
theorem signIn_add_inj {m n : Nat} (hm : m < f.signBit) (hn : n < f.signBit)
    (h : signIn f a + m = signIn f b + n) :
    double.isNegative a.toNat = double.isNegative b.toNat ∧ m = n := by
  unfold signIn at h
  generalize double.isNegative a.toNat = s at h ⊢
  generalize double.isNegative b.toNat = t at h ⊢
  cases s <;> cases t <;> simp only [if_true, if_false, Bool.false_eq_true] at h
  · exact ⟨rfl, by omega⟩
  · omega
  · omega
  · exact ⟨rfl, by omega⟩

/-- A narrower pattern has the sign and the ratio of the double. -/
theorem exists_of_narrow? (hf : 0 < f.infinity) (h : narrow? f a = some k) :
    ∃ n, n < f.infinity ∧ k = signIn f a + n ∧
      (double.ratio (double.magnitude a.toNat)).1 * (f.ratio n).2 =
        (f.ratio n).1 * (double.ratio (double.magnitude a.toNat)).2 := by
  unfold narrow? at h
  obtain ⟨-, h⟩ := Option.ite_none_right_eq_some.1 h
  dsimp only at h
  cases hnearest : f.nearest? (double.ratio (double.magnitude a.toNat)).1
    (double.ratio (double.magnitude a.toNat)).2 with
  | none =>
    rw [hnearest] at h
    cases h
  | some n =>
    rw [hnearest] at h
    obtain ⟨hratio, h⟩ := Option.ite_none_right_eq_some.1 h
    exact ⟨n, nearest?_lt hf hnearest, (Option.some.inj h).symm, hratio⟩

/-- Patterns with the same narrower form have the same ratio. -/
theorem narrow?_inj (hf : 0 < f.infinity) (ha : narrow? f a = some k) (hb : narrow? f b = some k) :
    a = b := by
  obtain ⟨m, hm, hk, hratio⟩ := exists_of_narrow? hf ha
  obtain ⟨n, hn, hk', hratio'⟩ := exists_of_narrow? hf hb
  have hle := infinity_le_signBit f
  obtain ⟨hsign, rfl⟩ := signIn_add_inj (hm.trans_le hle) (hn.trans_le hle) (hk.symm.trans hk')
  refine eq_of_magnitude_eq hsign (eq_of_ratio_eq (f := double) (by decide) ?_)
  apply Nat.eq_of_mul_eq_mul_right (ratio_den_pos f m)
  rw [Nat.mul_right_comm, hratio, Nat.mul_right_comm, Nat.mul_right_comm _ _ (f.ratio m).2, hratio',
    Nat.mul_right_comm]

end Double

namespace Cbor

open BinaryFormat Double

variable {a b : UInt64} {k : Nat}

/-! ## Big-endian numbers -/

theorem foldl_beValue (l : List UInt8) (v : Nat) :
    l.foldl (fun n b => 256 * n + b.toNat) v = v * 256 ^ l.length + beValue l := by
  induction l generalizing v with
  | nil => simp [beValue]
  | cons b rest ih =>
    have hv : beValue (b :: rest) = b.toNat * 256 ^ rest.length + beValue rest := by
      show rest.foldl _ (256 * 0 + b.toNat) = _
      rw [ih]
      simp
    rw [List.foldl_cons, ih, hv, List.length_cons, Nat.pow_succ]
    grind

/-- The first byte counts for a power of 256. -/
theorem beValue_cons (b : UInt8) (l : List UInt8) :
    beValue (b :: l) = b.toNat * 256 ^ l.length + beValue l := by
  show l.foldl (fun n b => 256 * n + b.toNat) (256 * 0 + b.toNat) = _
  rw [Nat.mul_zero, Nat.zero_add, foldl_beValue]

/-- A number is read back from its bytes. -/
theorem beValue_bigEndian (count n : Nat) : beValue (bigEndian count n) = n % 256 ^ count := by
  induction count with
  | zero =>
    rw [Nat.pow_zero, Nat.mod_one]
    rfl
  | succ k ih =>
    have hb : (UInt8.ofNat (n / Nat.pow 256 k)).toNat = n / 256 ^ k % 256 := by
      rw [UInt8.toNat_ofNat']
      rfl
    rw [bigEndian, beValue_cons, ih, hb, length_bigEndian, Nat.pow_succ, Nat.mod_mul]
    grind

/-! ## Bytes of floats -/

/-- Numbers of one width are told by their bytes. -/
theorem bigEndian_inj {count m n : Nat} (hm : m < 256 ^ count) (hn : n < 256 ^ count)
    (h : bigEndian count m = bigEndian count n) : m = n := by
  have hvalue := congrArg beValue h
  rwa [beValue_bigEndian, beValue_bigEndian, Nat.mod_eq_of_lt hm, Nat.mod_eq_of_lt hn] at hvalue

/-- A pattern of two bytes that a float is written as which is not a not-a-number: an infinity, or
the same number. -/
def IsHalf (bits : UInt64) (k : Nat) : Prop :=
  ∃ m, k = signIn .half bits + m ∧
    (m = half.infinity ∧ double.magnitude bits.toNat = double.infinity ∨
      m < half.infinity ∧ narrow? .half bits = some k)

theorem IsHalf.eq (ha : IsHalf a k) (hb : IsHalf b k) : a = b := by
  have hlt : half.infinity < half.signBit := by decide
  obtain ⟨m, hk, ha⟩ := ha
  obtain ⟨n, hk', hb⟩ := hb
  have hm : m ≤ half.infinity := by omega
  have hn : n ≤ half.infinity := by omega
  obtain ⟨hsign, rfl⟩ :=
    signIn_add_inj (hm.trans_lt hlt) (hn.trans_lt hlt) (hk.symm.trans hk')
  rcases ha with ⟨hinfinite, ha⟩ | ⟨hfinite, ha⟩
  · rcases hb with ⟨-, hb⟩ | ⟨hfinite, -⟩
    · exact eq_of_magnitude_eq hsign (ha.trans hb.symm)
    · omega
  · rcases hb with ⟨hinfinite, -⟩ | ⟨-, hb⟩
    · omega
    · exact narrow?_inj (by decide) ha hb

theorem IsHalf.lt (h : IsHalf a k) : k < 256 ^ 2 := by
  have hinfinity : half.infinity = 31744 := by decide
  have hsignBit : half.signBit = 32768 := by decide
  obtain ⟨m, rfl, h⟩ := h
  unfold signIn
  split <;> omega

/-- The pattern of a not-a-number is that of no other float. -/
theorem not_isHalf_nan (bits : UInt64) : ¬ IsHalf bits 0x7e00 := by
  have hinfinity : half.infinity = 31744 := by decide
  have hsignBit : half.signBit = 32768 := by decide
  rintro ⟨m, hk, h⟩
  unfold signIn at hk
  split at hk <;> omega

theorem narrow?_single_lt (h : narrow? .single a = some k) : k < 256 ^ 4 := by
  have hinfinity : single.infinity = 2139095040 := by decide
  have hsignBit : single.signBit = 2147483648 := by decide
  obtain ⟨m, hm, rfl, -⟩ := exists_of_narrow? (by decide) h
  unfold signIn
  split <;> omega

/-- A float that is not a not-a-number is written in one of three widths. -/
theorem encodeFloat_cases (h : ¬ double.isNaN a.toNat) :
    (∃ k, IsHalf a k ∧ encodeFloat a = 0xf9 :: bigEndian 2 k) ∨
      (∃ k, narrow? .single a = some k ∧ encodeFloat a = 0xfa :: bigEndian 4 k) ∨
        encodeFloat a = 0xfb :: bigEndian 8 a.toNat := by
  unfold encodeFloat
  rw [if_neg h]
  by_cases hfinite : double.isFinite a.toNat
  · rw [if_neg (by simp [hfinite])]
    cases hhalf : narrow? .half a with
    | some k =>
      obtain ⟨m, hm, hk, -⟩ := exists_of_narrow? (by decide) hhalf
      exact .inl ⟨k, ⟨m, hk, .inr ⟨hm, hhalf⟩⟩, rfl⟩
    | none =>
      cases hsingle : narrow? .single a with
      | some k => exact .inr (.inl ⟨k, rfl, rfl⟩)
      | none => exact .inr (.inr rfl)
  · rw [if_pos (by simp [hfinite])]
    have hinfinite : double.magnitude a.toNat = double.infinity := by
      simp only [isNaN, isFinite, decide_eq_true_eq] at h hfinite
      omega
    refine .inl ⟨_, ⟨half.infinity, ?_, .inl ⟨rfl, hinfinite⟩⟩, rfl⟩
    exact Nat.add_comm _ _

/-- The bytes of a float tell its bits, unless it is a not-a-number. -/
theorem encodeFloat_inj (ha : ¬ double.isNaN a.toNat) (h : encodeFloat a = encodeFloat b) :
    a = b := by
  by_cases hb : double.isNaN b.toNat
  · have hnan : encodeFloat b = 0xf9 :: bigEndian 2 0x7e00 := if_pos hb
    rw [hnan] at h
    rcases encodeFloat_cases ha with ⟨k, hk, heq⟩ | ⟨k, -, heq⟩ | heq <;> rw [heq] at h
    · have hpattern := bigEndian_inj hk.lt (by decide) (List.cons.inj h).2
      exact absurd (hpattern ▸ hk) (not_isHalf_nan a)
    · cases (List.cons.inj h).1
    · cases (List.cons.inj h).1
  rcases encodeFloat_cases ha with ⟨k, hk, heq⟩ | ⟨k, hk, heq⟩ | heq <;>
    rcases encodeFloat_cases hb with ⟨k', hk', heq'⟩ | ⟨k', hk', heq'⟩ | heq' <;>
    rw [heq, heq'] at h
  all_goals first | exact absurd (List.cons.inj h).1 (by decide) | have htail := (List.cons.inj h).2
  · exact (bigEndian_inj hk.lt hk'.lt htail ▸ hk).eq hk'
  · have hpattern := bigEndian_inj (narrow?_single_lt hk) (narrow?_single_lt hk') htail
    exact narrow?_inj (by decide) (hpattern ▸ hk) hk'
  · exact UInt64.toNat_inj.1 (bigEndian_inj a.toNat_lt b.toNat_lt htail)

end Cbor

end Rim
