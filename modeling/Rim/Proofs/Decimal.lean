import Rim.Number.Parse
/-!
# Decimal numerals

Whole numbers are written by the standard numerals, without leading zeros, and read digit by digit
under a bound.  A numeral that stands before other characters is read up to where it ends, so the
facts about reading are stated with what follows; the readers differ only in what they make of the
rest.

## Main results

* `readDigits_numeral`: a numeral is read as its number, if all numbers up to it are in range.
* `natural?_toString`, `signed?_toString`: what is written within a range is read back.
-/

namespace Rim

/-- The characters of the decimal numeral of a number. -/
def numeral (n : Nat) : List Char := Nat.toDigits 10 n

/-! ## The shape of numerals

A numeral of more than one digit is that of a tenth of the number and one more digit, which is the
induction of everything below. -/

theorem numeral_of_lt {n : Nat} (h : n < 10) : numeral n = [Nat.digitChar n] :=
  Nat.toDigits_of_lt_base h

theorem numeral_of_le {n : Nat} (h : 10 ≤ n) :
    numeral n = numeral (n / 10) ++ [Nat.digitChar (n % 10)] :=
  Nat.toDigits_of_base_le (by decide) h

theorem numeral_ne_nil (n : Nat) : numeral n ≠ [] := Nat.toDigits_ne_nil

@[simp] theorem toList_toString_nat (n : Nat) : (toString n).toList = numeral n := by
  rw [Nat.toString_eq_repr, Nat.toList_repr, numeral]

theorem digitValue?_digitChar {d : Nat} (h : d < 10) : digitValue? (Nat.digitChar d) = some d := by
  have key : ∀ e : Fin 10, digitValue? (Nat.digitChar e) = some e.val := by decide
  exact key ⟨d, h⟩

/-- An induction over numerals: the one-digit ones, and those with one more digit. -/
theorem numeral_induction {P : Nat → Prop} (digit : ∀ n < 10, P n)
    (more : ∀ n, 10 ≤ n → P (n / 10) → P n) (n : Nat) : P n := by
  induction n using Nat.strongRecOn with
  | ind n ih =>
    by_cases h : n < 10
    · exact digit n h
    · exact more n (by omega) (ih (n / 10) (by omega))

theorem digitValue?_of_mem_numeral {n : Nat} {c : Char} (h : c ∈ numeral n) :
    (digitValue? c).isSome := by
  induction n using numeral_induction with
  | digit n hn =>
    rw [numeral_of_lt hn, List.mem_singleton] at h
    rw [h, digitValue?_digitChar hn]
    rfl
  | more n hn ih =>
    rw [numeral_of_le hn, List.mem_append, List.mem_singleton] at h
    rcases h with h | rfl
    · exact ih h
    · rw [digitValue?_digitChar (Nat.mod_lt n (by decide))]
      rfl

/-- Only the numeral of zero begins with a zero.  The numeral begins with the first digit of the
tenth, and the tenth is not zero either. -/
theorem head?_numeral_ne_zero {n : Nat} (h : 0 < n) : (numeral n).head? ≠ some '0' := by
  induction n using numeral_induction with
  | digit n hn =>
    rw [numeral_of_lt hn, List.head?_cons, ne_eq, Option.some_inj, Nat.digitChar_eq_zero]
    omega
  | more n hn ih =>
    obtain ⟨c, cs, hc⟩ := List.exists_cons_of_ne_nil (numeral_ne_nil (n / 10))
    rw [numeral_of_le hn, hc, List.cons_append, List.head?_cons]
    rw [hc, List.head?_cons] at ih
    exact ih (by omega)

/-! ## Reading

The digits read so far spell a number that is no greater than the whole, so a range that is closed
downwards refuses none of them. -/

theorem readDigits_cons {range : Nat → Bool} {overflow : IntegerError} {v d : Nat} {c : Char}
    (hc : digitValue? c = some d) (hr : range (10 * v + d) = true) (rest : List Char) :
    readDigits range overflow v (c :: rest) = readDigits range overflow (10 * v + d) rest := by
  rw [readDigits, hc]
  exact if_pos hr

/-- A numeral is read as its number, whatever follows.  The tenth is read first, and the last digit
goes onto it. -/
theorem readDigits_numeral {range : Nat → Bool} (overflow : IntegerError) {n : Nat}
    (hr : ∀ m ≤ n, range m = true) (rest : List Char) :
    readDigits range overflow 0 (numeral n ++ rest) = readDigits range overflow n rest := by
  induction n using numeral_induction generalizing rest with
  | digit n hn =>
    rw [numeral_of_lt hn, List.singleton_append,
      readDigits_cons (digitValue?_digitChar hn) (hr _ (by omega)), Nat.mul_zero, Nat.zero_add]
  | more n hn ih =>
    have hd := digitValue?_digitChar (Nat.mod_lt n (by decide : 0 < 10))
    have hn' : 10 * (n / 10) + n % 10 = n := Nat.div_add_mod n 10
    rw [numeral_of_le hn, List.append_assoc, ih (fun m hm => hr m (by omega)),
      List.singleton_append, readDigits_cons hd (hr _ (by omega)), hn']

/-- A natural number is read back from its decimal text. -/
theorem natural?_toString {top n : Nat} (h : n ≤ top) : natural? top (toString n) = .ok n := by
  have hr : ∀ m ≤ n, decide (m ≤ top) = true := by
    intro m hm
    exact decide_eq_true (by omega)
  have hread := readDigits_numeral .tooLarge hr []
  rw [List.append_nil] at hread
  unfold natural?
  rw [toList_toString_nat]
  split
  case h_1 hnil => exact absurd hnil (numeral_ne_nil n)
  case h_2 => exact hread

/-! ## Signs

A numeral begins with a digit, so what is read of it depends on a sign before it and on nothing
else. -/

theorem exists_numeral_eq_cons (n : Nat) :
    ∃ c cs, numeral n = c :: cs ∧ (digitValue? c).isSome := by
  cases h : numeral n with
  | nil => exact absurd h (numeral_ne_nil n)
  | cons c cs =>
    refine ⟨c, cs, rfl, ?_⟩
    exact digitValue?_of_mem_numeral (n := n) (h ▸ List.mem_cons_self)

theorem signed?_of_digit {top n : Nat} {text : String} {c : Char} {cs : List Char}
    (ht : text.toList = c :: cs) (hc : (digitValue? c).isSome)
    (hread : readDigits (fun m => m ≤ top) .tooLarge 0 (c :: cs) = .ok n) :
    signed? top text = .ok n := by
  have hplus : c ≠ '+' := by rintro rfl; exact absurd hc (by decide)
  have hminus : c ≠ '-' := by rintro rfl; exact absurd hc (by decide)
  unfold signed?
  rw [ht]
  split
  case h_6 => rw [hread]; rfl
  all_goals simp_all

theorem signed?_of_minus {top n : Nat} {text : String} {c : Char} {cs : List Char}
    (ht : text.toList = '-' :: c :: cs)
    (hread : readDigits (fun m => m ≤ top + 1) .tooSmall 0 (c :: cs) = .ok n) :
    signed? top text = .ok (-(n : Int)) := by
  unfold signed?
  rw [ht]
  simp only [hread]
  rfl

@[simp] theorem toList_toString_ofNat (n : Nat) : (toString (n : Int)).toList = numeral n :=
  toList_toString_nat n

@[simp] theorem toList_toString_negSucc (n : Nat) :
    (toString (Int.negSucc n)).toList = '-' :: numeral (n + 1) := by
  show ("-" ++ toString (n + 1)).toList = _
  rw [String.toList_append, toList_toString_nat]
  rfl

/-- What is written of an integer within the bounds is read as that integer.  Below zero there is
one number more, so the magnitude is read under `top + 1`. -/
theorem signed?_toString {top : Nat} {v : Int} (low : -(top : Int) - 1 ≤ v) (high : v ≤ top) :
    signed? top (toString v) = .ok v := by
  cases v with
  | ofNat n =>
    obtain ⟨c, cs, hn, hc⟩ := exists_numeral_eq_cons n
    have hle : n ≤ top := Int.ofNat_le.1 high
    have hr : ∀ m ≤ n, decide (m ≤ top) = true := by
      intro m hm
      exact decide_eq_true (by omega)
    have hread := readDigits_numeral .tooLarge hr []
    rw [List.append_nil, hn] at hread
    exact signed?_of_digit ((toList_toString_ofNat n).trans hn) hc hread
  | negSucc n =>
    obtain ⟨c, cs, hn, -⟩ := exists_numeral_eq_cons (n + 1)
    have hr : ∀ m ≤ n + 1, decide (m ≤ top + 1) = true := by
      intro m hm
      exact decide_eq_true (by omega)
    have hread := readDigits_numeral .tooSmall hr []
    rw [List.append_nil, hn] at hread
    exact signed?_of_minus (by rw [toList_toString_negSucc, hn]) hread

end Rim
