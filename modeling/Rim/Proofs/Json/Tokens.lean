import Rim.Proofs.Decimal
import Rim.Proofs.Basic
import Rim.Json.Reader
import Rim.Json.Writer
/-!
# Tokens are read back

The reader consumes strings and numerals from the front exactly as the writer put them there, and
skips what stands between them.  Only a numeral depends on what comes after it: it must not be
continued.

## Main definitions

* `Json.Ends`: what may follow a value.
* `Json.Begins`: how a value begins.
* `Json.Closes`: what closes a container.

## Main results

* `Json.readString?_afterQuote`, `Json.readNumber?_int`: strings and integers are read back.
-/

namespace Rim.Json

/-- What may follow a value: anything that continues no number. -/
def Ends (rest : List Char) : Prop :=
  ∀ c ∈ rest.head?, isDigit c = false ∧ c ≠ '.' ∧ c ≠ 'e' ∧ c ≠ 'E'

theorem ends_nil : Ends [] := by
  intro c hc
  cases hc

theorem ends_cons {c : Char} (rest : List Char)
    (h : isDigit c = false ∧ c ≠ '.' ∧ c ≠ 'e' ∧ c ≠ 'E') : Ends (c :: rest) := by
  intro b hb
  cases hb
  exact h

/-! ## Strings

An escape is read as the character it stands for, and every other character stands for itself. -/

theorem readUnit?_control {c : Char} (h : c.toNat < 0x20) (rest : List Char) :
    readUnit? ('0' :: '0' :: Hex.digit (c.toNat / 16) :: Hex.digit (c.toNat % 16) :: rest) =
      some (c.toNat, rest) := by
  have hzero : Hex.value? '0' = some 0 := by decide
  have hhigh := Hex.value?_digit (show c.toNat / 16 < 16 by omega)
  have hlow := Hex.value?_digit (show c.toNat % 16 < 16 by omega)
  unfold readUnit?
  simp only [hzero, hhigh, hlow, Option.bind_eq_bind, Option.bind_some, Option.pure_def]
  rw [show ((0 * 16 + 0) * 16 + c.toNat / 16) * 16 + c.toNat % 16 = c.toNat by omega]

theorem readEscape?_control {c : Char} (h : c.toNat < 0x20) (rest : List Char) :
    readEscape?
      ('u' :: '0' :: '0' :: Hex.digit (c.toNat / 16) :: Hex.digit (c.toNat % 16) :: rest) =
      some (c, rest) := by
  show readEscapedUnit? _ = _
  unfold readEscapedUnit?
  rw [readUnit?_control h]
  simp only [Option.bind_eq_bind, Option.bind_some]
  rw [if_neg (by omega), if_neg (by omega), Char.ofNat_toNat]
  rfl

theorem readChars?_escape {c : Char} {cs rest : List Char} (h : readEscape? cs = some (c, rest))
    (fuel : Nat) (taken : List Char) :
    readChars? (fuel + 1) taken ('\\' :: cs) = readChars? fuel (c :: taken) rest := by
  rw [readChars?, if_neg (by decide), if_pos rfl, h]

/-- A character is read back from its escaped form.  Control characters go by number. -/
theorem readChars?_escapeChar (fuel : Nat) (taken : List Char) (c : Char) (rest : List Char) :
    readChars? (fuel + 1) taken (escapeChar c ++ rest) = readChars? fuel (c :: taken) rest := by
  unfold escapeChar
  split
  case h_8 hquote hslash _ _ _ _ _ =>
    split
    case isTrue h => exact readChars?_escape (readEscape?_control h rest) fuel taken
    case isFalse h =>
      show readChars? (fuel + 1) taken (c :: rest) = _
      rw [readChars?, if_neg (by simpa using hquote), if_neg (by simpa using hslash), if_neg h]
  all_goals exact readChars?_escape rfl fuel taken

/-- Characters are read back from their escaped forms. -/
theorem readChars?_flatMap {fuel : Nat} {cs : List Char} (hfuel : cs.length < fuel)
    (taken rest : List Char) :
    readChars? fuel taken (cs.flatMap escapeChar ++ '"' :: rest) =
      some (taken.reverse ++ cs, rest) := by
  induction cs generalizing fuel taken with
  | nil =>
    obtain ⟨fuel, rfl⟩ : ∃ k, fuel = k + 1 := ⟨fuel - 1, by simp at hfuel; omega⟩
    rw [List.append_nil]
    rfl
  | cons c cs ih =>
    rw [List.length_cons] at hfuel
    obtain ⟨fuel, rfl⟩ : ∃ k, fuel = k + 1 := ⟨fuel - 1, by omega⟩
    rw [List.flatMap_cons, List.append_assoc, readChars?_escapeChar, ih (by omega),
      List.reverse_cons, List.append_assoc]
    rfl

theorem length_escapeChar_pos (c : Char) : 0 < (escapeChar c).length := by
  unfold escapeChar
  split
  case h_8 => split <;> simp
  all_goals simp

/-- The characters of a string after its opening quote. -/
def afterQuote (text : String) : List Char := text.toList.flatMap escapeChar ++ ['"']

/-- A text is read back from between its quotes. -/
theorem readString?_afterQuote (text : String) (rest : List Char) :
    readString? (afterQuote text ++ rest) = some (text, rest) := by
  have hlen : text.toList.length ≤ (text.toList.flatMap escapeChar).length :=
    length_le_length_flatMap fun c _ => length_escapeChar_pos c
  unfold readString? afterQuote
  rw [List.append_assoc, List.singleton_append, readChars?_flatMap ?_ [] rest]
  · simp
  · rw [List.length_append]
    omega

/-! ## Numbers

A numeral fills the significand, and what ends a value leaves no fraction and no exponent. -/

theorem gather_cons {s t d : Nat} {c : Char} (hc : digitValue? c = some d)
    (hs : 10 * s + d ≤ significandTop) (rest : List Char) :
    gather s t (c :: rest) = gather (10 * s + d) (t + 1) rest := by
  rw [gather, hc]
  exact if_pos hs

/-- The digits of a number that fits are gathered into it. -/
theorem gather_numeral {n : Nat} (h : n ≤ significandTop) (rest : List Char) :
    gather 0 0 (numeral n ++ rest) = gather n (numeral n).length rest := by
  induction n using numeral_induction generalizing rest with
  | digit n hn =>
    rw [numeral_of_lt hn, List.singleton_append,
      gather_cons (digitValue?_digitChar hn) (by omega), Nat.mul_zero, Nat.zero_add]
    rfl
  | more n hn ih =>
    have hd := digitValue?_digitChar (Nat.mod_lt n (by decide : 0 < 10))
    have hn' : 10 * (n / 10) + n % 10 = n := Nat.div_add_mod n 10
    rw [numeral_of_le hn, List.append_assoc, ih (by omega), List.singleton_append,
      gather_cons hd (by omega), hn', List.length_append, List.length_singleton]

theorem gather_ends {rest : List Char} (h : Ends rest) (s t : Nat) :
    gather s t rest = (s, t, rest) := by
  cases rest with
  | nil => rfl
  | cons c rest =>
    have hc : digitValue? c = none := by
      have := (h c rfl).1
      rwa [isDigit, Option.isSome_eq_false_iff, Option.isNone_iff_eq_none] at this
    rw [gather, hc]

/-- A whole part is read from the numeral of a number that fits. -/
theorem readInteger?_numeral {n : Nat} (h : n ≤ significandTop) {rest : List Char}
    (hrest : Ends rest) : readInteger? (numeral n ++ rest) = some (n, 0, rest) := by
  have hnot : ∀ c ∈ rest.head?, isDigit c = false := fun c hc => (hrest c hc).1
  have hany : rest.head?.any isDigit = false := by
    cases rest with
    | nil => rfl
    | cons c rest => exact hnot c rfl
  have htake : rest.takeWhile isDigit = [] := by
    cases rest with
    | nil => rfl
    | cons c rest => rw [List.takeWhile_cons, hnot c rfl]; rfl
  have hdrop : rest.dropWhile isDigit = rest := by
    cases rest with
    | nil => rfl
    | cons c rest => rw [List.dropWhile_cons, hnot c rfl]; rfl
  by_cases hzero : n = 0
  · subst hzero
    show (if rest.head?.any isDigit then none else some (0, 0, rest)) = _
    rw [hany]
    rfl
  · obtain ⟨c, cs, hn, -⟩ := exists_numeral_eq_cons n
    have hhead := head?_numeral_ne_zero (Nat.pos_of_ne_zero hzero)
    have hgather := gather_numeral h rest
    rw [hn, List.head?_cons, ne_eq, Option.some_inj] at hhead
    rw [gather_ends hrest, hn] at hgather
    rw [hn]
    unfold readInteger?
    split
    case h_1 heq =>
      rw [List.cons_append] at heq
      exact absurd (List.cons.inj heq).1 hhead
    case h_2 =>
      rw [hgather]
      simp only [List.length_cons, Nat.add_one_ne_zero, if_false, htake, hdrop, List.length_nil]

theorem readFraction?_ends {rest : List Char} (h : Ends rest) (s : Nat) :
    readFraction? s rest = some (s, 0, false, rest) := by
  unfold readFraction?
  split
  case h_1 => exact absurd rfl (h '.' rfl).2.1
  case h_2 => rfl

theorem readExponent?_ends {rest : List Char} (h : Ends rest) :
    readExponent? rest = some (none, rest) := by
  cases rest with
  | nil => rfl
  | cons c rest =>
    have hc : ¬ (c = 'e' ∨ c = 'E') := by
      rintro (rfl | rfl)
      · exact (h 'e' rfl).2.2.1 rfl
      · exact (h 'E' rfl).2.2.2 rfl
    unfold readExponent?
    exact if_neg hc

/-- A numeral without fraction and exponent is read as a whole number. -/
theorem readUnsigned?_numeral {negative : Bool} {n : Nat} {v : Json} (h : n ≤ significandTop)
    (hv : wholeNumber? negative n = some v) {rest : List Char} (hrest : Ends rest) :
    readUnsigned? negative (numeral n ++ rest) = some (v, rest) := by
  unfold readUnsigned?
  simp only [readInteger?_numeral h hrest, readFraction?_ends hrest, readExponent?_ends hrest, hv,
    Option.bind_eq_bind, Option.bind_some, Option.pure_def]
  rfl

/-- Integers of 64 bits are read from their numerals, which have a sign for negative ones only. -/
theorem readNumber?_int {v : Int} (low : -9223372036854775808 ≤ v)
    (high : v < 18446744073709551616) {rest : List Char} (hrest : Ends rest) :
    readNumber? ((toString v).toList ++ rest) = some (int v, rest) := by
  cases v with
  | ofNat n =>
    obtain ⟨c, cs, hn, hc⟩ := exists_numeral_eq_cons n
    have hminus : c ≠ '-' := by rintro rfl; exact absurd hc (by decide)
    have hhigh : (n : Int) < 18446744073709551616 := high
    have hle : n ≤ significandTop := by
      unfold significandTop
      omega
    have hread : readUnsigned? false (numeral n ++ rest) = some (int n, rest) :=
      readUnsigned?_numeral hle rfl hrest
    show readNumber? ((toString (n : Int)).toList ++ rest) = _
    rw [toList_toString_ofNat]
    rw [hn] at hread ⊢
    unfold readNumber?
    split
    case h_1 heq =>
      rw [List.cons_append] at heq
      exact absurd (List.cons.inj heq).1 hminus
    case h_2 => exact hread
  | negSucc n =>
    have hle : n + 1 ≤ 9223372036854775808 := by omega
    have hwhole : wholeNumber? true (n + 1) = some (int (Int.negSucc n)) := by
      unfold wholeNumber?
      rw [if_neg (by decide), if_pos ⟨Nat.succ_pos n, hle⟩, Int.negSucc_eq, Int.natCast_succ]
    have htop : n + 1 ≤ significandTop := by
      unfold significandTop
      omega
    rw [toList_toString_negSucc, List.cons_append]
    exact readUnsigned?_numeral htop hwhole hrest

/-! ## Layout

Line breaks are skipped, and no part of a container begins with a space or with what would close the
container. -/

theorem skipSpace_of_not_space {c : Char} (h : isSpace c = false) (cs : List Char) :
    skipSpace (c :: cs) = c :: cs := by
  rw [skipSpace, List.dropWhile_cons, h]
  rfl

theorem skipSpace_spaces (count : Nat) (cs : List Char) :
    skipSpace (List.replicate count ' ' ++ cs) = skipSpace cs := by
  induction count with
  | zero => rfl
  | succ k ih => exact ih

/-- How what is written of a value begins. -/
def Begins (cs : List Char) : Prop :=
  ∃ c rest, cs = c :: rest ∧ isSpace c = false ∧ c ≠ ']' ∧ c ≠ '\x7d'

theorem begins_of_digit {c : Char} (h : (digitValue? c).isSome) (rest : List Char) :
    Begins (c :: rest) := by
  have hspace : isSpace c = false := by
    rw [isSpace, Bool.or_eq_false_iff, Bool.or_eq_false_iff, Bool.or_eq_false_iff]
    refine ⟨⟨⟨?_, ?_⟩, ?_⟩, ?_⟩
    all_goals
      rw [beq_eq_false_iff_ne]
      rintro rfl
      exact absurd h (by decide)
  refine ⟨c, rest, rfl, hspace, ?_, ?_⟩
  all_goals
    rintro rfl
    exact absurd h (by decide)

/-! ## Containers -/

/-- What closes a container. -/
structure Closes (close : Char) : Prop where
  space : isSpace close = false
  comma : close ≠ ','
  ends : isDigit close = false ∧ close ≠ '.' ∧ close ≠ 'e' ∧ close ≠ 'E'
  before : ∀ cs, Begins cs → cs.head? ≠ some close

theorem closes_array : Closes ']' where
  space := by decide
  comma := by decide
  ends := by decide
  before := by
    rintro cs ⟨c, rest, rfl, -, hc, -⟩ heq
    exact hc (Option.some.inj heq)

theorem closes_object : Closes '\x7d' where
  space := by decide
  comma := by decide
  ends := by decide
  before := by
    rintro cs ⟨c, rest, rfl, -, -, hc⟩ heq
    exact hc (Option.some.inj heq)

theorem ends_lineBreak {close : Char} (hclose : Closes close) (level : Option Nat)
    (rest : List Char) :
    Ends (lineBreak level ++ close :: rest) := by
  cases level with
  | none => exact ends_cons rest hclose.ends
  | some level => exact ends_cons _ (by decide)

/-! ## Values without content -/

theorem readValue?_of_begins {budget : Nat} {cs : List Char}
    (h : cs.head? ≠ some '[' ∧ cs.head? ≠ some '\x7b') :
    readValue? budget cs = readPlain? cs := by
  cases budget with
  | zero => rw [readValue?, if_neg (not_or.2 h)]
  | succ budget =>
    rw [readValue?]
    · rintro rest rfl
      exact h.1 rfl
    · rintro rest rfl
      exact h.2 rfl

theorem readPlain?_number {c : Char} (h : c = '-' ∨ (digitValue? c).isSome) (cs : List Char) :
    readPlain? (c :: cs) = readNumber? (c :: cs) := by
  have hne : c ≠ 'n' ∧ c ≠ 't' ∧ c ≠ 'f' ∧ c ≠ '"' := by
    refine ⟨?_, ?_, ?_, ?_⟩
    all_goals
      rintro rfl
      revert h
      decide
  unfold readPlain?
  split
  case h_5 => rfl
  case h_1 heq => exact absurd (List.cons.inj heq).1 hne.1
  case h_2 heq => exact absurd (List.cons.inj heq).1 hne.2.1
  case h_3 heq => exact absurd (List.cons.inj heq).1 hne.2.2.1
  case h_4 heq => exact absurd (List.cons.inj heq).1 hne.2.2.2

/-- What begins with a digit or a sign is read as a number. -/
theorem readValue?_number {budget : Nat} {c : Char} (h : c = '-' ∨ (digitValue? c).isSome)
    (cs : List Char) : readValue? budget (c :: cs) = readNumber? (c :: cs) := by
  rw [readValue?_of_begins, readPlain?_number h]
  constructor
  all_goals
    intro heq
    obtain rfl := Option.some.inj heq
    revert h
    decide

end Rim.Json
