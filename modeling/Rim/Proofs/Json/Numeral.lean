import Rim.Proofs.Json.Tokens
/-!
# Numerals

A numeral is a sign, digits without a leading zero, an optional fraction and an optional exponent.
Its digits fill a 64-bit significand from the left; whole digits that no longer fit raise the
exponent, further decimals are dropped.  The reader takes a numeral as far as it goes, so what
follows it must not continue it.

## Main definitions

* `Json.Numeral`: numerals, with `Json.Numeral.text`.
* `Json.Numeral.value?`: the number of a numeral, if it is in the range of doubles.

## Main results

* `Json.exists_of_readNumber?`, `Json.readNumber?_text`: the reader takes numerals and nothing else.
-/

namespace Rim.Json

/-! ## Digits -/

/-- A run of decimal digits. -/
structure Digits where
  chars : List Char
  ne_nil : chars ≠ []
  digits : ∀ c ∈ chars, isDigit c = true

/-- No digit stands at the front of a text. -/
def NoDigit (rest : List Char) : Prop := ∀ c ∈ rest.head?, isDigit c = false

/-- How far digits fit after a significand: what it grows to, and how many they are. -/
def fill (significand : Nat) : List Nat → Nat × Nat
  | [] => (significand, 0)
  | d :: ds =>
    if 10 * significand + d ≤ significandTop then
      ((fill (10 * significand + d) ds).1, (fill (10 * significand + d) ds).2 + 1)
    else (significand, 0)

namespace Digits

/-- The values of digits. -/
def values (ds : Digits) : List Nat := ds.chars.filterMap digitValue?

/-- The number digits spell. -/
def number (ds : Digits) : Nat := foldDigits 0 ds.values

theorem exists_eq_cons (ds : Digits) : ∃ c cs, ds.chars = c :: cs ∧ isDigit c = true := by
  cases h : ds.chars with
  | nil => exact absurd h ds.ne_nil
  | cons c cs => exact ⟨c, cs, rfl, ds.digits c (h ▸ List.mem_cons_self)⟩

theorem isDigit_of_append_eq_cons (ds : Digits) {rest tail : List Char} {c : Char}
    (h : ds.chars ++ rest = c :: tail) : isDigit c = true := by
  obtain ⟨d, cs, hchars, hd⟩ := ds.exists_eq_cons
  rw [hchars] at h
  rwa [← (List.cons.inj h).1]

end Digits

theorem Ends.noDigit {rest : List Char} (h : Ends rest) : NoDigit rest := fun c hc => (h c hc).1

section Split

variable {input rest : List Char}

theorem noDigit_dropWhile (input : List Char) : NoDigit (input.dropWhile isDigit) := by
  intro c hc
  have h := List.head?_dropWhile_not isDigit input
  rw [hc] at h
  exact h

/-- The digits at the front of a text, if there are any. -/
theorem exists_digits (h : input.head?.any isDigit = true) :
    ∃ (ds : Digits) (more : List Char), input = ds.chars ++ more ∧ NoDigit more := by
  cases input with
  | nil => cases h
  | cons c cs =>
    have hc : isDigit c = true := h
    refine ⟨⟨(c :: cs).takeWhile isDigit, ?_, List.all_eq_true.1 List.all_takeWhile⟩,
      (c :: cs).dropWhile isDigit, List.takeWhile_append_dropWhile.symm, noDigit_dropWhile _⟩
    rw [List.takeWhile_cons_of_pos hc]
    exact List.cons_ne_nil _ _

variable {chars : List Char} (hchars : ∀ c ∈ chars, isDigit c = true) (hrest : NoDigit rest)

include hchars hrest

theorem takeWhile_digits : (chars ++ rest).takeWhile isDigit = chars := by
  have hnone : rest.takeWhile isDigit = [] := by
    cases rest with
    | nil => rfl
    | cons c rest => rw [List.takeWhile_cons, hrest c rfl]; rfl
  rw [List.takeWhile_append_of_pos hchars, hnone, List.append_nil]

theorem dropWhile_digits : (chars ++ rest).dropWhile isDigit = rest := by
  have hall : rest.dropWhile isDigit = rest := by
    cases rest with
    | nil => rfl
    | cons c rest => rw [List.dropWhile_cons, hrest c rfl]; rfl
  rw [List.dropWhile_append_of_pos hchars, hall]

/-- Digits are gathered while they fit. -/
theorem gather_digits (s t : Nat) :
    gather s t (chars ++ rest) =
      ((fill s (chars.filterMap digitValue?)).1, t + (fill s (chars.filterMap digitValue?)).2,
        chars.drop (fill s (chars.filterMap digitValue?)).2 ++ rest) := by
  induction chars generalizing s t with
  | nil =>
    cases rest with
    | nil => rfl
    | cons c rest =>
      have hc : digitValue? c = none := by
        simpa [isDigit] using hrest c rfl
      rw [List.nil_append, gather, hc]
      rfl
  | cons c chars ih =>
    obtain ⟨hc, hchars⟩ := List.forall_mem_cons.1 hchars
    obtain ⟨d, hd⟩ := Option.isSome_iff_exists.1 hc
    rw [List.cons_append, gather, hd, List.filterMap_cons_some hd, fill]
    dsimp only
    by_cases hfits : 10 * s + d ≤ significandTop
    · rw [if_pos hfits, if_pos hfits, ih hchars, List.drop_succ_cons, Nat.add_assoc,
        Nat.add_comm 1]
    · rw [if_neg hfits, if_neg hfits]
      rfl

end Split

/-! ## Numerals -/

/-- The sign of an exponent. -/
inductive PowerSign where
  | bare
  | plus
  | minus

namespace PowerSign

/-- The text of a sign. -/
def text : PowerSign → List Char
  | bare => []
  | plus => ['+']
  | minus => ['-']

/-- What a sign makes of a number. -/
def factor : PowerSign → Int
  | bare | plus => 1
  | minus => -1

end PowerSign

/-- An exponent. -/
structure Exponent where
  mark : Char
  isMark : mark = 'e' ∨ mark = 'E'
  sign : PowerSign
  digits : Digits

namespace Exponent

/-- The text of an exponent. -/
def text (e : Exponent) : List Char := e.mark :: (e.sign.text ++ e.digits.chars)

/-- The power of ten of an exponent. -/
def power (e : Exponent) : Int := e.sign.factor * e.digits.number

end Exponent

/-- A number as it is written. -/
structure Numeral where
  negative : Bool
  whole : Digits
  noLeadingZero : whole.chars.head? = some '0' → whole.chars = ['0']
  fraction : Option Digits
  exponent : Option Exponent

namespace Numeral

/-- The text of an optional fraction. -/
def fractionText : Option Digits → List Char
  | none => []
  | some ds => '.' :: ds.chars

/-- The text of an optional exponent. -/
def exponentText : Option Exponent → List Char
  | none => []
  | some e => e.text

/-- The text of a numeral after its sign. -/
def unsignedText (x : Numeral) : List Char :=
  x.whole.chars ++ (fractionText x.fraction ++ exponentText x.exponent)

/-- The text of a numeral. -/
def text (x : Numeral) : List Char :=
  if x.negative then '-' :: x.unsignedText else x.unsignedText

/-- How far the whole digits fit the significand. -/
def wholeFill (x : Numeral) : Nat × Nat := fill 0 x.whole.values

/-- How far the decimals fit after the whole digits. -/
def fractionFill (x : Numeral) : Nat × Nat :=
  match x.fraction with
  | none => (x.wholeFill.1, 0)
  | some ds => fill x.wholeFill.1 ds.values

/-- The whole digits that do not fit. -/
def dropped (x : Numeral) : Nat := x.whole.chars.length - x.wholeFill.2

/-- The power of ten that the significand is taken with. -/
def shift (x : Numeral) : Int :=
  (x.dropped : Int) - (x.fractionFill.2 : Int) + (x.exponent.map Exponent.power).getD 0

/-- The number of a numeral: a whole one if it is written as one and fits the significand, and else
the double of its parts. -/
def value? (x : Numeral) : Option Json :=
  if x.dropped = 0 && !x.fraction.isSome && x.exponent.isNone then
    wholeNumber? x.negative x.fractionFill.1
  else (doubleOfParts? x.negative x.fractionFill.1 x.shift).map float

end Numeral

/-! ## Parts of a numeral -/

section Parts

variable {input rest : List Char} {s : Nat}

theorem fill_pos {d : Nat} (hd : d < 10) (ds : List Nat) : (fill 0 (d :: ds)).2 ≠ 0 := by
  rw [fill, if_pos]
  · exact Nat.succ_ne_zero _
  · unfold significandTop
    omega

theorem digitValue?_lt {c : Char} {d : Nat} (h : digitValue? c = some d) : d < 10 := by
  unfold digitValue? at h
  obtain ⟨⟨-, hle⟩, h⟩ := Option.ite_none_right_eq_some.1 h
  have hle : c.toNat ≤ 57 := hle
  obtain rfl := Option.some.inj h
  omega

theorem head?_any_of_noDigit (h : NoDigit rest) : rest.head?.any isDigit = false := by
  cases rest with
  | nil => rfl
  | cons c rest => exact h c rfl

theorem noDigit_of_head?_any (h : ¬ input.head?.any isDigit = true) : NoDigit input := by
  intro c hc
  rw [hc] at h
  exact Bool.eq_false_iff.2 h

theorem readInteger?_digits (ds : Digits)
    (hzero : ds.chars.head? = some '0' → ds.chars = ['0']) (hrest : NoDigit rest) :
    readInteger? (ds.chars ++ rest) =
      some ((fill 0 ds.values).1, ds.chars.length - (fill 0 ds.values).2, rest) := by
  obtain ⟨c, cs, hchars, hc⟩ := ds.exists_eq_cons
  by_cases hfirst : c = '0'
  · have hone : ds.chars = ['0'] := hzero (by rw [hchars, hfirst]; rfl)
    have hvalues : ds.values = [0] := by rw [Digits.values, hone]; rfl
    rw [hvalues, hone]
    show (if rest.head?.any isDigit then none else some (0, 0, rest)) = _
    rw [head?_any_of_noDigit hrest]
    rfl
  · obtain ⟨d, hd⟩ := Option.isSome_iff_exists.1 hc
    have htaken : (fill 0 ds.values).2 ≠ 0 := by
      rw [Digits.values, hchars, List.filterMap_cons_some hd]
      exact fill_pos (digitValue?_lt hd) _
    have hdrop : ∀ b ∈ ds.chars.drop (fill 0 ds.values).2, isDigit b = true := fun b hb =>
      ds.digits b (List.mem_of_mem_drop hb)
    unfold readInteger?
    split
    case h_1 heq =>
      rw [hchars, List.cons_append] at heq
      exact absurd (List.cons.inj heq).1 hfirst
    case h_2 =>
      rw [gather_digits ds.digits hrest 0 0]
      dsimp only
      rw [Nat.zero_add, ← Digits.values, if_neg htaken, takeWhile_digits hdrop hrest,
        dropWhile_digits hdrop hrest, List.length_drop]

theorem readInteger?_of_noDigit (h : NoDigit input) : readInteger? input = none := by
  unfold readInteger?
  split
  case h_1 => exact absurd (h '0' rfl) (by decide)
  case h_2 =>
    have hgather : gather 0 0 ([] ++ input) = _ := gather_digits (List.forall_mem_nil _) h 0 0
    rw [List.nil_append] at hgather
    rw [hgather]
    rfl

/-- The whole part that is read is a run of digits without a leading zero. -/
theorem exists_of_readInteger? {dropped : Nat} (h : readInteger? input = some (s, dropped, rest)) :
    ∃ ds : Digits, (ds.chars.head? = some '0' → ds.chars = ['0']) ∧ input = ds.chars ++ rest ∧
      s = (fill 0 ds.values).1 ∧ dropped = ds.chars.length - (fill 0 ds.values).2 := by
  by_cases hfront : input.head?.any isDigit = true
  · obtain ⟨ds, more, rfl, hmore⟩ := exists_digits hfront
    refine ⟨ds, ?_⟩
    by_cases hzero : ds.chars.head? = some '0' → ds.chars = ['0']
    · rw [readInteger?_digits ds hzero hmore] at h
      obtain ⟨rfl, hrest⟩ := Prod.mk.inj (Option.some.inj h)
      obtain ⟨rfl, rfl⟩ := Prod.mk.inj hrest
      exact ⟨hzero, rfl, rfl, rfl⟩
    · -- A zero before other digits is refused.
      obtain ⟨hhead, hmany⟩ := Classical.not_imp.1 hzero
      obtain ⟨cs, hchars⟩ := List.head?_eq_some_iff.1 hhead
      cases cs with
      | nil => exact absurd hchars hmany
      | cons c cs =>
        have hc : isDigit c = true := ds.digits c (by rw [hchars]; simp)
        rw [hchars] at h
        have hnone : readInteger? ('0' :: c :: cs ++ more) = none := if_pos hc
        rw [hnone] at h
        cases h
  · rw [readInteger?_of_noDigit (noDigit_of_head?_any hfront)] at h
    cases h

theorem readFraction?_digits (ds : Digits) (hrest : NoDigit rest) :
    readFraction? s ('.' :: (ds.chars ++ rest)) =
      some ((fill s ds.values).1, (fill s ds.values).2, true, rest) := by
  obtain ⟨c, cs, hchars, hc⟩ := ds.exists_eq_cons
  have hfront : (ds.chars ++ rest).head?.any isDigit = true := by rw [hchars]; exact hc
  have hdrop : ∀ b ∈ ds.chars.drop (fill s ds.values).2, isDigit b = true := fun b hb =>
    ds.digits b (List.mem_of_mem_drop hb)
  rw [readFraction?, if_pos hfront, gather_digits ds.digits hrest s 0]
  dsimp only
  rw [Nat.zero_add, ← Digits.values, dropWhile_digits hdrop hrest]

theorem readFraction?_none (h : rest.head? ≠ some '.') :
    readFraction? s rest = some (s, 0, false, rest) := by
  unfold readFraction?
  split
  case h_1 => exact absurd rfl h
  case h_2 => rfl

/-- The fraction that is read, if any, is a point and a run of digits. -/
theorem exists_of_readFraction? {n decimals : Nat} {found : Bool}
    (h : readFraction? s input = some (n, decimals, found, rest)) :
    ∃ fraction : Option Digits, input = Numeral.fractionText fraction ++ rest ∧
      found = fraction.isSome ∧
      (n, decimals) = match fraction with
        | none => (s, 0)
        | some ds => fill s ds.values := by
  by_cases hpoint : input.head? = some '.'
  · obtain ⟨cs, rfl⟩ := List.head?_eq_some_iff.1 hpoint
    by_cases hfront : cs.head?.any isDigit = true
    · obtain ⟨ds, more, rfl, hmore⟩ := exists_digits hfront
      rw [readFraction?_digits ds hmore] at h
      simp only [Option.some.injEq, Prod.mk.injEq] at h
      obtain ⟨rfl, rfl, rfl, rfl⟩ := h
      exact ⟨some ds, rfl, rfl, rfl⟩
    · rw [readFraction?, if_neg hfront] at h
      cases h
  · rw [readFraction?_none hpoint] at h
    simp only [Option.some.injEq, Prod.mk.injEq] at h
    obtain ⟨rfl, rfl, rfl, rfl⟩ := h
    exact ⟨none, rfl, rfl, rfl⟩

theorem readPower?_digits (sign : Int) (ds : Digits) (hrest : NoDigit rest) :
    readPower? sign (ds.chars ++ rest) = some (sign * ds.number, rest) := by
  obtain ⟨c, cs, hchars, hc⟩ := ds.exists_eq_cons
  have hfront : (ds.chars ++ rest).head?.any isDigit = true := by rw [hchars]; exact hc
  rw [readPower?, if_pos hfront, takeWhile_digits ds.digits hrest, dropWhile_digits ds.digits hrest]
  rfl

/-- The power that is read is a run of digits. -/
theorem exists_of_readPower? {sign power : Int} (h : readPower? sign input = some (power, rest)) :
    ∃ ds : Digits, input = ds.chars ++ rest ∧ power = sign * ds.number := by
  by_cases hfront : input.head?.any isDigit = true
  · obtain ⟨ds, more, rfl, hmore⟩ := exists_digits hfront
    rw [readPower?_digits sign ds hmore] at h
    obtain ⟨rfl, rfl⟩ := Prod.mk.inj (Option.some.inj h)
    exact ⟨ds, rfl, rfl⟩
  · rw [readPower?, if_neg hfront] at h
    cases h

/-- An exponent is read from its text. -/
theorem readExponent?_text (e : Exponent) (hrest : NoDigit rest) :
    readExponent? (e.text ++ rest) = some (some e.power, rest) := by
  obtain ⟨mark, hmark, sign, ds⟩ := e
  have hpower := readPower?_digits sign.factor ds hrest
  show (if mark = 'e' ∨ mark = 'E' then _ else _) = _
  rw [if_pos hmark]
  cases sign with
  | plus =>
    show (readPower? PowerSign.plus.factor (ds.chars ++ rest)).map _ = _
    rw [hpower]
    rfl
  | minus =>
    show (readPower? PowerSign.minus.factor (ds.chars ++ rest)).map _ = _
    rw [hpower]
    rfl
  | bare =>
    split
    case h_1 heq => exact absurd (ds.isDigit_of_append_eq_cons heq) (by decide)
    case h_2 heq => exact absurd (ds.isDigit_of_append_eq_cons heq) (by decide)
    case h_3 =>
      show (readPower? PowerSign.bare.factor (ds.chars ++ rest)).map _ = _
      rw [hpower]
      rfl

/-- The exponent that is read, if any, is a sign and a run of digits. -/
theorem exists_of_readExponent? {power : Option Int}
    (h : readExponent? input = some (power, rest)) :
    ∃ exponent : Option Exponent, input = Numeral.exponentText exponent ++ rest ∧
      power = exponent.map Exponent.power := by
  cases input with
  | nil =>
    obtain ⟨rfl, rfl⟩ := Prod.mk.inj (Option.some.inj h)
    exact ⟨none, rfl, rfl⟩
  | cons c cs =>
    unfold readExponent? at h
    dsimp only at h
    by_cases hmark : c = 'e' ∨ c = 'E'
    · rw [if_pos hmark] at h
      have hsign : ∀ (sign : PowerSign) {tail : List Char}, cs = sign.text ++ tail →
          (readPower? sign.factor tail).map (fun p => (some p.1, p.2)) = some (power, rest) →
          ∃ exponent : Option Exponent, c :: cs = Numeral.exponentText exponent ++ rest ∧
            power = exponent.map Exponent.power := by
        intro sign tail hcs hpower
        obtain ⟨⟨p, more⟩, hread, heq⟩ := Option.map_eq_some_iff.1 hpower
        obtain ⟨rfl, rfl⟩ := Prod.mk.inj heq
        obtain ⟨ds, rfl, rfl⟩ := exists_of_readPower? hread
        refine ⟨some ⟨c, hmark, sign, ds⟩, ?_, rfl⟩
        rw [hcs, Numeral.exponentText, Exponent.text, List.cons_append, List.append_assoc]
      split at h
      case h_1 tail => exact hsign .plus rfl h
      case h_2 tail => exact hsign .minus rfl h
      case h_3 => exact hsign .bare rfl h
    · rw [if_neg hmark] at h
      obtain ⟨rfl, rfl⟩ := Prod.mk.inj (Option.some.inj h)
      exact ⟨none, rfl, rfl⟩

end Parts

/-! ## Whole numerals -/

section Numerals

variable {input rest : List Char}

theorem Exponent.noDigit_text (e : Exponent) (rest : List Char) : NoDigit (e.text ++ rest) := by
  intro c hc
  obtain rfl := Option.some.inj hc
  rcases e.isMark with h | h <;> rw [h] <;> decide

/-- What follows the digits of a fraction, or its place, continues neither. -/
theorem exponentText_front (exponent : Option Exponent) (hrest : Ends rest) :
    NoDigit (Numeral.exponentText exponent ++ rest) ∧
      (Numeral.exponentText exponent ++ rest).head? ≠ some '.' := by
  cases exponent with
  | none => exact ⟨hrest.noDigit, fun h => (hrest '.' h).2.1 rfl⟩
  | some e =>
    refine ⟨e.noDigit_text rest, fun h => ?_⟩
    have hmark : e.mark = '.' := Option.some.inj h
    have hmarks := e.isMark
    rw [hmark] at hmarks
    exact absurd hmarks (by decide)

/-- A numeral that nothing continues is read with its number. -/
theorem readUnsigned?_text (x : Numeral) (hrest : Ends rest) :
    readUnsigned? x.negative (x.unsignedText ++ rest) = x.value?.map fun v => (v, rest) := by
  obtain ⟨hdigits, hpoint⟩ := exponentText_front x.exponent hrest
  have hwhole : NoDigit (Numeral.fractionText x.fraction ++
      (Numeral.exponentText x.exponent ++ rest)) := by
    cases x.fraction with
    | none => exact hdigits
    | some ds =>
      intro c hc
      obtain rfl := Option.some.inj hc
      decide
  have hfraction : readFraction? x.wholeFill.1 (Numeral.fractionText x.fraction ++
      (Numeral.exponentText x.exponent ++ rest)) = some (x.fractionFill.1, x.fractionFill.2,
        x.fraction.isSome, Numeral.exponentText x.exponent ++ rest) := by
    unfold Numeral.fractionFill
    cases x.fraction with
    | none => exact readFraction?_none hpoint
    | some ds => exact readFraction?_digits ds hdigits
  have hexponent : readExponent? (Numeral.exponentText x.exponent ++ rest) =
      some (x.exponent.map Exponent.power, rest) := by
    cases x.exponent with
    | none => exact readExponent?_ends hrest
    | some e => exact readExponent?_text e hrest.noDigit
  have hinteger : readInteger? (x.unsignedText ++ rest) = some (x.wholeFill.1, x.dropped,
      Numeral.fractionText x.fraction ++ (Numeral.exponentText x.exponent ++ rest)) := by
    rw [Numeral.unsignedText, List.append_assoc, List.append_assoc]
    exact readInteger?_digits x.whole x.noLeadingZero hwhole
  unfold readUnsigned? Numeral.value?
  simp only [hinteger, hfraction, hexponent, Option.bind_eq_bind, Option.bind_some,
    Option.isNone_map]
  split
  · cases wholeNumber? x.negative x.fractionFill.1 <;> rfl
  · show (doubleOfParts? x.negative x.fractionFill.1 x.shift).bind _ = _
    cases doubleOfParts? x.negative x.fractionFill.1 x.shift <;> rfl

/-- What is read is a numeral with its number. -/
theorem exists_of_readUnsigned? {negative : Bool} {v : Json}
    (h : readUnsigned? negative input = some (v, rest)) :
    ∃ x : Numeral, x.negative = negative ∧ input = x.unsignedText ++ rest ∧ x.value? = some v := by
  obtain ⟨⟨significand, dropped, afterWhole⟩, hinteger, h⟩ := Option.bind_eq_some_iff.1 h
  obtain ⟨⟨n, decimals, found, afterFraction⟩, hfraction, h⟩ := Option.bind_eq_some_iff.1 h
  obtain ⟨⟨power, more⟩, hexponent, h⟩ := Option.bind_eq_some_iff.1 h
  obtain ⟨whole, hzero, rfl, rfl, rfl⟩ := exists_of_readInteger? hinteger
  obtain ⟨fraction, rfl, rfl, hfill⟩ := exists_of_readFraction? hfraction
  obtain ⟨exponent, rfl, rfl⟩ := exists_of_readExponent? hexponent
  let x : Numeral := ⟨negative, whole, hzero, fraction, exponent⟩
  have hfill : (n, decimals) = x.fractionFill := hfill
  have hn : n = x.fractionFill.1 := congrArg Prod.fst hfill
  have hdecimals : decimals = x.fractionFill.2 := congrArg Prod.snd hfill
  have hvalue : x.value? =
      if x.dropped = 0 && !x.fraction.isSome && (x.exponent.map Exponent.power).isNone then
        wholeNumber? negative n
      else (doubleOfParts? negative n ((x.dropped : Int) - (decimals : Int) +
        (x.exponent.map Exponent.power).getD 0)).map float := by
    rw [hn, hdecimals, Option.isNone_map]
    rfl
  have htext : whole.chars ++ (Numeral.fractionText fraction ++
      (Numeral.exponentText exponent ++ more)) = x.unsignedText ++ more := by
    rw [Numeral.unsignedText, List.append_assoc, List.append_assoc]
  rw [htext]
  dsimp only at h
  split at h
  case isTrue hplain =>
    obtain ⟨w, hw, h⟩ := Option.bind_eq_some_iff.1 h
    obtain ⟨rfl, rfl⟩ := Prod.mk.inj (Option.some.inj h)
    exact ⟨x, rfl, rfl, hvalue.trans ((if_pos hplain).trans hw)⟩
  case isFalse hplain =>
    obtain ⟨bits, hbits, h⟩ := Option.bind_eq_some_iff.1 h
    obtain ⟨rfl, rfl⟩ := Prod.mk.inj (Option.some.inj h)
    exact ⟨x, rfl, rfl, hvalue.trans ((if_neg hplain).trans (congrArg (Option.map float) hbits))⟩

/-- What is read is a numeral with its number. -/
theorem exists_of_readNumber? {v : Json} (h : readNumber? input = some (v, rest)) :
    ∃ x : Numeral, input = x.text ++ rest ∧ x.value? = some v := by
  unfold readNumber? at h
  split at h
  · obtain ⟨x, hsign, rfl, hvalue⟩ := exists_of_readUnsigned? h
    refine ⟨x, ?_, hvalue⟩
    rw [Numeral.text, if_pos hsign]
    rfl
  · obtain ⟨x, hsign, rfl, hvalue⟩ := exists_of_readUnsigned? h
    refine ⟨x, ?_, hvalue⟩
    rw [Numeral.text, hsign]
    rfl

/-- A numeral that nothing continues is read with its number. -/
theorem readNumber?_text (x : Numeral) (hrest : Ends rest) :
    readNumber? (x.text ++ rest) = x.value?.map fun v => (v, rest) := by
  have hread := readUnsigned?_text x hrest
  rw [Numeral.text]
  cases hsign : x.negative with
  | true =>
    rw [hsign] at hread
    exact hread
  | false =>
    rw [hsign] at hread
    rw [if_neg (by decide)]
    unfold readNumber?
    split
    case h_1 heq =>
      rw [Numeral.unsignedText, List.append_assoc] at heq
      exact absurd (x.whole.isDigit_of_append_eq_cons heq) (by decide)
    case h_2 => exact hread

end Numerals

end Rim.Json
