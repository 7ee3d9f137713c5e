import Mathlib.Tactic.SplitIfs
import Rim.Text.Base64
/-!
# Base64 is read back

Writing is one group of three bytes after another, so reading what was written follows the same
groups.  A group is determined by its four values; a padded group is told by its last characters,
which no value has.  A character has a value only as the symbol of it, and a padded group is read
only if its spare bits are zero, so what is read is what writing would give.

## Main results

* `Base64.decode?_encode`: the text of a byte string spells that byte string.
* `Base64.decode?_eq_some_iff`: no other text does.
-/

namespace Rim.Base64

theorem value?_pad : value? '=' = none := by decide

theorem symbol_ne_pad {n : Nat} (h : n < 64) : symbol n ≠ '=' := by
  intro hs
  have hv := value?_symbol h
  rw [hs, value?_pad] at hv
  exact absurd hv (by simp)

/-! ## Reading one group -/

theorem decodeChars?_one {p q : Nat} (hp : p < 64) (hq : q < 64) (hz : q % 16 = 0) :
    decodeChars? [symbol p, symbol q, '=', '='] = some [UInt8.ofNat (p * 4 + q / 16)] := by
  simp only [decodeChars?, value?_symbol hp, value?_symbol hq, Option.bind_eq_bind,
    Option.bind_some, if_pos hz, Option.pure_def]

/-- A group with one padding character spells two bytes. -/
theorem decodeChars?_two {p q r : Nat} (hp : p < 64) (hq : q < 64) (hr : r < 64)
    (hz : r % 4 = 0) :
    decodeChars? [symbol p, symbol q, symbol r, '='] =
      some [UInt8.ofNat (((p * 64 + q) * 16 + r / 4) / 256),
        UInt8.ofNat (((p * 64 + q) * 16 + r / 4) % 256)] := by
  have hpad : symbol r = '=' → False := symbol_ne_pad hr
  rw [decodeChars?.eq_3 _ _ _ hpad]
  simp only [value?_symbol hp, value?_symbol hq, value?_symbol hr, Option.bind_eq_bind,
    Option.bind_some, if_pos hz, Option.pure_def]

theorem decodeChars?_three {p q r s : Nat} (hp : p < 64) (hq : q < 64) (hr : r < 64)
    (hs : s < 64) (rest : List Char) :
    decodeChars? (symbol p :: symbol q :: symbol r :: symbol s :: rest) =
      (decodeChars? rest).map (group p q r s ++ ·) := by
  have hpad : symbol s = '=' → False := symbol_ne_pad hs
  rw [decodeChars?.eq_4 _ _ _ _ _ (fun _ h _ => hpad h) (fun h _ => hpad h)]
  simp only [value?_symbol hp, value?_symbol hq, value?_symbol hr, value?_symbol hs,
    Option.bind_eq_bind, Option.bind_some, Option.pure_def]
  cases decodeChars? rest <;> rfl

/-! ## Groups of bytes

A number below a power of sixty-four is determined by its digits to that base, and a number below a
power of two hundred and fifty-six by its bytes. -/

theorem group_digits {n : Nat} (h : n < 16777216) :
    group (n / 262144) (n / 4096 % 64) (n / 64 % 64) (n % 64) =
      [UInt8.ofNat (n / 65536), UInt8.ofNat (n / 256 % 256), UInt8.ofNat (n % 256)] := by
  have hn : ((n / 262144 * 64 + n / 4096 % 64) * 64 + n / 64 % 64) * 64 + n % 64 = n := by omega
  simp only [group, hn]

theorem ofNat_eq {n : Nat} {b : UInt8} (h : n = b.toNat) : UInt8.ofNat n = b := by
  rw [h, UInt8.ofNat_toNat]

/-- Bytes are read back from the characters they are written as.  The writer takes three bytes at a
time; only the last group is short, and it alone is padded. -/
theorem decodeChars?_encodeChars (bytes : List UInt8) :
    decodeChars? (encodeChars bytes) = some bytes := by
  induction bytes using encodeChars.induct with
  | case1 => rfl
  | case2 a =>
    have ha : a.toNat < 256 := a.toNat_lt
    rw [encodeChars, decodeChars?_one (by omega) (by omega) (by omega)]
    rw [ofNat_eq (b := a) (by omega)]
  | case3 a b =>
    have ha : a.toNat < 256 := a.toNat_lt
    have hb : b.toNat < 256 := b.toNat_lt
    rw [encodeChars, decodeChars?_two (by omega) (by omega) (by omega) (by omega)]
    rw [ofNat_eq (b := a) (by omega), ofNat_eq (b := b) (by omega)]
  | case4 a b c rest ih =>
    have ha : a.toNat < 256 := a.toNat_lt
    have hb : b.toNat < 256 := b.toNat_lt
    have hc : c.toNat < 256 := c.toNat_lt
    rw [encodeChars, decodeChars?_three (by omega) (by omega) (by omega) (by omega), ih,
      group_digits (by omega)]
    rw [ofNat_eq (b := a) (by omega), ofNat_eq (b := b) (by omega), ofNat_eq (b := c) (by omega)]
    rfl

/-- The text of a byte string spells that byte string. -/
theorem decode?_encode (bytes : List UInt8) : decode? (encode bytes) = some bytes := by
  unfold decode? encode
  rw [String.toList_ofList, decodeChars?_encodeChars]

/-! ## No other text

The reader is canonical: each group it accepts is the one that the bytes it gives are written as. -/

/-- The character of the alphabet with a value is no other than that of the value.  Each range of
characters is one range of values, and two characters stand alone. -/
theorem symbol_of_value? {c : Char} {n : Nat} (h : value? c = some n) : n < 64 ∧ symbol n = c := by
  have hbounds : ∀ a b : Char, a ≤ c ∧ c ≤ b → a.toNat ≤ c.toNat ∧ c.toNat ≤ b.toNat :=
    fun a b hc => hc
  unfold value? at h
  split_ifs at h with hupper hlower hdigit hplus hslash
  · obtain ⟨hlow, hhigh⟩ : 65 ≤ c.toNat ∧ c.toNat ≤ 90 := hbounds _ _ hupper
    obtain rfl := Option.some.inj h
    refine ⟨by omega, ?_⟩
    rw [symbol, if_pos (by omega), show 65 + (c.toNat - 65) = c.toNat by omega, Char.ofNat_toNat]
  · obtain ⟨hlow, hhigh⟩ : 97 ≤ c.toNat ∧ c.toNat ≤ 122 := hbounds _ _ hlower
    obtain rfl := Option.some.inj h
    refine ⟨by omega, ?_⟩
    rw [symbol, if_neg (by omega), if_pos (by omega),
      show 71 + (c.toNat - 71) = c.toNat by omega, Char.ofNat_toNat]
  · obtain ⟨hlow, hhigh⟩ : 48 ≤ c.toNat ∧ c.toNat ≤ 57 := hbounds _ _ hdigit
    obtain rfl := Option.some.inj h
    refine ⟨by omega, ?_⟩
    rw [symbol, if_neg (by omega), if_neg (by omega), if_pos (by omega),
      show c.toNat + 4 - 4 = c.toNat by omega, Char.ofNat_toNat]
  · obtain rfl := Option.some.inj h
    exact ⟨by decide, hplus.symm⟩
  · obtain rfl := Option.some.inj h
    exact ⟨by decide, hslash.symm⟩

theorem encodeChars_one {p q : Nat} (hp : p < 64) (hq : q < 64) (hz : q % 16 = 0) :
    encodeChars [UInt8.ofNat (p * 4 + q / 16)] = [symbol p, symbol q, '=', '='] := by
  rw [encodeChars, UInt8.toNat_ofNat']
  rw [show (p * 4 + q / 16) % 2 ^ 8 * 16 / 64 = p by omega,
    show (p * 4 + q / 16) % 2 ^ 8 * 16 % 64 = q by omega]

theorem encodeChars_two {p q r : Nat} (hp : p < 64) (hq : q < 64) (hr : r < 64)
    (hz : r % 4 = 0) :
    encodeChars [UInt8.ofNat (((p * 64 + q) * 16 + r / 4) / 256),
        UInt8.ofNat (((p * 64 + q) * 16 + r / 4) % 256)] =
      [symbol p, symbol q, symbol r, '='] := by
  have hn : ((((p * 64 + q) * 16 + r / 4) / 256 % 2 ^ 8) * 256 +
      ((p * 64 + q) * 16 + r / 4) % 256 % 2 ^ 8) * 4 = (p * 64 + q) * 64 + r := by omega
  rw [encodeChars, UInt8.toNat_ofNat', UInt8.toNat_ofNat', hn]
  rw [show ((p * 64 + q) * 64 + r) / 4096 = p by omega,
    show ((p * 64 + q) * 64 + r) / 64 % 64 = q by omega,
    show ((p * 64 + q) * 64 + r) % 64 = r by omega]

theorem encodeChars_group {p q r s : Nat} (hp : p < 64) (hq : q < 64) (hr : r < 64) (hs : s < 64)
    (bytes : List UInt8) :
    encodeChars (group p q r s ++ bytes) =
      symbol p :: symbol q :: symbol r :: symbol s :: encodeChars bytes := by
  have hn : ((((p * 64 + q) * 64 + r) * 64 + s) / 65536 % 2 ^ 8 * 256 +
      (((p * 64 + q) * 64 + r) * 64 + s) / 256 % 256 % 2 ^ 8) * 256 +
      (((p * 64 + q) * 64 + r) * 64 + s) % 256 % 2 ^ 8 = ((p * 64 + q) * 64 + r) * 64 + s := by
    omega
  simp only [group, List.cons_append, List.nil_append]
  rw [encodeChars, UInt8.toNat_ofNat', UInt8.toNat_ofNat', UInt8.toNat_ofNat', hn]
  rw [show (((p * 64 + q) * 64 + r) * 64 + s) / 262144 = p by omega,
    show (((p * 64 + q) * 64 + r) * 64 + s) / 4096 % 64 = q by omega,
    show (((p * 64 + q) * 64 + r) * 64 + s) / 64 % 64 = r by omega,
    show (((p * 64 + q) * 64 + r) * 64 + s) % 64 = s by omega]

/-- What characters spell is written with just these characters.  The reader takes four characters
at a time; what they spell is determined by their values. -/
theorem eq_encodeChars_of_decodeChars? {cs : List Char} {bytes : List UInt8}
    (h : decodeChars? cs = some bytes) : cs = encodeChars bytes := by
  induction cs using decodeChars?.induct generalizing bytes with
  | case1 =>
    obtain rfl := Option.some.inj h
    rfl
  | case2 a b =>
    simp only [decodeChars?, Option.bind_eq_bind, Option.bind_eq_some_iff] at h
    obtain ⟨p, hp, q, hq, h⟩ := h
    split_ifs at h with hz
    obtain rfl := Option.some.inj h
    obtain ⟨ltp, rfl⟩ := symbol_of_value? hp
    obtain ⟨ltq, rfl⟩ := symbol_of_value? hq
    exact (encodeChars_one ltp ltq hz).symm
  | case3 a b c hc =>
    rw [decodeChars?.eq_3 _ _ _ hc] at h
    simp only [Option.bind_eq_bind, Option.bind_eq_some_iff] at h
    obtain ⟨p, hp, q, hq, r, hr, h⟩ := h
    split_ifs at h with hz
    obtain rfl := Option.some.inj h
    obtain ⟨ltp, rfl⟩ := symbol_of_value? hp
    obtain ⟨ltq, rfl⟩ := symbol_of_value? hq
    obtain ⟨ltr, rfl⟩ := symbol_of_value? hr
    exact (encodeChars_two ltp ltq ltr hz).symm
  | case4 a b c d rest h₂ h₁ ih =>
    rw [decodeChars?.eq_4 _ _ _ _ _ h₂ h₁] at h
    simp only [Option.bind_eq_bind, Option.bind_eq_some_iff] at h
    obtain ⟨p, hp, q, hq, r, hr, s, hs, bytes, hrest, h⟩ := h
    obtain rfl := Option.some.inj h
    obtain ⟨ltp, rfl⟩ := symbol_of_value? hp
    obtain ⟨ltq, rfl⟩ := symbol_of_value? hq
    obtain ⟨ltr, rfl⟩ := symbol_of_value? hr
    obtain ⟨lts, rfl⟩ := symbol_of_value? hs
    rw [encodeChars_group ltp ltq ltr lts, ← ih hrest]
  | case5 cs h₁ h₂ h₃ h₄ =>
    rw [decodeChars?.eq_5 _ h₁ h₂ h₃ h₄] at h
    cases h

/-- Each byte string has one text, and a text that is no such text spells nothing. -/
theorem decodeChars?_eq_some_iff {cs : List Char} {bytes : List UInt8} :
    decodeChars? cs = some bytes ↔ cs = encodeChars bytes := by
  constructor
  · exact eq_encodeChars_of_decodeChars?
  · rintro rfl
    exact decodeChars?_encodeChars bytes

/-- A text is in base 64 for some bytes exactly if it is what they are written as. -/
theorem decode?_eq_some_iff {text : String} {bytes : List UInt8} :
    decode? text = some bytes ↔ text = encode bytes := by
  rw [decode?, decodeChars?_eq_some_iff, encode, ← String.toList_inj, String.toList_ofList]

end Rim.Base64
