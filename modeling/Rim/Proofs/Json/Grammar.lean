import Rim.Proofs.Json.Numeral
import Rim.Proofs.Json.Plain
/-!
# What well-formed texts are

A text is one value between spaces.  The rules say what stands at the front of some characters and
what is left after it: a string ends with its quote and a container with its bracket, and only a
numeral could be cut short, so what follows it must not continue it.

## Main definitions

* `Json.StringText`, `Json.Value`: strings and values at the front of some characters.
* `Json.Document`: the value that a whole byte string is.

## Main results

* `Json.finds`: the reader finds exactly the values that nest within its budget.
* `Json.parse?_eq_some_iff`: what a whole byte string is.
-/

namespace Rim.Json

/-! ## Rules -/

/-- Four hexadecimal digits that spell a number. -/
inductive Unit : Nat → List Char → List Char → Prop where
  | digits {a b c d : Char} {p q r s : Nat} {rest : List Char} (ha : Hex.value? a = some p)
    (hb : Hex.value? b = some q) (hc : Hex.value? c = some r) (hd : Hex.value? d = some s) :
    Unit (((p * 16 + q) * 16 + r) * 16 + s) (a :: b :: c :: d :: rest) rest

/-- The escapes of one letter, each with the character it stands for. -/
def shortEscapes : List (Char × Char) :=
  [('"', '"'), ('\\', '\\'), ('/', '/'), ('b', '\x08'), ('f', '\x0c'), ('n', '\n'), ('r', '\r'),
    ('t', '\t')]

/-- The character of a high and a low surrogate. -/
def joinSurrogates (high low : Nat) : Char :=
  Char.ofNat (0x10000 + (high - 0xD800) * 0x400 + (low - 0xDC00))

/-- The character of an escape, after its backslash.  Surrogates come in pairs. -/
inductive Escape : Char → List Char → List Char → Prop where
  | short {letter c : Char} {rest : List Char} (h : (letter, c) ∈ shortEscapes) :
    Escape c (letter :: rest) rest
  | unit {n : Nat} {input rest : List Char} (h : Unit n input rest)
    (hn : n < 0xD800 ∨ 0xDFFF < n) : Escape (Char.ofNat n) ('u' :: input) rest
  | pair {high low : Nat} {input more rest : List Char}
    (first : Unit high input ('\\' :: 'u' :: more)) (second : Unit low more rest)
    (hhigh : 0xD800 ≤ high ∧ high ≤ 0xDBFF) (hlow : 0xDC00 ≤ low ∧ low ≤ 0xDFFF) :
    Escape (joinSurrogates high low) ('u' :: input) rest

/-- The characters of a string, after its opening quote. -/
inductive StringText : List Char → List Char → List Char → Prop where
  | close {rest : List Char} : StringText [] ('"' :: rest) rest
  | plain {c : Char} {cs input rest : List Char} (hquote : c ≠ '"') (hslash : c ≠ '\\')
    (hcontrol : 0x20 ≤ c.toNat) (others : StringText cs input rest) :
    StringText (c :: cs) (c :: input) rest
  | escape {c : Char} {cs input more rest : List Char} (first : Escape c input more)
    (others : StringText cs more rest) : StringText (c :: cs) ('\\' :: input) rest

/-- Spaces at the front of some characters. -/
def Spaces (input rest : List Char) : Prop :=
  ∃ spaces, (∀ c ∈ spaces, isSpace c = true) ∧ input = spaces ++ rest

/-- Things separated by commas, one at least, with spaces around each. -/
inductive Separated {α : Type} (one : α → List Char → List Char → Prop) :
    List α → List Char → List Char → Prop where
  | last {x : α} {input next more rest : List Char} (before : Spaces input next)
    (h : one x next more) (after : Spaces more rest) : Separated one [x] input rest
  | next {x : α} {xs : List α} {input next more others rest : List Char}
    (before : Spaces input next) (h : one x next more) (after : Spaces more (',' :: others))
    (t : Separated one xs others rest) : Separated one (x :: xs) input rest

/-- A name with its value. -/
inductive MemberOf (value : Json → List Char → List Char → Prop) :
    String × Json → List Char → List Char → Prop where
  | named {cs input next more start rest : List Char} {v : Json} (name : StringText cs input next)
    (colon : Spaces next (':' :: more)) (space : Spaces more start) (h : value v start rest) :
    MemberOf value (String.ofList cs, v) ('"' :: input) rest

/-- A value at the front of some characters, with what is left after it. -/
inductive Value : Json → List Char → List Char → Prop where
  | null {rest : List Char} : Value .null ('n' :: 'u' :: 'l' :: 'l' :: rest) rest
  | true {rest : List Char} : Value (.bool true) ('t' :: 'r' :: 'u' :: 'e' :: rest) rest
  | false {rest : List Char} : Value (.bool false) ('f' :: 'a' :: 'l' :: 's' :: 'e' :: rest) rest
  | string {cs input rest : List Char} (h : StringText cs input rest) :
    Value (.string (String.ofList cs)) ('"' :: input) rest
  | number {v : Json} {rest : List Char} (x : Numeral) (h : x.value? = some v) :
    Value v (x.text ++ rest) rest
  | emptyArray {input rest : List Char} (h : Spaces input (']' :: rest)) :
    Value (.array []) ('[' :: input) rest
  | array {items : List Json} {input rest : List Char}
    (h : Separated Value items input (']' :: rest)) : Value (.array items) ('[' :: input) rest
  | emptyObject {input rest : List Char} (h : Spaces input ('\x7d' :: rest)) :
    Value (.object []) ('\x7b' :: input) rest
  | object {members : List (String × Json)} {input rest : List Char}
    (h : Separated (MemberOf Value) members input ('\x7d' :: rest)) :
    Value (.object members) ('\x7b' :: input) rest

/-- The value that some characters are, with spaces around it. -/
def Text (v : Json) (input : List Char) : Prop :=
  ∃ next more, Spaces input next ∧ Value v next more ∧ Spaces more []

/-- The value that some bytes are. -/
def Document (v : Json) (bytes : List UInt8) : Prop :=
  ∃ text : String, bytes = Utf8.encode text ∧ Text v text.toList

/-! ## Strings -/

section Strings

variable {n : Nat} {c : Char} {cs input rest : List Char}

/-- Four hexadecimal digits are read as the rule says. -/
theorem readUnit?_eq_some_iff : readUnit? input = some (n, rest) ↔ Unit n input rest := by
  constructor
  · intro h
    unfold readUnit? at h
    split at h
    case h_1 =>
      obtain ⟨p, hp, h⟩ := Option.bind_eq_some_iff.1 h
      obtain ⟨q, hq, h⟩ := Option.bind_eq_some_iff.1 h
      obtain ⟨r, hr, h⟩ := Option.bind_eq_some_iff.1 h
      obtain ⟨s, hs, h⟩ := Option.bind_eq_some_iff.1 h
      obtain ⟨rfl, rfl⟩ := Prod.mk.inj (Option.some.inj h)
      exact .digits hp hq hr hs
    case h_2 => cases h
  · rintro ⟨hp, hq, hr, hs⟩
    simp only [readUnit?, hp, hq, hr, hs, Option.bind_eq_bind, Option.bind_some, Option.pure_def]

theorem Unit.length_eq (h : Unit n input rest) : input.length = rest.length + 4 := by
  cases h
  rfl

/-- An escape by number is one of the rules' two ways to write a character so. -/
theorem readEscapedUnit?_eq_some_iff :
    readEscapedUnit? input = some (c, rest) ↔
      (∃ n, Unit n input rest ∧ (n < 0xD800 ∨ 0xDFFF < n) ∧ c = Char.ofNat n) ∨
        ∃ high low more, Unit high input ('\\' :: 'u' :: more) ∧ Unit low more rest ∧
          (0xD800 ≤ high ∧ high ≤ 0xDBFF) ∧ (0xDC00 ≤ low ∧ low ≤ 0xDFFF) ∧
            c = joinSurrogates high low := by
  constructor
  · intro h
    obtain ⟨⟨unit, more⟩, hunit, h⟩ := Option.bind_eq_some_iff.1 h
    have hunit := readUnit?_eq_some_iff.1 hunit
    dsimp only at h
    by_cases hlow : 0xDC00 ≤ unit ∧ unit ≤ 0xDFFF
    · rw [if_pos hlow] at h
      cases h
    rw [if_neg hlow] at h
    by_cases hhigh : 0xD800 ≤ unit ∧ unit ≤ 0xDBFF
    · rw [if_pos hhigh] at h
      split at h
      case h_1 more _ =>
        obtain ⟨⟨low, next⟩, hsecond, h⟩ := Option.bind_eq_some_iff.1 h
        obtain ⟨hrange, h⟩ := Option.ite_none_right_eq_some.1 h
        obtain ⟨hc, rfl⟩ := Prod.mk.inj (Option.some.inj h)
        exact .inr ⟨unit, low, more, hunit, readUnit?_eq_some_iff.1 hsecond, hhigh, hrange, hc.symm⟩
      case h_2 => cases h
    · rw [if_neg hhigh] at h
      obtain ⟨rfl, rfl⟩ := Prod.mk.inj (Option.some.inj h)
      exact .inl ⟨unit, hunit, by omega, rfl⟩
  · rintro (⟨n, hunit, hn, rfl⟩ | ⟨high, low, more, hhigh, hlow, hrange, hrange', hc⟩)
    · rw [readEscapedUnit?, readUnit?_eq_some_iff.2 hunit, Option.bind_eq_bind, Option.bind_some]
      dsimp only
      rw [if_neg (by omega), if_neg (by omega)]
      rfl
    · rw [readEscapedUnit?, readUnit?_eq_some_iff.2 hhigh, Option.bind_eq_bind, Option.bind_some]
      dsimp only
      rw [if_neg (by omega), if_pos hrange]
      show (readUnit? more).bind _ = _
      rw [readUnit?_eq_some_iff.2 hlow, Option.bind_some, hc]
      exact if_pos hrange'

/-- An escape is read exactly as the rules say. -/
theorem readEscape?_eq_some_iff : readEscape? input = some (c, rest) ↔ Escape c input rest := by
  constructor
  · intro h
    unfold readEscape? at h
    split at h
    case h_9 =>
      rcases readEscapedUnit?_eq_some_iff.1 h with ⟨n, hunit, hn, rfl⟩ | ⟨_, _, _, hhigh, hlow, h⟩
      · exact .unit hunit hn
      · rw [h.2.2]
        exact .pair hhigh hlow h.1 h.2.1
    case h_10 => cases h
    all_goals
      obtain ⟨rfl, rfl⟩ := Prod.mk.inj (Option.some.inj h)
      exact .short (by decide)
  · intro h
    cases h with
    | short h =>
      simp only [shortEscapes, List.mem_cons, Prod.mk.injEq, List.not_mem_nil, or_false] at h
      rcases h with ⟨rfl, rfl⟩ | ⟨rfl, rfl⟩ | ⟨rfl, rfl⟩ | ⟨rfl, rfl⟩ | ⟨rfl, rfl⟩ | ⟨rfl, rfl⟩ |
        ⟨rfl, rfl⟩ | ⟨rfl, rfl⟩ <;> rfl
    | unit h hn => exact readEscapedUnit?_eq_some_iff.2 (.inl ⟨_, h, hn, rfl⟩)
    | pair first second hhigh hlow =>
      exact readEscapedUnit?_eq_some_iff.2 (.inr ⟨_, _, _, first, second, hhigh, hlow, rfl⟩)

theorem Escape.length_lt (h : Escape c input rest) : rest.length < input.length := by
  cases h with
  | short _ => exact Nat.lt_succ_self _
  | unit h _ =>
    rw [List.length_cons, h.length_eq]
    omega
  | pair first second _ _ =>
    rw [List.length_cons, first.length_eq, List.length_cons, List.length_cons, second.length_eq]
    omega

/-- Characters are read exactly as the rules say; `taken` are those already read. -/
theorem readChars?_eq_some_iff {fuel : Nat} {taken result : List Char}
    (hfuel : input.length < fuel) :
    readChars? fuel taken input = some (result, rest) ↔
      ∃ cs, result = taken.reverse ++ cs ∧ StringText cs input rest := by
  induction fuel generalizing taken input with
  | zero => omega
  | succ fuel ih =>
    cases input with
    | nil =>
      constructor
      · intro h
        cases h
      · rintro ⟨cs, -, h⟩
        cases h
    | cons c input =>
      rw [List.length_cons] at hfuel
      rw [readChars?]
      by_cases hquote : c = '"'
      · rw [if_pos hquote, hquote]
        constructor
        · intro h
          obtain ⟨rfl, rfl⟩ := Prod.mk.inj (Option.some.inj h)
          exact ⟨[], (List.append_nil _).symm, .close⟩
        · rintro ⟨cs, rfl, h⟩
          cases h with
          | close => rw [List.append_nil]
          | plain hquote _ _ _ => exact absurd rfl hquote
      rw [if_neg hquote]
      by_cases hslash : c = '\\'
      · rw [if_pos hslash, hslash]
        constructor
        · intro h
          cases hescape : readEscape? input with
          | none =>
            rw [hescape] at h
            cases h
          | some p =>
            obtain ⟨e, more⟩ := p
            rw [hescape] at h
            have first := readEscape?_eq_some_iff.1 hescape
            have hlength := first.length_lt
            obtain ⟨cs, rfl, others⟩ := (ih (by omega)).1 h
            exact ⟨e :: cs, reverse_cons_append e taken cs, .escape first others⟩
        · rintro ⟨cs, rfl, h⟩
          cases h with
          | plain _ hslash _ _ => exact absurd rfl hslash
          | @escape e cs _ more _ first others =>
            have hlength := first.length_lt
            rw [readEscape?_eq_some_iff.2 first]
            exact (ih (by omega)).2 ⟨cs, (reverse_cons_append e taken cs).symm, others⟩
      rw [if_neg hslash]
      by_cases hcontrol : c.toNat < 0x20
      · rw [if_pos hcontrol]
        constructor
        · intro h
          cases h
        · rintro ⟨cs, -, h⟩
          cases h with
          | close => exact absurd rfl hquote
          | plain _ _ hcontrol' _ => omega
          | escape _ _ => exact absurd rfl hslash
      rw [if_neg hcontrol]
      constructor
      · intro h
        obtain ⟨cs, rfl, others⟩ := (ih (by omega)).1 h
        exact ⟨c :: cs, reverse_cons_append c taken cs, .plain hquote hslash (by omega) others⟩
      · rintro ⟨cs, rfl, h⟩
        cases h with
        | close => exact absurd rfl hquote
        | @plain _ cs _ _ _ _ _ others =>
          exact (ih (by omega)).2 ⟨cs, (reverse_cons_append c taken cs).symm, others⟩
        | escape _ _ => exact absurd rfl hslash

/-- A string is read exactly as the rules say. -/
theorem readString?_eq_some_iff {s : String} :
    readString? input = some (s, rest) ↔
      ∃ cs, s = String.ofList cs ∧ StringText cs input rest := by
  unfold readString?
  rw [Option.map_eq_some_iff]
  constructor
  · rintro ⟨⟨chars, more⟩, hread, h⟩
    obtain ⟨rfl, rfl⟩ := Prod.mk.inj h
    obtain ⟨cs, hchars, htext⟩ := (readChars?_eq_some_iff (Nat.lt_succ_self _)).1 hread
    exact ⟨cs, congrArg String.ofList hchars, htext⟩
  · rintro ⟨cs, rfl, htext⟩
    exact ⟨(cs, rest), (readChars?_eq_some_iff (Nat.lt_succ_self _)).2 ⟨cs, rfl, htext⟩, rfl⟩

end Strings

/-! ## Spaces -/

section Spaces

variable {input next rest : List Char}

/-- No space stands at the front of a text. -/
def NoSpace (rest : List Char) : Prop := ∀ c ∈ rest.head?, isSpace c = false

theorem noSpace_cons {c : Char} (hc : isSpace c = false) (rest : List Char) :
    NoSpace (c :: rest) := by
  intro b hb
  obtain rfl := Option.some.inj hb
  exact hc

theorem Begins.noSpace (h : Begins input) : NoSpace input := by
  obtain ⟨c, rest, rfl, hc, -⟩ := h
  exact noSpace_cons hc rest

/-- What is skipped is space. -/
theorem spaces_skipSpace (input : List Char) : Spaces input (skipSpace input) :=
  ⟨input.takeWhile isSpace, List.all_eq_true.1 List.all_takeWhile,
    List.takeWhile_append_dropWhile.symm⟩

/-- All space before something else is skipped. -/
theorem Spaces.skipSpace_eq (h : Spaces input rest) (hrest : NoSpace rest) :
    skipSpace input = rest := by
  obtain ⟨spaces, hspaces, rfl⟩ := h
  rw [skipSpace, List.dropWhile_append_of_pos hspaces]
  cases rest with
  | nil => rfl
  | cons c rest => exact skipSpace_of_not_space (hrest c rfl) rest

theorem Spaces.refl (input : List Char) : Spaces input input :=
  ⟨[], List.forall_mem_nil _, rfl⟩

theorem Spaces.trans (h : Spaces input next) (h' : Spaces next rest) : Spaces input rest := by
  obtain ⟨spaces, hspaces, rfl⟩ := h
  obtain ⟨spaces', hspaces', rfl⟩ := h'
  refine ⟨spaces ++ spaces', fun c hc => ?_, (List.append_assoc _ _ _).symm⟩
  rcases List.mem_append.1 hc with hc | hc
  · exact hspaces c hc
  · exact hspaces' c hc

theorem Spaces.length_le (h : Spaces input rest) : rest.length ≤ input.length := by
  obtain ⟨spaces, -, rfl⟩ := h
  rw [List.length_append]
  omega

theorem ends_of_isSpace {c : Char} (h : isSpace c = true) :
    isDigit c = false ∧ c ≠ '.' ∧ c ≠ 'e' ∧ c ≠ 'E' := by
  simp only [isSpace, Bool.or_eq_true, beq_iff_eq] at h
  rcases h with ((rfl | rfl) | rfl) | rfl <;> decide

/-- Spaces continue no number. -/
theorem Spaces.ends (h : Spaces input rest) (hrest : Ends rest) : Ends input := by
  obtain ⟨spaces, hspaces, rfl⟩ := h
  cases spaces with
  | nil => exact hrest
  | cons c spaces => exact ends_cons _ (ends_of_isSpace (hspaces c List.mem_cons_self))

end Spaces

/-! ## Containers -/

/-- A reader of the things that stand by a rule at the front of a text and are good. -/
structure Reads {α : Type} (one : Reader α) (rule : α → List Char → List Char → Prop)
    (good : α → Prop) : Prop where
  sound : ∀ {input x rest}, one input = some (x, rest) → rule x input rest ∧ good x
  complete : ∀ {input x rest}, rule x input rest → Ends rest → good x → one input = some (x, rest)
  begins : ∀ {input x rest}, rule x input rest → Begins input
  progress : ∀ {input x rest}, rule x input rest → good x → rest.length < input.length

section Containers

variable {α : Type} {one : Reader α} {rule : α → List Char → List Char → Prop} {good : α → Prop}
  {close : Char} {xs : List α} {input next rest : List Char}

theorem Separated.prepend (hspaces : Spaces input next) (h : Separated rule xs next rest) :
    Separated rule xs input rest := by
  cases h with
  | last before hx after => exact .last (hspaces.trans before) hx after
  | next before hx after t => exact .next (hspaces.trans before) hx after t

/-- The first thing of several comes after the spaces. -/
theorem Reads.separated_skipSpace (h : Reads one rule good) (hxs : Separated rule xs input rest) :
    Begins (skipSpace input) ∧ Separated rule xs (skipSpace input) rest := by
  cases hxs with
  | last before hx after =>
    have hbegins := h.begins hx
    rw [before.skipSpace_eq hbegins.noSpace]
    exact ⟨hbegins, .last (.refl _) hx after⟩
  | next before hx after t =>
    have hbegins := h.begins hx
    rw [before.skipSpace_eq hbegins.noSpace]
    exact ⟨hbegins, .next (.refl _) hx after t⟩

theorem Reads.length_lt (h : Reads one rule good) (hxs : Separated rule xs input rest)
    (hgood : ∀ x ∈ xs, good x) : rest.length < input.length := by
  induction hxs with
  | last before hx after =>
    have hbefore := before.length_le
    have hmiddle := h.progress hx (hgood _ List.mem_cons_self)
    have hafter := after.length_le
    omega
  | next before hx after _ ih =>
    obtain ⟨hfirst, hothers⟩ := List.forall_mem_cons.1 hgood
    have hbefore := before.length_le
    have hmiddle := h.progress hx hfirst
    have hafter := after.length_le
    have hrest := ih hothers
    rw [List.length_cons] at hafter
    omega

/-- Things separated by commas are read exactly as the rules say; `taken` are those already read. -/
theorem Reads.readSeparated?_eq_some_iff (h : Reads one rule good) (hclose : Closes close)
    {fuel : Nat} {taken result : List α} (hfuel : input.length < fuel) :
    readSeparated? one close fuel taken input = some (result, rest) ↔
      ∃ xs, result = taken.reverse ++ xs ∧ Separated rule xs input (close :: rest) ∧
        ∀ x ∈ xs, good x := by
  induction fuel generalizing taken input with
  | zero => omega
  | succ fuel ih =>
    rw [readSeparated?]
    constructor
    · intro hread
      cases hone : one (skipSpace input) with
      | none =>
        rw [hone] at hread
        cases hread
      | some p =>
        obtain ⟨x, more⟩ := p
        rw [hone] at hread
        obtain ⟨hx, hgood⟩ := h.sound hone
        have hbefore := spaces_skipSpace input
        have hlength := h.progress hx hgood
        have hafter := spaces_skipSpace more
        dsimp only at hread
        cases hmore : skipSpace more with
        | nil =>
          rw [hmore] at hread
          cases hread
        | cons c others =>
          rw [hmore] at hread hafter
          have hskipped := hbefore.length_le
          have hskipped' := hafter.length_le
          rw [List.length_cons] at hskipped'
          dsimp only at hread
          by_cases hcomma : c = ','
          · rw [if_pos hcomma] at hread
            obtain ⟨xs, rfl, hxs, hgoods⟩ := (ih (by omega)).1 hread
            exact ⟨x :: xs, reverse_cons_append x taken xs, .next hbefore hx (hcomma ▸ hafter) hxs,
              List.forall_mem_cons.2 ⟨hgood, hgoods⟩⟩
          rw [if_neg hcomma] at hread
          obtain ⟨hc, hread⟩ := Option.ite_none_right_eq_some.1 hread
          obtain ⟨rfl, rfl⟩ := Prod.mk.inj (Option.some.inj hread)
          exact ⟨[x], List.reverse_cons, .last hbefore hx (hc ▸ hafter), by simpa using hgood⟩
    · rintro ⟨xs, rfl, hxs, hgood⟩
      cases hxs with
      | @last x _ next more _ before hx after =>
        have hends := after.ends (ends_cons rest hclose.ends)
        rw [before.skipSpace_eq (h.begins hx).noSpace, h.complete hx hends (by simpa using hgood)]
        dsimp only
        rw [after.skipSpace_eq (noSpace_cons hclose.space rest)]
        dsimp only
        rw [if_neg hclose.comma, if_pos rfl, List.reverse_cons]
      | @next x xs _ next more others _ before hx after t =>
        obtain ⟨hfirst, hothers⟩ := List.forall_mem_cons.1 hgood
        have hends := after.ends (ends_cons others (by decide))
        have hbefore := before.length_le
        have hmiddle := h.progress hx hfirst
        have hafter := after.length_le
        rw [List.length_cons] at hafter
        rw [before.skipSpace_eq (h.begins hx).noSpace, h.complete hx hends hfirst]
        dsimp only
        rw [after.skipSpace_eq (noSpace_cons (by decide) others)]
        dsimp only
        rw [if_pos rfl]
        exact (ih (by omega)).2 ⟨xs, (reverse_cons_append x taken xs).symm, t, hothers⟩

/-- The content of a container is read exactly as the rules say. -/
theorem Reads.readContent?_eq_some_iff (h : Reads one rule good) (hclose : Closes close) :
    readContent? one close input = some (xs, rest) ↔
      (xs = [] ∧ Spaces input (close :: rest)) ∨
        Separated rule xs input (close :: rest) ∧ ∀ x ∈ xs, good x := by
  have hspaces := spaces_skipSpace input
  unfold readContent?
  dsimp only
  constructor
  · intro hread
    by_cases hempty : (skipSpace input).head? = some close
    · rw [if_pos hempty] at hread
      obtain ⟨rfl, rfl⟩ := Prod.mk.inj (Option.some.inj hread)
      obtain ⟨tail, htail⟩ := List.head?_eq_some_iff.1 hempty
      rw [htail] at hspaces ⊢
      exact .inl ⟨rfl, hspaces⟩
    · rw [if_neg hempty] at hread
      obtain ⟨xs, rfl, hxs, hgood⟩ :=
        (h.readSeparated?_eq_some_iff hclose (Nat.lt_succ_self _)).1 hread
      exact .inr ⟨hxs.prepend hspaces, hgood⟩
  · rintro (⟨rfl, hempty⟩ | ⟨hxs, hgood⟩)
    · rw [hempty.skipSpace_eq (noSpace_cons hclose.space rest)]
      exact if_pos rfl
    · obtain ⟨hbegins, hxs⟩ := h.separated_skipSpace hxs
      rw [if_neg (hclose.before _ hbegins)]
      exact (h.readSeparated?_eq_some_iff hclose (Nat.lt_succ_self _)).2 ⟨xs, rfl, hxs, hgood⟩

end Containers

/-! ## Values -/

section Values

variable {n : Nat} {v : Json} {cs input rest : List Char}

theorem StringText.length_lt (h : StringText cs input rest) : rest.length < input.length := by
  induction h with
  | close => exact Nat.lt_succ_self _
  | plain _ _ _ _ ih => exact Nat.lt_succ_of_lt ih
  | escape first _ ih =>
    have hfirst := first.length_lt
    rw [List.length_cons]
    omega

theorem Numeral.exists_text_eq_cons (x : Numeral) :
    ∃ c cs, x.text = c :: cs ∧ (c = '-' ∨ (digitValue? c).isSome) := by
  obtain ⟨c, cs, hchars, hc⟩ := x.whole.exists_eq_cons
  have hunsigned : x.unsignedText =
      c :: (cs ++ (fractionText x.fraction ++ exponentText x.exponent)) := by
    rw [unsignedText, hchars]
    rfl
  rw [text]
  split
  · exact ⟨_, _, rfl, .inl rfl⟩
  · exact ⟨_, _, hunsigned, .inr hc⟩

theorem Numeral.depth_of_value? {x : Numeral} (h : x.value? = some v) : v.depth = 0 := by
  have hfloat : ∀ {bits : Option UInt64}, bits.map float = some v → v.depth = 0 := fun h => by
    obtain ⟨bits, -, rfl⟩ := Option.map_eq_some_iff.1 h
    rfl
  unfold value? at h
  split at h
  · unfold wholeNumber? at h
    split at h
    · obtain rfl := Option.some.inj h
      rfl
    · split at h
      · obtain rfl := Option.some.inj h
        rfl
      · exact hfloat h
  · exact hfloat h

/-- How a value begins. -/
theorem Value.begins (h : Value v input rest) : Begins input := by
  cases h with
  | number x _ =>
    obtain ⟨c, cs, htext, hc⟩ := x.exists_text_eq_cons
    rw [htext]
    rcases hc with rfl | hc
    · exact ⟨_, _, rfl, by decide, by decide, by decide⟩
    · exact begins_of_digit hc _
  | null | true | false | string _ | emptyArray _ | array _ | emptyObject _ | object _ =>
    exact ⟨_, _, rfl, by decide, by decide, by decide⟩

/-- What is read without a bracket is a value by the rules. -/
theorem value_of_readPlain? (h : readPlain? input = some (v, rest)) :
    Value v input rest ∧ v.depth = 0 := by
  unfold readPlain? at h
  split at h
  case h_1 =>
    obtain ⟨rfl, rfl⟩ := Prod.mk.inj (Option.some.inj h)
    exact ⟨.null, rfl⟩
  case h_2 =>
    obtain ⟨rfl, rfl⟩ := Prod.mk.inj (Option.some.inj h)
    exact ⟨.true, rfl⟩
  case h_3 =>
    obtain ⟨rfl, rfl⟩ := Prod.mk.inj (Option.some.inj h)
    exact ⟨.false, rfl⟩
  case h_4 =>
    obtain ⟨⟨s, more⟩, hread, h⟩ := Option.map_eq_some_iff.1 h
    obtain ⟨rfl, rfl⟩ := Prod.mk.inj h
    obtain ⟨cs, rfl, htext⟩ := readString?_eq_some_iff.1 hread
    exact ⟨.string htext, rfl⟩
  case h_5 =>
    obtain ⟨x, rfl, hvalue⟩ := exists_of_readNumber? h
    exact ⟨.number x hvalue, Numeral.depth_of_value? hvalue⟩

/-- A value without content is found whatever the budget. -/
theorem Value.readValue?_of_plain (h : Value v input rest) (hends : Ends rest)
    (hdepth : v.depth = 0) : readValue? n input = some (v, rest) := by
  cases h with
  | null | true | false => exact readValue?_of_begins (by simp)
  | @string cs input _ htext =>
    rw [readValue?_of_begins (by simp)]
    show (readString? input).map _ = _
    rw [readString?_eq_some_iff.2 ⟨cs, rfl, htext⟩]
    rfl
  | number x hvalue =>
    obtain ⟨c, cs, htext, hc⟩ := x.exists_text_eq_cons
    have hread := readNumber?_text x hends
    rw [htext, hvalue] at hread
    rw [htext, List.cons_append, readValue?_number hc]
    exact hread
  | emptyArray _ | array _ | emptyObject _ | object _ => cases hdepth

/-- The reader with a budget finds exactly the values that nest within it. -/
def Finds (n : Nat) : Prop := Reads (readValue? n) Value fun v => v.depth ≤ n

/-- Members are read if their values are. -/
theorem Finds.member (h : Finds n) :
    Reads (readMember? (readValue? n)) (MemberOf Value) fun m => m.2.depth ≤ n where
  sound {input m rest} hread := by
    unfold readMember? at hread
    split at hread
    case h_2 => cases hread
    case h_1 cs =>
      obtain ⟨⟨name, next⟩, hname, hread⟩ := Option.bind_eq_some_iff.1 hread
      obtain ⟨chars, rfl, htext⟩ := readString?_eq_some_iff.1 hname
      have hcolon := spaces_skipSpace next
      dsimp only at hread
      split at hread
      case h_2 => cases hread
      case h_1 more heq =>
        obtain ⟨⟨v, tail⟩, hvalue, hread⟩ := Option.bind_eq_some_iff.1 hread
        obtain ⟨rfl, rfl⟩ := Prod.mk.inj (Option.some.inj hread)
        obtain ⟨hv, hdepth⟩ := h.sound hvalue
        exact ⟨.named htext (heq ▸ hcolon) (spaces_skipSpace more) hv, hdepth⟩
  complete {input m rest} hm hends hdepth := by
    cases hm with
    | @named chars cs next more start _ v name colon space hv =>
      have hvalue := h.complete hv hends hdepth
      have hname := readString?_eq_some_iff.2 ⟨chars, rfl, name⟩
      unfold readMember?
      simp only [hname, colon.skipSpace_eq (noSpace_cons (by decide) more),
        space.skipSpace_eq hv.begins.noSpace, hvalue, Option.bind_eq_bind, Option.bind_some,
        Option.pure_def]
  begins {input m rest} hm := by
    cases hm
    exact ⟨_, _, rfl, by decide, by decide, by decide⟩
  progress {input m rest} hm hdepth := by
    cases hm with
    | named name colon space hv =>
      have hname := name.length_lt
      have hcolon := colon.length_le
      have hspace := space.length_le
      have hvalue := h.progress hv hdepth
      rw [List.length_cons] at hcolon ⊢
      omega

theorem Value.length_lt_of_plain (h : Value v input rest) (hdepth : v.depth = 0) :
    rest.length < input.length := by
  cases h with
  | null | true | false =>
    simp only [List.length_cons]
    omega
  | string htext =>
    have hlength := htext.length_lt
    rw [List.length_cons]
    omega
  | number x _ =>
    obtain ⟨c, cs, htext, -⟩ := x.exists_text_eq_cons
    rw [htext, List.length_append, List.length_cons]
    omega
  | emptyArray _ | array _ | emptyObject _ | object _ => cases hdepth

/-- Without a level left, values that do not nest are found. -/
theorem finds_zero : Finds 0 where
  sound {input v rest} h := by
    rw [readValue?] at h
    obtain ⟨-, h⟩ := Option.ite_none_left_eq_some.1 h
    obtain ⟨hv, hdepth⟩ := value_of_readPlain? h
    exact ⟨hv, Nat.le_of_eq hdepth⟩
  complete h hends hdepth := h.readValue?_of_plain hends (Nat.le_zero.1 hdepth)
  begins := Value.begins
  progress h hdepth := h.length_lt_of_plain (Nat.le_zero.1 hdepth)

/-- One level more finds the values that nest one deeper. -/
theorem Finds.succ (h : Finds n) : Finds (n + 1) where
  sound {input v rest} hread := by
    unfold readValue? at hread
    split at hread
    case h_1 input =>
      obtain ⟨⟨items, more⟩, hcontent, heq⟩ := Option.map_eq_some_iff.1 hread
      obtain ⟨rfl, rfl⟩ := Prod.mk.inj heq
      rcases (h.readContent?_eq_some_iff closes_array).1 hcontent with ⟨rfl, hempty⟩ | ⟨hs, hdepth⟩
      · exact ⟨.emptyArray hempty, Nat.succ_le_succ (Nat.zero_le n)⟩
      · exact ⟨.array hs, Nat.succ_le_succ (depthItems_le_iff.2 hdepth)⟩
    case h_2 input =>
      obtain ⟨⟨members, more⟩, hcontent, heq⟩ := Option.map_eq_some_iff.1 hread
      obtain ⟨rfl, rfl⟩ := Prod.mk.inj heq
      rcases (h.member.readContent?_eq_some_iff closes_object).1 hcontent with
        ⟨rfl, hempty⟩ | ⟨hs, hdepth⟩
      · exact ⟨.emptyObject hempty, Nat.succ_le_succ (Nat.zero_le n)⟩
      · exact ⟨.object hs, Nat.succ_le_succ (depthMembers_le_iff.2 hdepth)⟩
    case h_3 =>
      obtain ⟨hv, hdepth⟩ := value_of_readPlain? hread
      exact ⟨hv, by omega⟩
  complete {input v rest} hv hends hdepth := by
    have harray : ∀ {input rest : List Char} {items : List Json},
        readContent? (readValue? n) ']' input = some (items, rest) →
        readValue? (n + 1) ('[' :: input) = some (.array items, rest) := fun hcontent => by
      rw [readValue?, hcontent]
      rfl
    have hobject : ∀ {input rest : List Char} {members : List (String × Json)},
        readContent? (readMember? (readValue? n)) '\x7d' input = some (members, rest) →
        readValue? (n + 1) ('\x7b' :: input) = some (.object members, rest) := fun hcontent => by
      rw [readValue?, hcontent]
      rfl
    by_cases hplain : v.depth = 0
    · exact hv.readValue?_of_plain hends hplain
    cases hv with
    | emptyArray hempty =>
      exact harray ((h.readContent?_eq_some_iff closes_array).2 (.inl ⟨rfl, hempty⟩))
    | array hs =>
      have hdepths := depthItems_le_iff.1 (Nat.le_of_succ_le_succ hdepth)
      exact harray ((h.readContent?_eq_some_iff closes_array).2 (.inr ⟨hs, hdepths⟩))
    | emptyObject hempty =>
      exact hobject ((h.member.readContent?_eq_some_iff closes_object).2 (.inl ⟨rfl, hempty⟩))
    | object hs =>
      have hdepths := depthMembers_le_iff.1 (Nat.le_of_succ_le_succ hdepth)
      exact hobject ((h.member.readContent?_eq_some_iff closes_object).2 (.inr ⟨hs, hdepths⟩))
    | null | true | false | string _ => exact absurd rfl hplain
    | number x hvalue => exact absurd (Numeral.depth_of_value? hvalue) hplain
  begins := Value.begins
  progress {input v rest} hv hdepth := by
    by_cases hplain : v.depth = 0
    · exact hv.length_lt_of_plain hplain
    cases hv with
    | emptyArray hempty | emptyObject hempty =>
      have hlength := hempty.length_le
      rw [List.length_cons] at hlength ⊢
      omega
    | array hs =>
      have hlength := h.length_lt hs (depthItems_le_iff.1 (Nat.le_of_succ_le_succ hdepth))
      rw [List.length_cons] at hlength ⊢
      omega
    | object hs =>
      have hlength := h.member.length_lt hs (depthMembers_le_iff.1 (Nat.le_of_succ_le_succ hdepth))
      rw [List.length_cons] at hlength ⊢
      omega
    | null | true | false | string _ => exact absurd rfl hplain
    | number x hvalue => exact absurd (Numeral.depth_of_value? hvalue) hplain

/-- A reader with a budget finds exactly the values that nest within it. -/
theorem finds (n : Nat) : Finds n := by
  induction n with
  | zero => exact finds_zero
  | succ n ih => exact ih.succ

end Values

/-! ## Documents -/

/-- A text is read as a value that it spells and that does not nest too deep. -/
theorem parseWithin?_eq_some_iff {budget : Nat} {input : List Char} {v : Json} :
    parseWithin? budget input = some v ↔ Text v input ∧ v.depth ≤ budget := by
  unfold parseWithin?
  constructor
  · intro h
    split at h
    case h_2 => cases h
    case h_1 value rest hread =>
      obtain ⟨hempty, h⟩ := Option.ite_none_right_eq_some.1 h
      obtain rfl := Option.some.inj h
      obtain ⟨hv, hdepth⟩ := (finds budget).sound hread
      have hrest : skipSpace rest = [] := List.isEmpty_iff.1 hempty
      exact ⟨⟨_, rest, spaces_skipSpace input, hv, hrest ▸ spaces_skipSpace rest⟩, hdepth⟩
  · rintro ⟨⟨next, more, before, hv, after⟩, hdepth⟩
    have hnone : NoSpace [] := fun c hc => nomatch hc
    rw [before.skipSpace_eq hv.begins.noSpace,
      (finds budget).complete hv (after.ends ends_nil) hdepth]
    dsimp only
    rw [after.skipSpace_eq hnone]
    rfl

/-- A whole byte string is one value that nests within the budget of the reader. -/
theorem parse?_eq_some_iff {bytes : List UInt8} {v : Json} :
    parse? bytes = some v ↔ Document v bytes ∧ v.depth ≤ nestingBudget := by
  unfold parse?
  rw [Option.bind_eq_some_iff]
  constructor
  · rintro ⟨text, hdecode, h⟩
    obtain ⟨htext, hdepth⟩ := parseWithin?_eq_some_iff.1 h
    exact ⟨⟨text, Utf8.decode?_eq_some_iff.1 hdecode, htext⟩, hdepth⟩
  · rintro ⟨⟨text, rfl, htext⟩, hdepth⟩
    exact ⟨text, Utf8.decode?_encode text, parseWithin?_eq_some_iff.2 ⟨htext, hdepth⟩⟩

/-- The value of a document is told by its bytes. -/
theorem Document.unique {bytes : List UInt8} {v w : Json} (hv : Document v bytes)
    (hw : Document w bytes) : v = w := by
  obtain ⟨text, rfl, hv⟩ := hv
  obtain ⟨text', htext, hw⟩ := hw
  obtain rfl := Utf8.encode_inj htext
  have hread := parseWithin?_eq_some_iff.2 ⟨hv, Nat.le_max_left v.depth w.depth⟩
  have hread' := parseWithin?_eq_some_iff.2 ⟨hw, Nat.le_max_right v.depth w.depth⟩
  exact Option.some.inj (hread.symm.trans hread')

end Rim.Json
