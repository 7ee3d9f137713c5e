import Mathlib.Algebra.Group.Nat.Defs
import Rim.Cbor.Reader
import Rim.Proofs.Basic
/-!
# What well-formed items are

An item begins with a head: an initial byte with a major type and an argument, which may take any of
the widths that hold it.  Strings and containers tell their length in the head, or leave it open and
end with a break.  The rules say what stands at the front of some bytes and what is left after it.

The reader finds exactly what the rules describe, and the item nests as deep as the budget says at
most.  The bytes tell where each part ends, so what follows an item makes no difference.

## Main definitions

* `Cbor.Head`, `Cbor.StringOf`: heads and strings.
* `Cbor.Item`: the items that stand at the front of some bytes.

## Main results

* `Cbor.finds`: the reader finds exactly the items that nest within its budget.
* `Cbor.parse?_eq_some_iff`: what a whole byte string is.
-/

namespace Rim.Cbor

/-! ## Rules -/

/-- The initial byte of a major type with five bits of information. -/
def initial (major info : Nat) : UInt8 := UInt8.ofNat (32 * major + info)

/-- A head of a major type.  An argument below 24 may stand in the initial byte, and any argument in
the one, two, four or eight bytes after it. -/
inductive Head (major : Nat) : Argument → List UInt8 → List UInt8 → Prop where
  | short {n : Nat} {rest : List UInt8} (hn : n < 24) :
    Head major (.value n) (initial major n :: rest) rest
  | long {k : Nat} {digits rest : List UInt8} (hk : k < 4) (hdigits : digits.length = 2 ^ k) :
    Head major (.value (beValue digits)) (initial major (24 + k) :: (digits ++ rest)) rest
  | indefinite {rest : List UInt8} : Head major .indefinite (initial major 31 :: rest) rest

/-- The chunks of an open string of a major type up to its break, each of a definite length. -/
inductive Chunks (major : Nat) : List UInt8 → List UInt8 → List UInt8 → Prop where
  | done {rest : List UInt8} : Chunks major [] (0xff :: rest) rest
  | chunk {chunk content input more rest : List UInt8}
    (head : Head major (.value chunk.length) input (chunk ++ more))
    (others : Chunks major content more rest) : Chunks major (chunk ++ content) input rest

/-- A string of a major type. -/
inductive StringOf (major : Nat) : List UInt8 → List UInt8 → List UInt8 → Prop where
  | definite {content input rest : List UInt8}
    (head : Head major (.value content.length) input (content ++ rest)) :
    StringOf major content input rest
  | indefinite {content input more rest : List UInt8} (head : Head major .indefinite input more)
    (chunks : Chunks major content more rest) : StringOf major content input rest

mutual

/-- An item at the front of some bytes, with what is left after it.  Of the simple values only the
truth values, null and the undefined value are known, and a text is well-formed UTF-8. -/
inductive Item : Cbor → List UInt8 → List UInt8 → Prop where
  | unsigned {n : Nat} {input rest : List UInt8} (head : Head 0 (.value n) input rest) :
    Item (.int n) input rest
  | negative {n : Nat} {input rest : List UInt8} (head : Head 1 (.value n) input rest) :
    Item (.int (-1 - n)) input rest
  | bytes {content input rest : List UInt8} (h : StringOf 2 content input rest) :
    Item (.bytes content) input rest
  | text {s : String} {input rest : List UInt8} (h : StringOf 3 (Utf8.encode s) input rest) :
    Item (.text s) input rest
  | array {items : List Cbor} {input more rest : List UInt8}
    (head : Head 4 (.value items.length) input more) (h : Items items more rest) :
    Item (.array items) input rest
  | openArray {items : List Cbor} {input more rest : List UInt8}
    (head : Head 4 .indefinite input more) (h : Items items more (0xff :: rest)) :
    Item (.array items) input rest
  | map {entries : List (Cbor × Cbor)} {input more rest : List UInt8}
    (head : Head 5 (.value entries.length) input more) (h : Entries entries more rest) :
    Item (.map entries) input rest
  | openMap {entries : List (Cbor × Cbor)} {input more rest : List UInt8}
    (head : Head 5 .indefinite input more) (h : Entries entries more (0xff :: rest)) :
    Item (.map entries) input rest
  | tag {n : Nat} {content : Cbor} {input more rest : List UInt8}
    (head : Head 6 (.value n) input more) (h : Item content more rest) :
    Item (.tag (UInt64.ofNat n) content) input rest
  | bool {rest : List UInt8} (b : Bool) :
    Item (.bool b) (initial 7 (if b then 21 else 20) :: rest) rest
  | null {rest : List UInt8} : Item .null (initial 7 22 :: rest) rest
  | undefined {rest : List UInt8} : Item .null (initial 7 23 :: rest) rest
  | half {digits rest : List UInt8} (hdigits : digits.length = 2) :
    Item (.float (Double.widen .half (beValue digits))) (initial 7 25 :: (digits ++ rest)) rest
  | single {digits rest : List UInt8} (hdigits : digits.length = 4) :
    Item (.float (Double.widen .single (beValue digits))) (initial 7 26 :: (digits ++ rest)) rest
  | double {digits rest : List UInt8} (hdigits : digits.length = 8) :
    Item (.float (UInt64.ofNat (beValue digits))) (initial 7 27 :: (digits ++ rest)) rest

/-- Items one after the other. -/
inductive Items : List Cbor → List UInt8 → List UInt8 → Prop where
  | nil {rest : List UInt8} : Items [] rest rest
  | cons {x : Cbor} {items : List Cbor} {input more rest : List UInt8} (first : Item x input more)
    (others : Items items more rest) : Items (x :: items) input rest

/-- Entries one after the other, each a key followed by its value. -/
inductive Entries : List (Cbor × Cbor) → List UInt8 → List UInt8 → Prop where
  | nil {rest : List UInt8} : Entries [] rest rest
  | cons {key value : Cbor} {entries : List (Cbor × Cbor)} {input next more rest : List UInt8}
    (first : Item key input next) (second : Item value next more)
    (others : Entries entries more rest) : Entries ((key, value) :: entries) input rest

end

/-! ## Heads -/

theorem takeOnto_eq_some_iff {count : Nat} {taken input result rest : List UInt8} :
    takeOnto count taken input = some (result, rest) ↔
      ∃ front, front.length = count ∧ input = front ++ rest ∧ result = taken.reverse ++ front := by
  constructor
  · intro h
    induction count generalizing taken input with
    | zero =>
      obtain ⟨rfl, rfl⟩ := Prod.mk.inj (Option.some.inj h)
      exact ⟨[], rfl, rfl, (List.append_nil _).symm⟩
    | succ count ih =>
      cases input with
      | nil => cases h
      | cons b input =>
        rw [takeOnto] at h
        obtain ⟨front, rfl, rfl, rfl⟩ := ih h
        exact ⟨b :: front, rfl, rfl, by rw [List.reverse_cons, List.append_assoc]; rfl⟩
  · rintro ⟨front, rfl, rfl, rfl⟩
    exact takeOnto_append front taken rest

/-- Some bytes are taken from the front if there are as many. -/
theorem take?_eq_some_iff {count : Nat} {front input rest : List UInt8} :
    take? count input = some (front, rest) ↔ front.length = count ∧ input = front ++ rest := by
  unfold take?
  rw [takeOnto_eq_some_iff]
  constructor
  · rintro ⟨front', hlength, hinput, rfl⟩
    exact ⟨hlength, hinput⟩
  · rintro ⟨hlength, hinput⟩
    exact ⟨front, hlength, hinput, rfl⟩

/-- A number is read from its digits to the base 256. -/
theorem readNumber?_eq_some_iff {count n : Nat} {input rest : List UInt8} :
    readNumber? count input = some (n, rest) ↔
      ∃ digits, digits.length = count ∧ input = digits ++ rest ∧ n = beValue digits := by
  have hstep : readNumber? count input =
      (take? count input).bind fun x => some (beValue x.1, x.2) := rfl
  rw [hstep, Option.bind_eq_some_iff]
  constructor
  · rintro ⟨⟨digits, more⟩, htake, h⟩
    obtain ⟨rfl, rfl⟩ := Prod.mk.inj (Option.some.inj h)
    obtain ⟨hlength, hinput⟩ := take?_eq_some_iff.1 htake
    exact ⟨digits, hlength, hinput, rfl⟩
  · rintro ⟨digits, hlength, hinput, rfl⟩
    exact ⟨(digits, rest), take?_eq_some_iff.2 ⟨hlength, hinput⟩, rfl⟩

section Initial

variable {major info : Nat} (hmajor : major < 8) (hinfo : info < 32)

include hmajor hinfo

theorem toNat_initial : (initial major info).toNat = 32 * major + info := by
  unfold initial
  rw [UInt8.toNat_ofNat']
  omega

theorem initial_div : (initial major info).toNat / 32 = major := by
  have h := toNat_initial hmajor hinfo
  omega

theorem initial_mod : (initial major info).toNat % 32 = info := by
  have h := toNat_initial hmajor hinfo
  omega

/-- The first byte of a head tells the major type and what stands beside it. -/
theorem initial_eq_iff {major' info' : Nat} (hmajor' : major' < 8) (hinfo' : info' < 32) :
    initial major info = initial major' info' ↔ major = major' ∧ info = info' := by
  rw [← UInt8.toNat_inj, toNat_initial hmajor hinfo, toNat_initial hmajor' hinfo']
  omega

end Initial

/-- Every byte is an initial byte of one major type. -/
theorem exists_eq_initial (b : UInt8) :
    ∃ major info, major < 8 ∧ info < 32 ∧ b = initial major info := by
  have hb : b.toNat < 256 := b.toNat_lt
  refine ⟨b.toNat / 32, b.toNat % 32, by omega, by omega, ?_⟩
  rw [← UInt8.toNat_inj, toNat_initial (by omega) (by omega)]
  omega

/-- An argument is read exactly as the rules for heads say. -/
theorem readArgument?_eq_some_iff {major info : Nat} (hmajor : major < 8) (hinfo : info < 32)
    {a : Argument} {input rest : List UInt8} :
    readArgument? info input = some (a, rest) ↔
      Head major a (initial major info :: input) rest := by
  constructor
  · intro h
    unfold readArgument? at h
    by_cases hshort : info < 24
    · rw [if_pos hshort] at h
      obtain ⟨rfl, rfl⟩ := Prod.mk.inj (Option.some.inj h)
      exact .short hshort
    rw [if_neg hshort] at h
    by_cases hopen : info = 31
    · rw [if_pos hopen] at h
      obtain ⟨rfl, rfl⟩ := Prod.mk.inj (Option.some.inj h)
      rw [hopen]
      exact .indefinite
    rw [if_neg hopen] at h
    by_cases hlong : info ≤ 27
    · rw [if_pos hlong] at h
      obtain ⟨⟨n, more⟩, hnumber, h⟩ := Option.bind_eq_some_iff.1 h
      obtain ⟨rfl, rfl⟩ := Prod.mk.inj (Option.some.inj h)
      obtain ⟨digits, hlength, rfl, rfl⟩ := readNumber?_eq_some_iff.1 hnumber
      obtain ⟨k, rfl⟩ : ∃ k, info = 24 + k := ⟨info - 24, by omega⟩
      rw [Nat.add_sub_cancel_left] at hlength
      exact .long (by omega) hlength
    · rw [if_neg hlong] at h
      cases h
  · intro h
    generalize hfront : initial major info :: input = front at h
    cases h with
    | @short n rest hn =>
      obtain ⟨hb, rfl⟩ := List.cons.inj hfront
      obtain ⟨-, rfl⟩ := (initial_eq_iff hmajor hinfo hmajor (by omega)).1 hb
      unfold readArgument?
      rw [if_pos hn]
    | @long k digits rest hk hdigits =>
      obtain ⟨hb, rfl⟩ := List.cons.inj hfront
      obtain ⟨-, rfl⟩ := (initial_eq_iff hmajor hinfo hmajor (by omega)).1 hb
      have hnumber : readNumber? (Nat.pow 2 k) (digits ++ rest) = some (beValue digits, rest) :=
        readNumber?_eq_some_iff.2 ⟨digits, hdigits, rfl, rfl⟩
      unfold readArgument?
      rw [if_neg (by omega), if_neg (by omega), if_pos (by omega), Nat.add_sub_cancel_left, hnumber]
      rfl
    | indefinite =>
      obtain ⟨hb, rfl⟩ := List.cons.inj hfront
      obtain ⟨-, rfl⟩ := (initial_eq_iff hmajor hinfo hmajor (by omega)).1 hb
      rfl

/-- A head begins with an initial byte of its major type. -/
theorem Head.exists_initial {major : Nat} {a : Argument} {input rest : List UInt8}
    (h : Head major a input rest) :
    ∃ info tail, info < 32 ∧ input = initial major info :: tail := by
  cases h with
  | short hn => exact ⟨_, _, by omega, rfl⟩
  | long hk _ => exact ⟨_, _, by omega, rfl⟩
  | indefinite => exact ⟨31, _, by omega, rfl⟩

/-- A head takes a byte at least. -/
theorem Head.length_lt {major : Nat} {a : Argument} {input rest : List UInt8}
    (h : Head major a input rest) : rest.length < input.length := by
  cases h with
  | short | indefinite => exact Nat.lt_succ_self _
  | long _ _ =>
    rw [List.length_cons, List.length_append]
    omega

/-! ## Strings -/

theorem initial_ne_break {major info : Nat} (hmajor : major < 7) (hinfo : info < 32) :
    initial major info ≠ 0xff := fun h => by
  have hnat := congrArg UInt8.toNat h
  rw [toNat_initial (by omega) hinfo, show (0xff : UInt8).toNat = 255 from rfl] at hnat
  omega

section Chunks

variable {major : Nat} {b : UInt8} {content input result rest : List UInt8}

/-- Chunks end at the first break. -/
theorem chunks_break_iff (hmajor : major < 7) :
    Chunks major content (0xff :: input) rest ↔ content = [] ∧ rest = input := by
  constructor
  · intro h
    generalize hfront : (0xff : UInt8) :: input = front at h
    cases h with
    | done => exact ⟨rfl, (List.cons.inj hfront).2.symm⟩
    | chunk head _ =>
      obtain ⟨info, tail, hinfo, rfl⟩ := head.exists_initial
      exact absurd (List.cons.inj hfront).1.symm (initial_ne_break hmajor hinfo)
  · rintro ⟨rfl, rfl⟩
    exact .done

/-- Chunks that do not end begin with the head of a string. -/
theorem exists_of_chunks (hb : b ≠ 0xff) (h : Chunks major content (b :: input) rest) :
    ∃ chunk others more, content = chunk ++ others ∧
      Head major (.value chunk.length) (b :: input) (chunk ++ more) ∧
      Chunks major others more rest := by
  generalize hfront : b :: input = front at h
  cases h with
  | done => exact absurd (List.cons.inj hfront).1 hb
  | chunk head others => exact ⟨_, _, _, rfl, head, others⟩

/-- One chunk is read, and then those after it. -/
theorem readChunks?_cons_eq_some_iff {fuel : Nat} {chunks : List (List UInt8)} (hmajor : major < 7)
    (hb : b ≠ 0xff) :
    readChunks? major (fuel + 1) chunks (b :: input) = some (result, rest) ↔
      ∃ chunk more, Head major (.value chunk.length) (b :: input) (chunk ++ more) ∧
        readChunks? major fuel (chunk :: chunks) more = some (result, rest) := by
  obtain ⟨major', info, hmajor', hinfo, rfl⟩ := exists_eq_initial b
  rw [readChunks?, if_neg hb, initial_div hmajor' hinfo, initial_mod hmajor' hinfo]
  by_cases hsame : major' = major
  · subst hsame
    rw [if_pos rfl]
    constructor
    · intro h
      obtain ⟨⟨a, more⟩, hargument, h⟩ := Option.bind_eq_some_iff.1 h
      have head := (readArgument?_eq_some_iff hmajor' hinfo).1 hargument
      cases a with
      | indefinite => cases h
      | value n =>
        obtain ⟨⟨chunk, more⟩, htake, hread⟩ := Option.bind_eq_some_iff.1 h
        obtain ⟨rfl, rfl⟩ := take?_eq_some_iff.1 htake
        exact ⟨chunk, more, head, hread⟩
    · rintro ⟨chunk, more, head, h⟩
      rw [(readArgument?_eq_some_iff hmajor' hinfo).2 head, Option.bind_eq_bind, Option.bind_some]
      dsimp only
      rw [take?_append, Option.bind_eq_bind, Option.bind_some]
      exact h
  · rw [if_neg hsame]
    constructor
    · intro h
      cases h
    · rintro ⟨chunk, more, head, -⟩
      obtain ⟨info', tail, hinfo', heq⟩ := head.exists_initial
      have hbyte := (initial_eq_iff hmajor' hinfo (by omega) hinfo').1 (List.cons.inj heq).1
      exact absurd hbyte.1 hsame

/-- Chunks are read exactly as the rules say; `chunks` are those already read.  A head takes a byte
at least, so the fuel lasts for the chunks that follow. -/
theorem readChunks?_eq_some_iff {fuel : Nat} (hmajor : major < 7) {chunks : List (List UInt8)}
    (hfuel : input.length < fuel) :
    readChunks? major fuel chunks input = some (result, rest) ↔
      ∃ content, result = chunks.reverse.flatten ++ content ∧ Chunks major content input rest := by
  induction fuel generalizing chunks input with
  | zero => omega
  | succ fuel ih =>
    cases input with
    | nil =>
      constructor
      · intro h
        cases h
      · rintro ⟨content, -, h⟩
        generalize hfront : ([] : List UInt8) = front at h
        cases h with
        | done => cases hfront
        | chunk head _ =>
          obtain ⟨_, _, -, rfl⟩ := head.exists_initial
          cases hfront
    | cons b input =>
      rw [List.length_cons] at hfuel
      by_cases hb : b = 0xff
      · rw [readChunks?, if_pos hb, hb]
        simp only [chunks_break_iff hmajor, Option.some.injEq, Prod.mk.injEq]
        constructor
        · rintro ⟨rfl, rfl⟩
          exact ⟨[], (List.append_nil _).symm, rfl, rfl⟩
        · rintro ⟨content, rfl, rfl, rfl⟩
          exact ⟨(List.append_nil _).symm, rfl⟩
      have hmore : ∀ {chunk more : List UInt8}, Head major (.value chunk.length) (b :: input)
          (chunk ++ more) → more.length < fuel := by
        intro chunk more head
        have hlength := head.length_lt
        rw [List.length_append, List.length_cons] at hlength
        omega
      have hjoin : ∀ chunk content : List UInt8,
          (chunk :: chunks).reverse.flatten ++ content =
            chunks.reverse.flatten ++ (chunk ++ content) := by
        intro chunk content
        rw [List.reverse_cons, List.flatten_append, List.flatten_singleton, List.append_assoc]
      rw [readChunks?_cons_eq_some_iff hmajor hb]
      constructor
      · rintro ⟨chunk, more, head, h⟩
        obtain ⟨content, rfl, others⟩ := (ih (hmore head)).1 h
        exact ⟨chunk ++ content, hjoin chunk content, .chunk head others⟩
      · rintro ⟨content, rfl, h⟩
        obtain ⟨chunk, others, more, rfl, head, h⟩ := exists_of_chunks hb h
        exact ⟨chunk, more, head, (ih (hmore head)).2 ⟨others, (hjoin chunk others).symm, h⟩⟩

/-- A string is read exactly as the rules say. -/
theorem readString?_eq_some_iff (hmajor : major < 7) {info : Nat} (hinfo : info < 32) :
    ((readArgument? info input).bind fun x => readString? major x.1 x.2) = some (content, rest) ↔
      StringOf major content (initial major info :: input) rest := by
  have hmajor' : major < 8 := by omega
  rw [Option.bind_eq_some_iff]
  constructor
  · rintro ⟨⟨a, more⟩, hargument, h⟩
    have head := (readArgument?_eq_some_iff hmajor' hinfo).1 hargument
    cases a with
    | value n =>
      obtain ⟨rfl, rfl⟩ := take?_eq_some_iff.1 h
      exact .definite head
    | indefinite =>
      obtain ⟨content, rfl, chunks⟩ := (readChunks?_eq_some_iff hmajor (Nat.lt_succ_self _)).1 h
      exact .indefinite head chunks
  · intro h
    cases h with
    | definite head =>
      exact ⟨_, (readArgument?_eq_some_iff hmajor' hinfo).2 head, take?_append content rest⟩
    | indefinite head chunks =>
      refine ⟨_, (readArgument?_eq_some_iff hmajor' hinfo).2 head, ?_⟩
      exact (readChunks?_eq_some_iff hmajor (Nat.lt_succ_self _)).2 ⟨content, rfl, chunks⟩

end Chunks

/-! ## Containers -/

/-- What a reader finds when it is applied again and again. -/
inductive Run {α : Type} (one : Reader α) : List α → List UInt8 → List UInt8 → Prop where
  | nil {rest : List UInt8} : Run one [] rest rest
  | cons {x : α} {xs : List α} {input more rest : List UInt8} (first : one input = some (x, more))
    (others : Run one xs more rest) : Run one (x :: xs) input rest

section Run

variable {α : Type} {one : Reader α} {result taken xs : List α} {input rest : List UInt8}

/-- A number of things is read one after the other. -/
theorem readMany?_eq_some_iff {count : Nat} :
    readMany? one count taken input = some (result, rest) ↔
      ∃ xs, xs.length = count ∧ result = taken.reverse ++ xs ∧ Run one xs input rest := by
  constructor
  · intro h
    induction count generalizing taken input with
    | zero =>
      obtain ⟨rfl, rfl⟩ := Prod.mk.inj (Option.some.inj h)
      exact ⟨[], rfl, (List.append_nil _).symm, .nil⟩
    | succ count ih =>
      rw [readMany?] at h
      cases hone : one input with
      | none =>
        rw [hone] at h
        cases h
      | some p =>
        obtain ⟨x, more⟩ := p
        rw [hone] at h
        obtain ⟨xs, rfl, rfl, hrun⟩ := ih h
        exact ⟨x :: xs, rfl, reverse_cons_append x taken xs, .cons hone hrun⟩
  · rintro ⟨xs, rfl, rfl, hrun⟩
    induction hrun generalizing taken with
    | nil =>
      rw [List.append_nil]
      rfl
    | cons first _ ih =>
      rw [List.length_cons, readMany?, first, ← reverse_cons_append]
      exact ih

/-- A reader that takes a byte at least and does not take a break. -/
structure StopsAtBreak (one : Reader α) : Prop where
  progress : ∀ input x more, one input = some (x, more) → more.length < input.length
  onBreak : ∀ input, one (0xff :: input) = none

/-- Things are read until the first break, if each of them takes a byte at least. -/
theorem readUntilBreak?_eq_some_iff (hone : StopsAtBreak one) {fuel : Nat}
    (hfuel : input.length < fuel) :
    readUntilBreak? one fuel taken input = some (result, rest) ↔
      ∃ xs, result = taken.reverse ++ xs ∧ Run one xs input (0xff :: rest) := by
  induction fuel generalizing taken input with
  | zero => omega
  | succ fuel ih =>
    rw [readUntilBreak?]
    by_cases hbreak : input.head? = some 0xff
    · rw [if_pos hbreak]
      obtain ⟨tail, rfl⟩ := List.head?_eq_some_iff.1 hbreak
      constructor
      · intro h
        obtain ⟨rfl, rfl⟩ := Prod.mk.inj (Option.some.inj h)
        exact ⟨[], (List.append_nil _).symm, .nil⟩
      · rintro ⟨xs, rfl, hrun⟩
        cases hrun with
        | nil => rw [List.append_nil]; rfl
        | cons first _ =>
          rw [hone.onBreak] at first
          cases first
    rw [if_neg hbreak]
    constructor
    · intro h
      cases hx : one input with
      | none =>
        rw [hx] at h
        cases h
      | some p =>
        obtain ⟨x, more⟩ := p
        rw [hx] at h
        have hlength := hone.progress _ _ _ hx
        obtain ⟨xs, rfl, hrun⟩ := (ih (by omega)).1 h
        exact ⟨x :: xs, reverse_cons_append x taken xs, .cons hx hrun⟩
    · rintro ⟨xs, rfl, hrun⟩
      cases hrun with
      | nil => exact absurd rfl hbreak
      | @cons x xs _ more _ first others =>
        have hlength := hone.progress _ _ _ first
        rw [first]
        exact (ih (by omega)).2 ⟨xs, (reverse_cons_append x taken xs).symm, others⟩

/-- The parts of a container are read as many as its head says, or up to the break. -/
theorem readAll?_eq_some_iff (hone : StopsAtBreak one) {major info : Nat} (hmajor : major < 8)
    (hinfo : info < 32) :
    ((readArgument? info input).bind fun x => readAll? one x.1 x.2) = some (xs, rest) ↔
      ∃ more, (Head major (.value xs.length) (initial major info :: input) more ∧
          Run one xs more rest) ∨
        Head major .indefinite (initial major info :: input) more ∧
          Run one xs more (0xff :: rest) := by
  rw [Option.bind_eq_some_iff]
  constructor
  · rintro ⟨⟨a, more⟩, hargument, h⟩
    have head := (readArgument?_eq_some_iff hmajor hinfo).1 hargument
    cases a with
    | value n =>
      obtain ⟨xs, rfl, rfl, hrun⟩ := readMany?_eq_some_iff.1 h
      exact ⟨more, .inl ⟨head, hrun⟩⟩
    | indefinite =>
      obtain ⟨xs, rfl, hrun⟩ := (readUntilBreak?_eq_some_iff hone (Nat.lt_succ_self _)).1 h
      exact ⟨more, .inr ⟨head, hrun⟩⟩
  · rintro ⟨more, ⟨head, hrun⟩ | ⟨head, hrun⟩⟩
    · exact ⟨_, (readArgument?_eq_some_iff hmajor hinfo).2 head,
        readMany?_eq_some_iff.2 ⟨xs, rfl, rfl, hrun⟩⟩
    · exact ⟨_, (readArgument?_eq_some_iff hmajor hinfo).2 head,
        (readUntilBreak?_eq_some_iff hone (Nat.lt_succ_self _)).2 ⟨xs, rfl, hrun⟩⟩

end Run

/-! ## Items -/

theorem Chunks.length_lt {major : Nat} {content input rest : List UInt8}
    (h : Chunks major content input rest) : rest.length < input.length := by
  induction h with
  | done => exact Nat.lt_succ_self _
  | chunk head _ ih =>
    have hhead := head.length_lt
    rw [List.length_append] at hhead
    omega

theorem StringOf.length_lt {major : Nat} {content input rest : List UInt8}
    (h : StringOf major content input rest) : rest.length < input.length := by
  cases h with
  | definite head =>
    have hhead := head.length_lt
    rw [List.length_append] at hhead
    omega
  | indefinite head chunks =>
    have hhead := head.length_lt
    have hchunks := chunks.length_lt
    omega

mutual

/-- An item takes a byte at least. -/
theorem Item.length_lt {x : Cbor} {input rest : List UInt8} :
    Item x input rest → rest.length < input.length
  | .unsigned head | .negative head => head.length_lt
  | .bytes h | .text h => h.length_lt
  | .array head h => by
    have hhead := head.length_lt
    have hitems := h.length_le
    omega
  | .openArray head h => by
    have hhead := head.length_lt
    have hitems := h.length_le
    rw [List.length_cons] at hitems
    omega
  | .map head h => by
    have hhead := head.length_lt
    have hentries := h.length_le
    omega
  | .openMap head h => by
    have hhead := head.length_lt
    have hentries := h.length_le
    rw [List.length_cons] at hentries
    omega
  | .tag head h => by
    have hhead := head.length_lt
    have hcontent := h.length_lt
    omega
  | .bool _ | .null | .undefined => Nat.lt_succ_self _
  | .half _ | .single _ | .double _ => by
    rw [List.length_cons, List.length_append]
    omega

theorem Items.length_le {items : List Cbor} {input rest : List UInt8} :
    Items items input rest → items.length + rest.length ≤ input.length
  | .nil => Nat.le_of_eq (Nat.zero_add _)
  | .cons first others => by
    have hfirst := first.length_lt
    have hothers := others.length_le
    rw [List.length_cons]
    omega

theorem Entries.length_le {entries : List (Cbor × Cbor)} {input rest : List UInt8} :
    Entries entries input rest → entries.length + rest.length ≤ input.length
  | .nil => Nat.le_of_eq (Nat.zero_add _)
  | .cons first second others => by
    have hfirst := first.length_lt
    have hsecond := second.length_lt
    have hothers := others.length_le
    rw [List.length_cons]
    omega

end

section Reading

variable {n major info : Nat} {x : Cbor} {input rest : List UInt8}

/-- Items with content are the arrays, the maps and the tagged ones. -/
def IsNested (major : Nat) : Prop := major = 4 ∨ major = 5 ∨ major = 6

theorem readItem?_initial_plain (hmajor : major < 8) (hinfo : info < 32)
    (hplain : ¬ IsNested major) :
    readItem? n (initial major info :: input) = readPlain? major info input := by
  rw [readItem?.eq_def]
  simp only [initial_div hmajor hinfo, initial_mod hmajor hinfo]
  exact if_neg hplain

theorem readItem?_initial_nested (hmajor : major < 8) (hinfo : info < 32)
    (hnested : IsNested major) :
    readItem? (n + 1) (initial major info :: input) =
      readNested? (readItem? n) major info input := by
  rw [readItem?]
  simp only [initial_div hmajor hinfo, initial_mod hmajor hinfo]
  exact if_pos hnested

/-- Nothing that nests is read where no depth is left. -/
theorem readItem?_initial_zero (hmajor : major < 8) (hinfo : info < 32)
    (hnested : IsNested major) : readItem? 0 (initial major info :: input) = none := by
  rw [readItem?]
  simp only [initial_div hmajor hinfo, initial_mod hmajor hinfo]
  exact if_pos hnested

theorem depth_pos_of_nested (h : IsNested x.majorType) : 0 < x.depth := by
  cases x with
  | array _ | map _ | tag _ _ => exact Nat.succ_pos _
  | int v =>
    have hmajor : (int v).majorType ≤ 1 := by
      rw [majorType]
      split <;> omega
    unfold IsNested at h
    omega
  | null | bool _ | float _ | bytes _ | text _ => simp [IsNested, majorType] at h

/-! ### What is found follows the rules -/

theorem item_of_readFloat? {f : BinaryFormat} {count : Nat}
    (h : readFloat? f count input = some (x, rest)) :
    ∃ digits, digits.length = count ∧ input = digits ++ rest ∧
      x = .float (Double.widen f (beValue digits)) := by
  obtain ⟨⟨bits, more⟩, hnumber, h⟩ := Option.bind_eq_some_iff.1 h
  obtain ⟨rfl, rfl⟩ := Prod.mk.inj (Option.some.inj h)
  obtain ⟨digits, hlength, rfl, rfl⟩ := readNumber?_eq_some_iff.1 hnumber
  exact ⟨digits, hlength, rfl, rfl⟩

theorem item_of_readSimple? (h : readSimple? info input = some (x, rest)) :
    Item x (initial 7 info :: input) rest ∧ x.depth = 0 := by
  unfold readSimple? at h
  split at h
  · obtain ⟨rfl, rfl⟩ := Prod.mk.inj (Option.some.inj h)
    exact ⟨.bool false, rfl⟩
  · obtain ⟨rfl, rfl⟩ := Prod.mk.inj (Option.some.inj h)
    exact ⟨.bool true, rfl⟩
  · obtain ⟨rfl, rfl⟩ := Prod.mk.inj (Option.some.inj h)
    exact ⟨.null, rfl⟩
  · obtain ⟨rfl, rfl⟩ := Prod.mk.inj (Option.some.inj h)
    exact ⟨.undefined, rfl⟩
  · obtain ⟨digits, hlength, rfl, rfl⟩ := item_of_readFloat? h
    exact ⟨.half hlength, rfl⟩
  · obtain ⟨digits, hlength, rfl, rfl⟩ := item_of_readFloat? h
    exact ⟨.single hlength, rfl⟩
  · obtain ⟨⟨bits, more⟩, hnumber, h⟩ := Option.bind_eq_some_iff.1 h
    obtain ⟨rfl, rfl⟩ := Prod.mk.inj (Option.some.inj h)
    obtain ⟨digits, hlength, rfl, rfl⟩ := readNumber?_eq_some_iff.1 hnumber
    exact ⟨.double hlength, rfl⟩
  · cases h

/-- What is read without nesting is an item without depth. -/
theorem item_of_readPlain? (hmajor : major < 8) (hinfo : info < 32)
    (h : readPlain? major info input = some (x, rest)) :
    Item x (initial major info :: input) rest ∧ x.depth = 0 := by
  unfold readPlain? at h
  split at h
  · obtain ⟨⟨a, more⟩, hargument, h⟩ := Option.bind_eq_some_iff.1 h
    have head := (readArgument?_eq_some_iff hmajor hinfo).1 hargument
    cases a with
    | indefinite => cases h
    | value k =>
      obtain ⟨rfl, rfl⟩ := Prod.mk.inj (Option.some.inj h)
      exact ⟨.unsigned head, rfl⟩
  · obtain ⟨⟨a, more⟩, hargument, h⟩ := Option.bind_eq_some_iff.1 h
    have head := (readArgument?_eq_some_iff hmajor hinfo).1 hargument
    cases a with
    | indefinite => cases h
    | value k =>
      obtain ⟨rfl, rfl⟩ := Prod.mk.inj (Option.some.inj h)
      exact ⟨.negative head, rfl⟩
  · obtain ⟨⟨a, more⟩, hargument, h⟩ := Option.bind_eq_some_iff.1 h
    obtain ⟨⟨content, more'⟩, hstring, h⟩ := Option.bind_eq_some_iff.1 h
    obtain ⟨rfl, rfl⟩ := Prod.mk.inj (Option.some.inj h)
    refine ⟨.bytes ((readString?_eq_some_iff (by decide) hinfo).1 ?_), rfl⟩
    exact Option.bind_eq_some_iff.2 ⟨_, hargument, hstring⟩
  · obtain ⟨⟨a, more⟩, hargument, h⟩ := Option.bind_eq_some_iff.1 h
    obtain ⟨⟨content, more'⟩, hstring, h⟩ := Option.bind_eq_some_iff.1 h
    obtain ⟨s, htext, h⟩ := Option.bind_eq_some_iff.1 h
    obtain ⟨rfl, rfl⟩ := Prod.mk.inj (Option.some.inj h)
    obtain rfl := Utf8.decode?_eq_some_iff.1 htext
    refine ⟨.text ((readString?_eq_some_iff (by decide) hinfo).1 ?_), rfl⟩
    exact Option.bind_eq_some_iff.2 ⟨_, hargument, hstring⟩
  · exact item_of_readSimple? h
  · cases h

/-- The reader with a budget finds exactly the items that nest within it. -/
def Finds (n : Nat) : Prop :=
  ∀ input x rest, readItem? n input = some (x, rest) ↔ Item x input rest ∧ x.depth ≤ n

/-- Items are read one after the other as the rules say, down to the allowed depth. -/
theorem run_readItem?_iff (hn : Finds n) {items : List Cbor} :
    Run (readItem? n) items input rest ↔ Items items input rest ∧ depthItems items ≤ n := by
  induction items generalizing input with
  | nil =>
    constructor
    · rintro ⟨⟩
      exact ⟨.nil, Nat.zero_le n⟩
    · rintro ⟨⟨⟩, -⟩
      exact .nil
  | cons x items ih =>
    rw [depthItems, Nat.max_le]
    constructor
    · rintro (_ | ⟨first, others⟩)
      obtain ⟨hitem, hdepth⟩ := (hn _ _ _).1 first
      obtain ⟨hitems, hdepths⟩ := ih.1 others
      exact ⟨.cons hitem hitems, hdepth, hdepths⟩
    · rintro ⟨_ | ⟨hitem, hitems⟩, hdepth, hdepths⟩
      exact .cons ((hn _ _ _).2 ⟨hitem, hdepth⟩) (ih.2 ⟨hitems, hdepths⟩)

theorem readPair?_eq_some_iff (hn : Finds n) {e : Cbor × Cbor} :
    readPair? (readItem? n) input = some (e, rest) ↔
      ∃ next, (Item e.1 input next ∧ Item e.2 next rest) ∧ max e.1.depth e.2.depth ≤ n := by
  have hstep : readPair? (readItem? n) input = (readItem? n input).bind fun p =>
      (readItem? n p.2).bind fun q => some ((p.1, q.1), q.2) := rfl
  obtain ⟨key, value⟩ := e
  rw [hstep]
  simp only [Option.bind_eq_some_iff, Prod.exists, Nat.max_le]
  constructor
  · rintro ⟨k, next, hkey, v, more, hvalue, h⟩
    obtain ⟨he, rfl⟩ := Prod.mk.inj (Option.some.inj h)
    obtain ⟨rfl, rfl⟩ := Prod.mk.inj he
    obtain ⟨hkey, hkeyDepth⟩ := (hn _ _ _).1 hkey
    obtain ⟨hvalue, hvalueDepth⟩ := (hn _ _ _).1 hvalue
    exact ⟨next, ⟨hkey, hvalue⟩, hkeyDepth, hvalueDepth⟩
  · rintro ⟨next, ⟨hkey, hvalue⟩, hkeyDepth, hvalueDepth⟩
    exact ⟨key, next, (hn _ _ _).2 ⟨hkey, hkeyDepth⟩, value, rest,
      (hn _ _ _).2 ⟨hvalue, hvalueDepth⟩, rfl⟩

theorem run_readPair?_iff (hn : Finds n) {entries : List (Cbor × Cbor)} :
    Run (readPair? (readItem? n)) entries input rest ↔
      Entries entries input rest ∧ depthEntries entries ≤ n := by
  induction entries generalizing input with
  | nil =>
    constructor
    · rintro ⟨⟩
      exact ⟨.nil, Nat.zero_le n⟩
    · rintro ⟨⟨⟩, -⟩
      exact .nil
  | cons e entries ih =>
    obtain ⟨key, value⟩ := e
    rw [depthEntries, Nat.max_le]
    constructor
    · rintro (_ | ⟨first, others⟩)
      obtain ⟨next, ⟨hkey, hvalue⟩, hdepth⟩ := (readPair?_eq_some_iff hn).1 first
      obtain ⟨hentries, hdepths⟩ := ih.1 others
      exact ⟨.cons hkey hvalue hentries, hdepth, hdepths⟩
    · rintro ⟨_ | ⟨hkey, hvalue, hentries⟩, hdepth, hdepths⟩
      exact .cons ((readPair?_eq_some_iff hn).2 ⟨_, ⟨hkey, hvalue⟩, hdepth⟩)
        (ih.2 ⟨hentries, hdepths⟩)

/-- A break is no item. -/
theorem readItem?_break (n : Nat) (input : List UInt8) : readItem? n (0xff :: input) = none := by
  cases n <;> rfl

/-- The reader of items makes progress and does not take a break for an item. -/
theorem stopsAtBreak_item (hn : Finds n) : StopsAtBreak (readItem? n) where
  progress _ _ _ h := ((hn _ _ _).1 h).1.length_lt
  onBreak := readItem?_break n

theorem stopsAtBreak_pair (hn : Finds n) : StopsAtBreak (readPair? (readItem? n)) where
  progress input e more h := by
    obtain ⟨next, ⟨hkey, hvalue⟩, -⟩ := (readPair?_eq_some_iff hn).1 h
    have hfirst := hkey.length_lt
    have hsecond := hvalue.length_lt
    omega
  onBreak input := by
    unfold readPair?
    rw [readItem?_break]
    rfl

/-- What is read with nesting is an item one deeper than its parts. -/
theorem item_of_readNested? (hn : Finds n) (hmajor : major < 8) (hinfo : info < 32)
    (h : readNested? (readItem? n) major info input = some (x, rest)) :
    Item x (initial major info :: input) rest ∧ x.depth ≤ n + 1 := by
  obtain ⟨⟨a, more⟩, hargument, h⟩ := Option.bind_eq_some_iff.1 h
  dsimp only at h
  split at h
  · obtain ⟨⟨items, more'⟩, hall, h⟩ := Option.bind_eq_some_iff.1 h
    obtain ⟨rfl, rfl⟩ := Prod.mk.inj (Option.some.inj h)
    obtain ⟨more, ⟨head, hrun⟩ | ⟨head, hrun⟩⟩ :=
      (readAll?_eq_some_iff (stopsAtBreak_item hn) hmajor hinfo).1
        (Option.bind_eq_some_iff.2 ⟨_, hargument, hall⟩)
    · obtain ⟨hitems, hdepth⟩ := (run_readItem?_iff hn).1 hrun
      exact ⟨.array head hitems, Nat.succ_le_succ hdepth⟩
    · obtain ⟨hitems, hdepth⟩ := (run_readItem?_iff hn).1 hrun
      exact ⟨.openArray head hitems, Nat.succ_le_succ hdepth⟩
  · obtain ⟨⟨entries, more'⟩, hall, h⟩ := Option.bind_eq_some_iff.1 h
    obtain ⟨rfl, rfl⟩ := Prod.mk.inj (Option.some.inj h)
    obtain ⟨more, ⟨head, hrun⟩ | ⟨head, hrun⟩⟩ :=
      (readAll?_eq_some_iff (stopsAtBreak_pair hn) hmajor hinfo).1
        (Option.bind_eq_some_iff.2 ⟨_, hargument, hall⟩)
    · obtain ⟨hentries, hdepth⟩ := (run_readPair?_iff hn).1 hrun
      exact ⟨.map head hentries, Nat.succ_le_succ hdepth⟩
    · obtain ⟨hentries, hdepth⟩ := (run_readPair?_iff hn).1 hrun
      exact ⟨.openMap head hentries, Nat.succ_le_succ hdepth⟩
  · have head := (readArgument?_eq_some_iff hmajor hinfo).1 hargument
    cases a with
    | indefinite => cases h
    | value k =>
      obtain ⟨⟨content, more'⟩, hcontent, h⟩ := Option.bind_eq_some_iff.1 h
      obtain ⟨rfl, rfl⟩ := Prod.mk.inj (Option.some.inj h)
      obtain ⟨hitem, hdepth⟩ := (hn _ _ _).1 hcontent
      exact ⟨.tag head hitem, Nat.succ_le_succ hdepth⟩
  · cases h

/-! ### What follows the rules is found -/

/-- A string begins with the first byte of its head. -/
theorem StringOf.exists_initial {content : List UInt8} (h : StringOf major content input rest) :
    ∃ info tail, info < 32 ∧ input = initial major info :: tail := by
  cases h with
  | definite head | indefinite head _ => exact head.exists_initial

theorem readPlain?_string {text : List UInt8} (hmajor : major < 7) (hinfo : info < 32)
    (h : StringOf major text (initial major info :: input) rest) :
    ∃ a more, readArgument? info input = some (a, more) ∧
      readString? major a more = some (text, rest) := by
  obtain ⟨⟨a, more⟩, hargument, hstring⟩ :=
    Option.bind_eq_some_iff.1 ((readString?_eq_some_iff hmajor hinfo).2 h)
  exact ⟨a, more, hargument, hstring⟩

/-- An item without content is found whatever the budget. -/
theorem Item.readItem?_of_plain (h : Item x input rest) (hplain : ¬ IsNested x.majorType) :
    readItem? n input = some (x, rest) := by
  have hnot : ∀ k, k ≠ 4 ∧ k ≠ 5 ∧ k ≠ 6 → ¬ IsNested k := fun k hk => by
    unfold IsNested
    omega
  have hnumber : ∀ {digits : List UInt8} {count : Nat}, digits.length = count →
      readNumber? count (digits ++ rest) = some (beValue digits, rest) := fun hlength =>
    readNumber?_eq_some_iff.2 ⟨_, hlength, rfl, rfl⟩
  cases h with
  | unsigned head =>
    obtain ⟨info, tail, hinfo, rfl⟩ := head.exists_initial
    rw [readItem?_initial_plain (by decide) hinfo (hnot 0 (by decide))]
    show (readArgument? info tail).bind _ = _
    rw [(readArgument?_eq_some_iff (by decide) hinfo).2 head]
    rfl
  | negative head =>
    obtain ⟨info, tail, hinfo, rfl⟩ := head.exists_initial
    rw [readItem?_initial_plain (by decide) hinfo (hnot 1 (by decide))]
    show (readArgument? info tail).bind _ = _
    rw [(readArgument?_eq_some_iff (by decide) hinfo).2 head]
    rfl
  | bytes h =>
    obtain ⟨info, tail, hinfo, rfl⟩ := h.exists_initial
    obtain ⟨a, more, hargument, hstring⟩ := readPlain?_string (by decide) hinfo h
    rw [readItem?_initial_plain (by decide) hinfo (hnot 2 (by decide))]
    show (readArgument? info tail).bind _ = _
    rw [hargument]
    show (readString? 2 a more).bind _ = _
    rw [hstring]
    rfl
  | @text s _ _ h =>
    obtain ⟨info, tail, hinfo, rfl⟩ := h.exists_initial
    obtain ⟨a, more, hargument, hstring⟩ := readPlain?_string (by decide) hinfo h
    rw [readItem?_initial_plain (by decide) hinfo (hnot 3 (by decide))]
    show (readArgument? info tail).bind _ = _
    rw [hargument]
    show (readString? 3 a more).bind _ = _
    rw [hstring]
    show (Utf8.decode? (Utf8.encode s)).bind _ = _
    rw [Utf8.decode?_encode]
    rfl
  | bool b =>
    cases b <;>
      exact readItem?_initial_plain (by decide) (by decide) (hnot 7 (by decide))
  | null => exact readItem?_initial_plain (by decide) (by decide) (hnot 7 (by decide))
  | undefined => exact readItem?_initial_plain (by decide) (by decide) (hnot 7 (by decide))
  | half hdigits =>
    rw [readItem?_initial_plain (by decide) (by decide) (hnot 7 (by decide))]
    show (readNumber? 2 _).bind _ = _
    rw [hnumber hdigits]
    rfl
  | single hdigits =>
    rw [readItem?_initial_plain (by decide) (by decide) (hnot 7 (by decide))]
    show (readNumber? 4 _).bind _ = _
    rw [hnumber hdigits]
    rfl
  | double hdigits =>
    rw [readItem?_initial_plain (by decide) (by decide) (hnot 7 (by decide))]
    show (readNumber? 8 _).bind _ = _
    rw [hnumber hdigits]
    rfl
  | array _ _ | openArray _ _ => exact absurd (.inl rfl) hplain
  | map _ _ | openMap _ _ => exact absurd (.inr (.inl rfl)) hplain
  | tag _ _ => exact absurd (.inr (.inr rfl)) hplain

theorem readNested?_array (hn : Finds n) (hinfo : info < 32) {items : List Cbor}
    {more : List UInt8}
    (h : (Head 4 (.value items.length) (initial 4 info :: input) more ∧
        Run (readItem? n) items more rest) ∨
      Head 4 .indefinite (initial 4 info :: input) more ∧
        Run (readItem? n) items more (0xff :: rest)) :
    readItem? (n + 1) (initial 4 info :: input) = some (.array items, rest) := by
  obtain ⟨⟨a, more⟩, hargument, hall⟩ := Option.bind_eq_some_iff.1
    ((readAll?_eq_some_iff (stopsAtBreak_item hn) (by decide) hinfo).2 ⟨more, h⟩)
  rw [readItem?_initial_nested (by decide) hinfo (.inl rfl)]
  show (readArgument? info input).bind _ = _
  rw [hargument]
  show (readAll? (readItem? n) a more).bind _ = _
  rw [hall]
  rfl

theorem readNested?_map (hn : Finds n) (hinfo : info < 32) {entries : List (Cbor × Cbor)}
    {more : List UInt8}
    (h : (Head 5 (.value entries.length) (initial 5 info :: input) more ∧
        Run (readPair? (readItem? n)) entries more rest) ∨
      Head 5 .indefinite (initial 5 info :: input) more ∧
        Run (readPair? (readItem? n)) entries more (0xff :: rest)) :
    readItem? (n + 1) (initial 5 info :: input) = some (.map entries, rest) := by
  obtain ⟨⟨a, more⟩, hargument, hall⟩ := Option.bind_eq_some_iff.1
    ((readAll?_eq_some_iff (stopsAtBreak_pair hn) (by decide) hinfo).2 ⟨more, h⟩)
  rw [readItem?_initial_nested (by decide) hinfo (.inr (.inl rfl))]
  show (readArgument? info input).bind _ = _
  rw [hargument]
  show (readAll? (readPair? (readItem? n)) a more).bind _ = _
  rw [hall]
  rfl

/-- An item with content is found if its parts are. -/
theorem Item.readItem?_of_nested (hn : Finds n) (h : Item x input rest)
    (hnested : IsNested x.majorType) (hdepth : x.depth ≤ n + 1) :
    readItem? (n + 1) input = some (x, rest) := by
  cases h with
  | array head hitems =>
    obtain ⟨info, tail, hinfo, rfl⟩ := head.exists_initial
    exact readNested?_array hn hinfo
      (.inl ⟨head, (run_readItem?_iff hn).2 ⟨hitems, Nat.le_of_succ_le_succ hdepth⟩⟩)
  | openArray head hitems =>
    obtain ⟨info, tail, hinfo, rfl⟩ := head.exists_initial
    exact readNested?_array hn hinfo
      (.inr ⟨head, (run_readItem?_iff hn).2 ⟨hitems, Nat.le_of_succ_le_succ hdepth⟩⟩)
  | map head hentries =>
    obtain ⟨info, tail, hinfo, rfl⟩ := head.exists_initial
    exact readNested?_map hn hinfo
      (.inl ⟨head, (run_readPair?_iff hn).2 ⟨hentries, Nat.le_of_succ_le_succ hdepth⟩⟩)
  | openMap head hentries =>
    obtain ⟨info, tail, hinfo, rfl⟩ := head.exists_initial
    exact readNested?_map hn hinfo
      (.inr ⟨head, (run_readPair?_iff hn).2 ⟨hentries, Nat.le_of_succ_le_succ hdepth⟩⟩)
  | @tag k content _ more _ head hcontent =>
    obtain ⟨info, tail, hinfo, rfl⟩ := head.exists_initial
    rw [readItem?_initial_nested (by decide) hinfo (.inr (.inr rfl))]
    show (readArgument? info tail).bind _ = _
    rw [(readArgument?_eq_some_iff (by decide) hinfo).2 head]
    show (readItem? n more).bind _ = _
    rw [(hn _ _ _).2 ⟨hcontent, Nat.le_of_succ_le_succ hdepth⟩]
    rfl
  | unsigned | negative | bytes | text | bool | null | undefined | half | single | double =>
    exact absurd (depth_pos_of_nested hnested) (Nat.lt_irrefl 0)

/-- What is found has no content, or its content is found with what is left of the budget. -/
theorem readItem?_cases (h : readItem? n input = some (x, rest)) :
    (Item x input rest ∧ x.depth = 0) ∨
      ∃ budget major info tail, n = budget + 1 ∧ major < 8 ∧ info < 32 ∧
        input = initial major info :: tail ∧
        readNested? (readItem? budget) major info tail = some (x, rest) := by
  cases input with
  | nil => cases n <;> cases h
  | cons b tail =>
    obtain ⟨major, info, hmajor, hinfo, rfl⟩ := exists_eq_initial b
    by_cases hnested : IsNested major
    · cases n with
      | zero =>
        rw [readItem?_initial_zero hmajor hinfo hnested] at h
        cases h
      | succ n =>
        rw [readItem?_initial_nested hmajor hinfo hnested] at h
        exact .inr ⟨n, major, info, tail, rfl, hmajor, hinfo, rfl, h⟩
    · rw [readItem?_initial_plain hmajor hinfo hnested] at h
      exact .inl (item_of_readPlain? hmajor hinfo h)

/-- A reader with a budget finds exactly the items that nest within it. -/
theorem finds (n : Nat) : Finds n := by
  induction n with
  | zero =>
    intro input x rest
    constructor
    · intro h
      obtain ⟨hitem, hdepth⟩ | ⟨_, _, _, _, hbudget, -⟩ := readItem?_cases h
      · exact ⟨hitem, Nat.le_of_eq hdepth⟩
      · cases hbudget
    · rintro ⟨h, hdepth⟩
      exact h.readItem?_of_plain fun hnested => absurd (depth_pos_of_nested hnested) (by omega)
  | succ n hn =>
    intro input x rest
    constructor
    · intro h
      obtain ⟨hitem, hdepth⟩ | ⟨_, major, info, tail, hbudget, hmajor, hinfo, rfl, h⟩ :=
        readItem?_cases h
      · exact ⟨hitem, by omega⟩
      · obtain rfl := Nat.succ.inj hbudget
        exact item_of_readNested? hn hmajor hinfo h
    · rintro ⟨h, hdepth⟩
      by_cases hnested : IsNested x.majorType
      · exact h.readItem?_of_nested hn hnested hdepth
      · exact h.readItem?_of_plain hnested

/-- What stands at the front of some bytes is told by the bytes. -/
theorem Item.unique {y : Cbor} {rest' : List UInt8} (h : Item x input rest)
    (h' : Item y input rest') : x = y ∧ rest = rest' := by
  have hx := (finds (max x.depth y.depth) input x rest).2 ⟨h, Nat.le_max_left _ _⟩
  have hy := (finds (max x.depth y.depth) input y rest').2 ⟨h', Nat.le_max_right _ _⟩
  exact Prod.mk.inj (Option.some.inj (hx.symm.trans hy))

end Reading

/-- A whole byte string is one item that nests within the budget of the reader. -/
theorem parse?_eq_some_iff {bytes : List UInt8} {x : Cbor} :
    parse? bytes = some x ↔ Item x bytes [] ∧ x.depth ≤ nestingBudget := by
  rw [← finds nestingBudget bytes x []]
  unfold parse?
  constructor
  · intro h
    split at h
    case h_1 hread =>
      obtain rfl := Option.some.inj h
      exact hread
    case h_2 => cases h
  · intro h
    rw [h]

end Rim.Cbor
