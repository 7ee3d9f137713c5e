import Mathlib.Algebra.Group.Nat.Defs
import Rim.Payload.Oid
import Rim.Proofs.Basic
import Rim.Proofs.Decimal
/-!
# Object identifiers are read back

In the binary form each number is a run of groups: every group but the last is marked as continued,
and the reader gathers them from the front.  What is written after a number is left to the next
turn of the reader, so numbers are read back one after the other.

The first two arcs share one number, `40 * first + second`.  The check admits pairs for which this
number exceeds 64 bits, and those alone have a text form but no binary one.

## Main definitions

* `Oid.firstNumber`: the number that packs the first two arcs.

## Main results

* `Oid.exists_toBer_iff`: the identifiers that have a binary form.
* `Oid.ofBer_of_toBer`: a binary form is read back.
* `Oid.ofText_toText`: the text form is read back, whatever the size of the arcs.
-/

namespace Rim.Oid

/-! ## Groups

The reader has gathered the number that the leading groups spell when it comes to the last one.
Sixty-four bits are at most ten groups. -/

theorem toNat_continued (d : Nat) (h : d < 128) : (UInt8.ofNat (d + 128)).toNat = d + 128 := by
  simp only [UInt8.toNat_ofNat']
  omega

theorem toNat_last (d : Nat) (h : d < 128) : (UInt8.ofNat d).toNat = d := by
  simp only [UInt8.toNat_ofNat']
  omega

/-- A continued group goes onto the value read so far, if it is not a leading zero.  Only the group
of a leading zero is refused, and only where no group came before it. -/
theorem readGroups_continued {value d : Nat} {continued : Bool} (hd : d < 128)
    (hz : continued = true ∨ d ≠ 0) (hv : value < 144115188075855872) (rest : List UInt8) :
    readGroups value continued (UInt8.ofNat (d + 128) :: rest) =
      readGroups (128 * value + d) true rest := by
  have hb := toNat_continued d hd
  have hfirst : (!continued && UInt8.ofNat (d + 128) == 0x80) = false := by
    rcases hz with hz | hz
    · rw [hz]
      rfl
    · have hne : UInt8.ofNat (d + 128) ≠ 0x80 := by
        intro h
        rw [h] at hb
        exact hz (by simpa using hb.symm)
      rw [beq_eq_false_iff_ne.2 hne, Bool.and_false]
  have hmark : ¬ UInt8.ofNat (d + 128) < 0x80 := by
    rw [UInt8.lt_iff_toNat_lt, hb]
    simp
  have hvalue : ¬ 144115188075855872 ≤ value := by omega
  rw [readGroups]
  simp only [hfirst, hmark, hvalue, hb, if_false, Bool.false_eq_true,
    show (d + 128) % 128 = d by omega]

/-- The last group ends a number. -/
theorem readGroups_last {value d : Nat} {continued : Bool} (hd : d < 128)
    (hv : value < 144115188075855872) (rest : List UInt8) :
    readGroups value continued (UInt8.ofNat d :: rest) =
      (readGroups 0 false rest).map (UInt64.ofNat (128 * value + d) :: ·) := by
  have hb := toNat_last d hd
  have hmark : UInt8.ofNat d < 0x80 := by
    rw [UInt8.lt_iff_toNat_lt, hb]
    exact hd
  have hfirst : (!continued && UInt8.ofNat d == 0x80) = false := by
    have hne : UInt8.ofNat d ≠ 0x80 := by
      intro h
      rw [h] at hmark
      exact absurd hmark (by decide)
    rw [beq_eq_false_iff_ne.2 hne, Bool.and_false]
  have hvalue : ¬ 144115188075855872 ≤ value := by omega
  rw [readGroups]
  simp only [hfirst, hmark, hvalue, hb, if_true, if_false, Bool.false_eq_true,
    show d % 128 = d by omega]

/-- The leading groups of a number are gathered into it.  The leading groups of the higher part are
gathered first, then one group more. -/
theorem readGroups_leadingGroups {fuel n : Nat} (hfuel : n < 128 ^ fuel)
    (hn : n < 128 * 144115188075855872) (rest : List UInt8) :
    readGroups 0 false (leadingGroups fuel n ++ rest) = readGroups n (decide (n ≠ 0)) rest := by
  induction fuel generalizing n rest with
  | zero =>
    obtain rfl : n = 0 := by simpa using hfuel
    rfl
  | succ fuel ih =>
    rw [leadingGroups]
    split
    case isTrue h =>
      subst h
      rfl
    case isFalse h =>
      have hlow : n / 128 < 128 ^ fuel := by
        rw [Nat.pow_succ] at hfuel
        omega
      rw [List.append_assoc, ih hlow (by omega), List.singleton_append,
        readGroups_continued (Nat.mod_lt n (by decide)) ?_ (by omega)]
      · rw [Nat.div_add_mod n 128]
        simp [h]
      · by_cases hd : n / 128 = 0
        · exact .inr (by omega)
        · exact .inl (by simp [hd])

/-- The groups of a 64-bit number are read as that number. -/
theorem readGroups_groups {n : Nat} (hn : n < 18446744073709551616) (rest : List UInt8) :
    readGroups 0 false (groups n ++ rest) =
      (readGroups 0 false rest).map (UInt64.ofNat n :: ·) := by
  have hfuel : n / 128 < 128 ^ 10 := by omega
  rw [groups, List.append_assoc, readGroups_leadingGroups hfuel (by omega), List.singleton_append,
    readGroups_last (Nat.mod_lt n (by decide)) (by omega), Nat.div_add_mod n 128]

/-- Arcs are read back from their groups. -/
theorem readGroups_flatMap (arcs : List UInt64) :
    readGroups 0 false (arcs.flatMap fun arc => groups arc.toNat) = .ok arcs := by
  induction arcs with
  | nil => rfl
  | cons arc rest ih =>
    rw [List.flatMap_cons, readGroups_groups arc.toNat_lt, ih, UInt64.ofNat_toNat]
    rfl

theorem groups_ne_nil (n : Nat) : groups n ≠ [] := by
  simp [groups]

/-! ## The first two arcs -/

/-- The number that packs the first two arcs. -/
def firstNumber (oid : Oid) : Nat :=
  match oid.arcs with
  | a :: b :: _ => a.toNat * 40 + b.toNat
  | _ => 0

/-- What the check admits: two arcs, the second small unless the first is two.  No arc, or a single
one, is refused. -/
theorem check_eq_ok_iff {oid : Oid} :
    oid.check = .ok () ↔
      ∃ a b rest, oid.arcs = a :: b :: rest ∧ a.toNat ≤ 2 ∧ (a.toNat < 2 → b.toNat < 40) := by
  obtain ⟨arcs⟩ := oid
  unfold check
  rcases arcs with _ | ⟨a, _ | ⟨b, rest⟩⟩
  · simp
  · simp
  · have hlarge : 2 < a ↔ 2 < a.toNat := UInt64.lt_iff_toNat_lt
    have hsmall : a < 2 ↔ a.toNat < 2 := UInt64.lt_iff_toNat_lt
    have hforty : 40 ≤ b ↔ 40 ≤ b.toNat := UInt64.le_iff_toNat_le
    simp only [hlarge, hsmall, hforty, List.cons.injEq]
    constructor
    · intro h
      refine ⟨a, b, rest, ⟨rfl, rfl, rfl⟩, ?_⟩
      split at h
      · cases h
      · split at h
        · cases h
        · omega
    · rintro ⟨a, b, rest, ⟨rfl, rfl, rfl⟩, ha, hb⟩
      rw [if_neg (by omega), if_neg (by omega)]

/-- Two arcs are unpacked from the number that packs them. -/
theorem unpack_pack {a b : UInt64} (ha : a.toNat ≤ 2) (hb : a.toNat < 2 → b.toNat < 40)
    (hfit : a.toNat * 40 + b.toNat < 18446744073709551616) :
    unpack (UInt64.ofNat (a.toNat * 40 + b.toNat)) = [a, b] := by
  obtain ⟨first, hfirst⟩ : ∃ first, first = UInt64.ofNat (a.toNat * 40 + b.toNat) := ⟨_, rfl⟩
  have hn : first.toNat = a.toNat * 40 + b.toNat := by
    rw [hfirst]
    simpa using hfit
  have hforty : first < 40 ↔ first.toNat < 40 := UInt64.lt_iff_toNat_lt
  have heighty : first < 80 ↔ first.toNat < 80 := UInt64.lt_iff_toNat_lt
  have hsub : ∀ k : UInt64, k.toNat ≤ first.toNat → (first - k).toNat = first.toNat - k.toNat :=
    fun k hk => UInt64.toNat_sub_of_le _ _ (UInt64.le_iff_toNat_le.2 hk)
  rw [← hfirst]
  unfold unpack
  simp only [hforty, heighty]
  obtain h | h | h : a.toNat = 0 ∨ a.toNat = 1 ∨ a.toNat = 2 := by omega
  · obtain rfl : a = 0 := UInt64.toNat_inj.1 h
    obtain rfl : first = b := UInt64.toNat_inj.1 (by omega)
    rw [if_pos (by omega)]
  · obtain rfl : a = 1 := UInt64.toNat_inj.1 h
    have hb' : first - 40 = b := UInt64.toNat_inj.1 (by rw [hsub 40 (by simp; omega)]; simp; omega)
    rw [if_neg (by omega), if_pos (by omega), hb']
  · obtain rfl : a = 2 := UInt64.toNat_inj.1 h
    have hb' : first - 80 = b := UInt64.toNat_inj.1 (by rw [hsub 80 (by simp; omega)]; simp; omega)
    rw [if_neg (by omega), if_neg (by omega), hb']

/-! ## The binary form -/

/-- A checked identifier has a binary form if its first two arcs fit one number, and else is
refused for its second arc. -/
theorem toBer_of_check {oid : Oid} (h : oid.check = .ok ()) :
    oid.toBer =
      if oid.firstNumber < 18446744073709551616 then
        .ok (groups oid.firstNumber ++ (oid.arcs.drop 2).flatMap fun arc => groups arc.toNat)
      else .error .secondArcTooLarge := by
  obtain ⟨a, b, rest, harcs, -, -⟩ := check_eq_ok_iff.1 h
  unfold toBer firstNumber
  rw [h, harcs]
  rfl

/-- The identifiers that have a binary form. -/
theorem exists_toBer_iff {oid : Oid} :
    (∃ bytes, oid.toBer = .ok bytes) ↔
      oid.check = .ok () ∧ oid.firstNumber < 18446744073709551616 := by
  constructor
  · rintro ⟨bytes, hb⟩
    obtain ⟨_, h, -⟩ := exists_of_bind_eq_ok hb
    refine ⟨h, ?_⟩
    rw [toBer_of_check h] at hb
    split at hb
    · assumption
    · cases hb
  · rintro ⟨h, hfit⟩
    exact ⟨_, (toBer_of_check h).trans (if_pos hfit)⟩

/-- A binary form is read back.  The first number that is read packs two arcs, and every other one
is an arc. -/
theorem ofBer_of_toBer {oid : Oid} {bytes : List UInt8} (h : oid.toBer = .ok bytes) :
    ofBer bytes = .ok oid := by
  obtain ⟨hc, hfit⟩ := exists_toBer_iff.1 ⟨bytes, h⟩
  obtain ⟨a, b, rest, harcs, ha, hb⟩ := check_eq_ok_iff.1 hc
  have hfirst : oid.firstNumber = a.toNat * 40 + b.toNat := by
    unfold firstNumber
    rw [harcs]
  rw [hfirst] at hfit
  rw [toBer_of_check hc, hfirst, if_pos hfit, harcs] at h
  obtain rfl := Except.ok.inj h
  have hread : readGroups 0 false (groups (a.toNat * 40 + b.toNat) ++
      (List.drop 2 (a :: b :: rest)).flatMap fun arc => groups arc.toNat) =
        .ok (UInt64.ofNat (a.toNat * 40 + b.toNat) :: rest) := by
    rw [readGroups_groups hfit, List.drop_succ_cons, List.drop_succ_cons, List.drop_zero,
      readGroups_flatMap]
    rfl
  unfold ofBer
  rw [if_neg (by simp [groups_ne_nil]), hread]
  show Except.ok (Oid.mk (unpack _ ++ rest)) = _
  rw [unpack_pack ha hb hfit, List.cons_append, List.cons_append, List.nil_append, ← harcs]

/-! ## The text form

Numerals hold no dot, so the dots between them are those that cut the text. -/

theorem splitDots_of_no_dot {part : List Char} (h : '.' ∉ part) : splitDots part = [part] := by
  induction part with
  | nil => rfl
  | cons c cs ih =>
    obtain ⟨hc, hcs⟩ := List.ne_and_not_mem_of_not_mem_cons h
    rw [splitDots.eq_3 _ _ (fun heq => hc heq.symm), ih hcs]

theorem splitDots_append {part : List Char} (h : '.' ∉ part) (rest : List Char) :
    splitDots (part ++ '.' :: rest) = part :: splitDots rest := by
  induction part with
  | nil => rfl
  | cons c cs ih =>
    obtain ⟨hc, hcs⟩ := List.ne_and_not_mem_of_not_mem_cons h
    rw [List.cons_append, splitDots.eq_3 _ _ (fun heq => hc heq.symm), ih hcs]

/-- Parts without dots are split apart at the dots between them. -/
theorem splitDots_intercalate {parts : List (List Char)} (hne : parts ≠ [])
    (h : ∀ part ∈ parts, '.' ∉ part) : splitDots (['.'].intercalate parts) = parts := by
  induction parts with
  | nil => exact absurd rfl hne
  | cons part more ih =>
    obtain ⟨hpart, hmore⟩ := List.forall_mem_cons.1 h
    cases more with
    | nil => rw [List.intercalate_singleton, splitDots_of_no_dot hpart]
    | cons next more =>
      rw [List.intercalate_cons_cons, List.append_assoc, List.singleton_append,
        splitDots_append hpart, ih (List.cons_ne_nil _ _) hmore]

theorem dot_notMem_numeral (n : Nat) : '.' ∉ numeral n := by
  intro h
  exact absurd (digitValue?_of_mem_numeral h) (by decide)

theorem readArc_numeral (text : String) (arc : UInt64) :
    readArc text (numeral arc.toNat) = .ok arc := by
  have hle : arc.toNat ≤ 18446744073709551615 := Nat.le_of_lt_succ arc.toNat_lt
  have hempty : (numeral arc.toNat).isEmpty = false := by simp [numeral_ne_nil]
  have hdigits : ((numeral arc.toNat).all fun c => (digitValue? c).isSome) = true :=
    List.all_eq_true.2 fun c hc => digitValue?_of_mem_numeral hc
  have htext : String.ofList (numeral arc.toNat) = toString arc.toNat := by
    rw [← toList_toString_nat, String.ofList_toList]
  unfold readArc
  simp only [hempty, hdigits, htext, natural?_toString hle, UInt64.ofNat_toNat]
  rfl

/-- Arcs are read back from their numerals. -/
theorem mapM_readArc (text : String) (arcs : List UInt64) :
    (arcs.map fun arc => numeral arc.toNat).mapM (readArc text) = .ok arcs := by
  induction arcs with
  | nil => rfl
  | cons arc rest ih =>
    rw [List.map_cons, List.mapM_cons, readArc_numeral, ih]
    rfl

/-- The text form of a checked identifier is read back.  Cutting the text at its dots gives back the
numerals, and each is read as its arc. -/
theorem ofText_toText {oid : Oid} (h : oid.check = .ok ()) : ofText oid.toText = .ok oid := by
  obtain ⟨a, b, rest, harcs, -, -⟩ := check_eq_ok_iff.1 h
  have hparts : oid.toText.toList =
      ['.'].intercalate (oid.arcs.map fun arc => numeral arc.toNat) := by
    unfold toText
    rw [String.toList_intercalate, List.map_map]
    congr 1
    exact List.map_congr_left fun arc _ => toList_toString_nat arc.toNat
  have hne : (oid.arcs.map fun arc => numeral arc.toNat) ≠ [] := by simp [harcs]
  have hdots : ∀ part ∈ oid.arcs.map fun arc => numeral arc.toNat, '.' ∉ part := by
    intro part hpart
    obtain ⟨arc, -, rfl⟩ := List.mem_map.1 hpart
    exact dot_notMem_numeral _
  unfold ofText
  rw [hparts, splitDots_intercalate hne hdots, mapM_readArc]
  show ofArcs oid.arcs = .ok oid
  unfold ofArcs
  rw [h]
  rfl

end Rim.Oid
