import Rim.Proofs.Payload.Oid
/-!
# The binary form of object identifiers is exact

The reader accepts nothing that the writer would not have written.  Beside the two stands a
description of what a binary form is: one or more runs of groups, each of which ends with its first
unmarked group, does not begin with a group of zero bits, and spells a number of 64 bits.

## Main definitions

* `Oid.runValue`: the number that a run of groups spells, whatever its size.
* `Oid.IsRun`: runs that spell a 64-bit number in its shortest form.

## Main results

* `Oid.toBer_of_ofBer`: what is read is written as the bytes it was read from.
* `Oid.exists_ofBer_iff`: the byte strings that are read.
* `Oid.binary_form_exact`: reading and writing undo each other, and what the reader accepts.
-/

namespace Rim.Oid

/-! ## Runs of groups -/

/-- The number that a run of groups spells. -/
def runValue (run : List UInt8) : Nat :=
  run.foldl (fun value b => 128 * value + b.toNat % 128) 0

/-- A run of groups that spells a 64-bit number: every group but the last is marked as continued,
the first is no leading zero, and the number fits. -/
structure IsRun (run : List UInt8) : Prop where
  complete : ∃ leading last, run = leading ++ [last] ∧ (∀ b ∈ leading, 128 ≤ b.toNat) ∧
    last.toNat < 128
  minimal : run.head? ≠ some 0x80
  fits : runValue run < 18446744073709551616

theorem IsRun.ne_nil {run : List UInt8} (h : IsRun run) : run ≠ [] := by
  obtain ⟨leading, last, rfl, -, -⟩ := h.complete
  simp

/-! ## What is written are runs -/

theorem le_of_mem_leadingGroups {fuel n : Nat} {b : UInt8} (hb : b ∈ leadingGroups fuel n) :
    128 ≤ b.toNat := by
  induction fuel generalizing n with
  | zero => cases hb
  | succ fuel ih =>
    rw [leadingGroups] at hb
    split at hb
    case isTrue => cases hb
    case isFalse =>
      rcases List.mem_append.1 hb with hb | hb
      · exact ih hb
      · rw [List.mem_singleton.1 hb, toNat_continued _ (Nat.mod_lt n (by decide))]
        omega

theorem runValue_leadingGroups {fuel n : Nat} (hfuel : n < 128 ^ fuel) :
    runValue (leadingGroups fuel n) = n := by
  induction fuel generalizing n with
  | zero =>
    obtain rfl : n = 0 := by simpa using hfuel
    rfl
  | succ fuel ih =>
    rw [leadingGroups]
    split
    case isTrue h => exact h.symm
    case isFalse h =>
      have hlow : n / 128 < 128 ^ fuel := by
        rw [Nat.pow_succ] at hfuel
        omega
      have hhigh := ih hlow
      unfold runValue at hhigh ⊢
      rw [List.foldl_append, hhigh, List.foldl_cons, List.foldl_nil,
        toNat_continued _ (Nat.mod_lt n (by decide))]
      omega

/-- The groups of a number do not begin with a group of zero bits. -/
theorem head?_leadingGroups {fuel n : Nat} (hfuel : n < 128 ^ fuel) :
    (leadingGroups fuel n).head? ≠ some 0x80 := by
  induction fuel generalizing n with
  | zero => simp [leadingGroups]
  | succ fuel ih =>
    have hlow : n / 128 < 128 ^ fuel := by
      rw [Nat.pow_succ] at hfuel
      omega
    rw [leadingGroups]
    split
    case isTrue => simp
    case isFalse h =>
      cases hleading : leadingGroups fuel (n / 128) with
      | cons b rest =>
        have hhead := ih hlow
        rwa [hleading] at hhead
      | nil =>
        have hzero : n / 128 = 0 := by
          rw [← runValue_leadingGroups hlow, hleading]
          rfl
        intro heq
        have hb := congrArg UInt8.toNat (Option.some.inj heq)
        rw [toNat_continued _ (Nat.mod_lt n (by decide))] at hb
        simp only [UInt8.reduceToNat] at hb
        omega

/-- The groups of a number make up the number. -/
theorem runValue_groups {n : Nat} (hn : n < 18446744073709551616) : runValue (groups n) = n := by
  have hhigh : n / 128 < 128 ^ 10 := by omega
  have hleading := runValue_leadingGroups hhigh
  unfold runValue groups at *
  rw [List.foldl_append, hleading, List.foldl_cons, List.foldl_nil,
    toNat_last _ (Nat.mod_lt n (by decide))]
  omega

/-- The groups of a number are a run. -/
theorem isRun_groups {n : Nat} (hn : n < 18446744073709551616) : IsRun (groups n) where
  complete :=
    ⟨_, _, rfl, fun _ => le_of_mem_leadingGroups, by
      rw [toNat_last _ (Nat.mod_lt n (by decide))]
      exact Nat.mod_lt n (by decide)⟩
  minimal := by
    have hhigh : n / 128 < 128 ^ 10 := by omega
    have hhead := head?_leadingGroups hhigh
    unfold groups
    cases hleading : leadingGroups 10 (n / 128) with
    | cons b rest => rwa [hleading] at hhead
    | nil =>
      intro heq
      have hb := congrArg UInt8.toNat (Option.some.inj heq)
      rw [toNat_last _ (Nat.mod_lt n (by decide))] at hb
      simp only [UInt8.reduceToNat] at hb
      omega
  fits := (runValue_groups hn).symm ▸ hn

/-! ## What is read was written

The reader holds a number; the groups it has taken are the leading ones of that number, so a marked
group makes one more of them and an unmarked group completes the number. -/

theorem leadingGroups_succ {fuel n : Nat} (hfuel : n < 128 ^ fuel) :
    leadingGroups (fuel + 1) n = leadingGroups fuel n := by
  induction fuel generalizing n with
  | zero =>
    obtain rfl : n = 0 := by simpa using hfuel
    rfl
  | succ fuel ih =>
    have hlow : n / 128 < 128 ^ fuel := by
      rw [Nat.pow_succ] at hfuel
      omega
    rw [leadingGroups, ih hlow, leadingGroups]

theorem leadingGroups_push {value d : Nat} (hd : d < 128) (hv : value < 144115188075855872)
    (hne : 128 * value + d ≠ 0) :
    leadingGroups 10 (128 * value + d) = leadingGroups 10 value ++ [UInt8.ofNat (d + 128)] := by
  have hfuel : leadingGroups 10 value = leadingGroups 9 value := leadingGroups_succ (by omega)
  rw [hfuel, leadingGroups, if_neg hne, show (128 * value + d) / 128 = value by omega,
    show (128 * value + d) % 128 = d by omega]

/-- The groups of a number are those of its higher part and its last seven bits. -/
theorem groups_push {value d : Nat} (hd : d < 128) :
    groups (128 * value + d) = leadingGroups 10 value ++ [UInt8.ofNat d] := by
  rw [groups, show (128 * value + d) / 128 = value by omega,
    show (128 * value + d) % 128 = d by omega]

/-- What is read as numbers is made of their groups.  The induction is on the bytes left; whether a
number has begun shows in its value. -/
theorem flatMap_groups_of_readGroups {value : Nat} {continued : Bool} {bytes : List UInt8}
    {numbers : List UInt64} (hstate : continued = true ↔ value ≠ 0)
    (h : readGroups value continued bytes = .ok numbers) :
    leadingGroups 10 value ++ bytes = numbers.flatMap fun number => groups number.toNat := by
  induction bytes generalizing value continued numbers with
  | nil =>
    rw [readGroups] at h
    split at h
    case isTrue => cases h
    case isFalse hc =>
      obtain rfl := Except.ok.inj h
      obtain rfl : value = 0 := by
        by_contra hv
        exact hc (hstate.2 hv)
      rfl
  | cons b rest ih =>
    have hb := b.toNat_lt
    rw [readGroups] at h
    split at h
    case isTrue => cases h
    case isFalse hfirst =>
      split at h
      case isTrue => cases h
      case isFalse hv =>
        have hfit : value < 144115188075855872 := by omega
        have hd : b.toNat % 128 < 128 := Nat.mod_lt _ (by decide)
        dsimp only at h
        split at h
        case isTrue hmark =>
          obtain ⟨others, hothers, rfl⟩ := exists_of_map_eq_ok h
          have hrest := ih (by simp) hothers
          have hlast : UInt8.ofNat (b.toNat % 128) = b := by
            have hlow : b.toNat < 128 := UInt8.lt_iff_toNat_lt.1 hmark
            rw [Nat.mod_eq_of_lt hlow, UInt8.ofNat_toNat]
          rw [List.flatMap_cons, ← hrest, UInt64.toNat_ofNat', Nat.mod_eq_of_lt (by omega),
            groups_push hd, hlast, List.append_assoc]
          rfl
        case isFalse hmark =>
          have hcontinued : b.toNat % 128 + 128 = b.toNat := by
            rw [UInt8.lt_iff_toNat_lt] at hmark
            simp only [UInt8.reduceToNat] at hmark
            omega
          have hne : 128 * value + b.toNat % 128 ≠ 0 := by
            intro hzero
            refine hfirst ?_
            have hc : continued = false := by
              rw [← Bool.not_eq_true, hstate]
              omega
            have hzero' : b = 0x80 := UInt8.toNat_inj.1 (by simp only [UInt8.reduceToNat]; omega)
            rw [hc, hzero']
            rfl
          have hrest := ih (iff_of_true rfl hne) h
          rw [leadingGroups_push hd hfit hne, hcontinued, UInt8.ofNat_toNat,
            List.append_assoc] at hrest
          exact hrest

/-- The numbers that are read are written as the bytes they were read from. -/
theorem flatMap_groups_of_readGroups_zero {bytes : List UInt8} {numbers : List UInt64}
    (h : readGroups 0 false bytes = .ok numbers) :
    (numbers.flatMap fun number => groups number.toNat) = bytes :=
  (flatMap_groups_of_readGroups (by simp) h).symm

/-- A first number is taken apart into two arcs that pass the check and pack into it again. -/
theorem unpack_eq (first : UInt64) :
    ∃ a b, unpack first = [a, b] ∧ a.toNat ≤ 2 ∧ (a.toNat < 2 → b.toNat < 40) ∧
      a.toNat * 40 + b.toNat = first.toNat := by
  have hforty : first < 40 ↔ first.toNat < 40 := UInt64.lt_iff_toNat_lt
  have heighty : first < 80 ↔ first.toNat < 80 := UInt64.lt_iff_toNat_lt
  have hsub : ∀ k : UInt64, k.toNat ≤ first.toNat → (first - k).toNat = first.toNat - k.toNat :=
    fun k hk => UInt64.toNat_sub_of_le _ _ (UInt64.le_iff_toNat_le.2 hk)
  unfold unpack
  simp only [hforty, heighty]
  obtain h | h | h : first.toNat < 40 ∨ 40 ≤ first.toNat ∧ first.toNat < 80 ∨
      80 ≤ first.toNat := by omega
  · rw [if_pos h]
    exact ⟨0, first, rfl, by simp, by simp [h], by simp⟩
  · have hb : (first - 40).toNat = first.toNat - 40 := hsub 40 h.1
    rw [if_neg (by omega), if_pos h.2]
    exact ⟨1, first - 40, rfl, by simp, by omega, by simp only [UInt64.reduceToNat]; omega⟩
  · have hb : (first - 80).toNat = first.toNat - 80 := hsub 80 h
    rw [if_neg (by omega), if_neg (by omega)]
    exact ⟨2, first - 80, rfl, by simp, by simp, by simp only [UInt64.reduceToNat]; omega⟩

/-- What is read are the arcs of some numbers, the first of which packs two. -/
theorem exists_of_ofBer {bytes : List UInt8} {oid : Oid} (h : ofBer bytes = .ok oid) :
    ∃ first rest, readGroups 0 false bytes = .ok (first :: rest) ∧
      oid = ⟨unpack first ++ rest⟩ := by
  unfold ofBer at h
  split at h
  case isTrue => cases h
  case isFalse =>
    obtain ⟨numbers, hnumbers, h⟩ := exists_of_bind_eq_ok h
    cases numbers with
    | nil => cases h
    | cons first rest => exact ⟨first, rest, hnumbers, (Except.ok.inj h).symm⟩

/-- What is read is written as the bytes it was read from. -/
theorem toBer_of_ofBer {bytes : List UInt8} {oid : Oid} (h : ofBer bytes = .ok oid) :
    oid.toBer = .ok bytes := by
  obtain ⟨first, rest, hread, rfl⟩ := exists_of_ofBer h
  obtain ⟨a, b, harcs, ha, hb, hfirst⟩ := unpack_eq first
  rw [harcs, List.cons_append, List.cons_append, List.nil_append]
  have hcheck : check ⟨a :: b :: rest⟩ = .ok () := check_eq_ok_iff.2 ⟨a, b, rest, rfl, ha, hb⟩
  have hnumber : firstNumber ⟨a :: b :: rest⟩ = first.toNat := hfirst
  rw [toBer_of_check hcheck, hnumber, if_pos first.toNat_lt]
  exact congrArg Except.ok (flatMap_groups_of_readGroups_zero hread)

/-! ## What is accepted -/

/-- A run is read as the number that it spells. -/
theorem readGroups_run {leading : List UInt8} {last : UInt8} {value : Nat} {continued : Bool}
    (hleading : ∀ b ∈ leading, 128 ≤ b.toNat) (hlast : last.toNat < 128)
    (hfirst : continued = true ∨ (leading ++ [last]).head? ≠ some 0x80)
    (hfit : (leading ++ [last]).foldl (fun v b => 128 * v + b.toNat % 128) value <
      18446744073709551616) (rest : List UInt8) :
    readGroups value continued (leading ++ last :: rest) =
      (readGroups 0 false rest).map (UInt64.ofNat
        ((leading ++ [last]).foldl (fun v b => 128 * v + b.toNat % 128) value) :: ·) := by
  have hgrows : ∀ (l : List UInt8) (v : Nat),
      v ≤ l.foldl (fun v b => 128 * v + b.toNat % 128) v := by
    intro l
    induction l with
    | nil => exact fun v => Nat.le_refl v
    | cons b l ih => exact fun v => Nat.le_trans (by omega) (ih (128 * v + b.toNat % 128))
  induction leading generalizing value continued with
  | nil =>
    have hsmall : value < 144115188075855872 := by
      simp only [List.nil_append, List.foldl_cons, List.foldl_nil] at hfit
      omega
    have hd : readGroups value continued (UInt8.ofNat last.toNat :: rest) = _ :=
      readGroups_last hlast hsmall rest
    rw [UInt8.ofNat_toNat] at hd
    rw [List.nil_append, hd, List.nil_append, List.foldl_cons, List.foldl_nil,
      Nat.mod_eq_of_lt hlast]
  | cons b leading ih =>
    obtain ⟨hb, hleading⟩ := List.forall_mem_cons.1 hleading
    have hb' := b.toNat_lt
    rw [List.cons_append, List.foldl_cons] at hfit
    have hvalue := hgrows (leading ++ [last]) (128 * value + b.toNat % 128)
    have hfirst' : continued = true ∨ b.toNat - 128 ≠ 0 := by
      refine hfirst.imp_right fun hhead hzero => hhead ?_
      have hb80 : b = 0x80 := UInt8.toNat_inj.1 (by simp only [UInt8.reduceToNat]; omega)
      rw [hb80]
      rfl
    have hsmall : value < 144115188075855872 := by omega
    have hcontinued := readGroups_continued (by omega) hfirst' hsmall (leading ++ last :: rest)
    rw [Nat.sub_add_cancel hb, UInt8.ofNat_toNat,
      show b.toNat - 128 = b.toNat % 128 by omega] at hcontinued
    rw [List.cons_append, hcontinued, ih hleading (.inl rfl) hfit]
    rfl

theorem readGroups_of_isRun {run : List UInt8} (h : IsRun run) (rest : List UInt8) :
    readGroups 0 false (run ++ rest) =
      (readGroups 0 false rest).map (UInt64.ofNat (runValue run) :: ·) := by
  obtain ⟨leading, last, rfl, hleading, hlast⟩ := h.complete
  rw [List.append_assoc, List.singleton_append]
  exact readGroups_run hleading hlast (.inr h.minimal) h.fits rest

/-- Runs that follow one another are read one by one. -/
theorem readGroups_flatten {runs : List (List UInt8)} (h : ∀ run ∈ runs, IsRun run) :
    readGroups 0 false runs.flatten =
      .ok (runs.map fun run => UInt64.ofNat (runValue run)) := by
  induction runs with
  | nil => rfl
  | cons run runs ih =>
    obtain ⟨hrun, hruns⟩ := List.forall_mem_cons.1 h
    rw [List.flatten_cons, readGroups_of_isRun hrun, ih hruns]
    rfl

/-- The runs of a binary form spell the number that packs the first two arcs, and then the other
arcs. -/
theorem exists_runs_of_ofBer {bytes : List UInt8} {oid : Oid} (h : ofBer bytes = .ok oid) :
    ∃ runs : List (List UInt8), bytes = runs.flatten ∧ (∀ run ∈ runs, IsRun run) ∧
      runs.map runValue = oid.firstNumber :: (oid.arcs.drop 2).map UInt64.toNat := by
  have hwritten := toBer_of_ofBer h
  obtain ⟨hcheck, hfit⟩ := exists_toBer_iff.1 ⟨bytes, hwritten⟩
  rw [toBer_of_check hcheck, if_pos hfit] at hwritten
  refine ⟨groups oid.firstNumber :: (oid.arcs.drop 2).map fun arc => groups arc.toNat, ?_, ?_, ?_⟩
  · rw [List.flatten_cons, ← List.flatMap_def]
    exact (Except.ok.inj hwritten).symm
  · refine List.forall_mem_cons.2 ⟨isRun_groups hfit, fun run hrun => ?_⟩
    obtain ⟨arc, -, rfl⟩ := List.mem_map.1 hrun
    exact isRun_groups arc.toNat_lt
  · rw [List.map_cons, runValue_groups hfit, List.map_map]
    congr 1
    exact List.map_congr_left fun arc _ => runValue_groups arc.toNat_lt

/-- The byte strings that are read: one run or more, and nothing beside. -/
theorem exists_ofBer_iff {bytes : List UInt8} :
    (∃ oid, ofBer bytes = .ok oid) ↔
      ∃ runs : List (List UInt8), runs ≠ [] ∧ bytes = runs.flatten ∧ ∀ run ∈ runs, IsRun run := by
  constructor
  · rintro ⟨oid, h⟩
    obtain ⟨runs, hbytes, hruns, hvalues⟩ := exists_runs_of_ofBer h
    refine ⟨runs, ?_, hbytes, hruns⟩
    rintro rfl
    cases hvalues
  · rintro ⟨runs, hne, rfl, hruns⟩
    obtain ⟨run, more, rfl⟩ := List.exists_cons_of_ne_nil hne
    have hread := readGroups_flatten hruns
    obtain ⟨b, rest, hb⟩ := List.exists_cons_of_ne_nil (hruns run List.mem_cons_self).ne_nil
    refine ⟨⟨unpack (UInt64.ofNat (runValue run)) ++
      more.map fun run => UInt64.ofNat (runValue run)⟩, ?_⟩
    unfold ofBer
    rw [hread, List.flatten_cons, hb]
    rfl

/-- Reading some numbers never ends in the error of reading none. -/
theorem readGroups_ne_empty {value : Nat} {continued : Bool} {bytes : List UInt8} :
    readGroups value continued bytes ≠ .error .empty := by
  intro h
  induction bytes generalizing value continued with
  | nil =>
    rw [readGroups] at h
    split at h <;> cases h
  | cons b rest ih =>
    rw [readGroups] at h
    split at h
    case isTrue => cases h
    case isFalse =>
      split at h
      case isTrue => cases h
      case isFalse =>
        dsimp only at h
        split at h
        case isFalse => exact ih h
        case isTrue =>
          cases hrest : readGroups 0 false rest with
          | ok others =>
            rw [hrest] at h
            cases h
          | error e =>
            rw [hrest] at h
            cases h
            exact ih hrest

/-- The reader has a number to take apart whenever it has read any bytes. -/
theorem ofBer_eq_empty_iff {bytes : List UInt8} : ofBer bytes = .error .empty ↔ bytes = [] := by
  constructor
  · intro h
    unfold ofBer at h
    split at h
    case isTrue hempty => exact List.isEmpty_iff.1 hempty
    case isFalse =>
      cases hnumbers : readGroups 0 false bytes with
      | error e =>
        rw [hnumbers] at h
        cases h
        exact absurd hnumbers readGroups_ne_empty
      | ok numbers =>
        cases numbers with
        | nil => exact (flatMap_groups_of_readGroups_zero hnumbers).symm
        | cons first rest =>
          rw [hnumbers] at h
          cases h
  · rintro rfl
    rfl

/-! ## The binary form is exact -/

/-- The binary form and the identifiers that have one are in bijection: a byte string is read as an
identifier if and only if the identifier is written as that byte string.  What is read passes the
check, and its bytes are runs that spell, each in its shortest form and within 64 bits, the number
that packs the first two arcs and then every other arc; a reader of any bytes at all has a number to
take apart.  The text of every checked identifier, whatever the size of its arcs, is read back. -/
theorem binary_form_exact (bytes : List UInt8) (oid : Oid) :
    (ofBer bytes = .ok oid ↔ oid.toBer = .ok bytes) ∧
      (ofBer bytes = .ok oid → oid.check = .ok () ∧
        ∃ runs : List (List UInt8), bytes = runs.flatten ∧ (∀ run ∈ runs, IsRun run) ∧
          runs.map runValue = oid.firstNumber :: (oid.arcs.drop 2).map UInt64.toNat) ∧
      ((∃ o, ofBer bytes = .ok o) ↔
        ∃ runs : List (List UInt8), runs ≠ [] ∧ bytes = runs.flatten ∧ ∀ run ∈ runs, IsRun run) ∧
      (ofBer bytes = .error .empty ↔ bytes = []) ∧
      (oid.check = .ok () → ofText oid.toText = .ok oid) := by
  refine ⟨⟨toBer_of_ofBer, ofBer_of_toBer⟩, fun h => ?_, exists_ofBer_iff, ofBer_eq_empty_iff,
    ofText_toText⟩
  have hchecked := exists_toBer_iff.1 ⟨bytes, toBer_of_ofBer h⟩
  exact ⟨hchecked.1, exists_runs_of_ofBer h⟩

/-- The identifier with the widest second arc that has a binary form: its first run has ten groups,
and a bit more would not fit. -/
theorem binary_form_exact_widest :
    ofBer [0x81, 0xff, 0xff, 0xff, 0xff, 0xff, 0xff, 0xff, 0xff, 0x7f, 0x03] =
        .ok ⟨[2, 18446744073709551535, 3]⟩ ∧
      toBer ⟨[2, 18446744073709551535, 3]⟩ =
        .ok [0x81, 0xff, 0xff, 0xff, 0xff, 0xff, 0xff, 0xff, 0xff, 0x7f, 0x03] ∧
      ofText (toText ⟨[2, 18446744073709551535, 3]⟩) = .ok ⟨[2, 18446744073709551535, 3]⟩ := by
  have hread : ofBer [0x81, 0xff, 0xff, 0xff, 0xff, 0xff, 0xff, 0xff, 0xff, 0x7f, 0x03] =
      .ok ⟨[2, 18446744073709551535, 3]⟩ := by decide +kernel
  obtain ⟨hexact, hruns, -, -, htext⟩ := binary_form_exact
    [0x81, 0xff, 0xff, 0xff, 0xff, 0xff, 0xff, 0xff, 0xff, 0x7f, 0x03]
    ⟨[2, 18446744073709551535, 3]⟩
  exact ⟨hread, hexact.1 hread, htext (hruns hread).1⟩

end Rim.Oid
