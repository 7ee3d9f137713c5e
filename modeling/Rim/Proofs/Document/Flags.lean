import Mathlib.Data.List.Induction
import Rim.Proofs.Document.Travels
/-!
# Flags are one finite map

Ten flags are fields of the map, and every other flag is handed to the hook in its slot, if there is
one and it has flags at all.  Which of the two answers for a flag is decided by its number, alike
for reading, writing and unsetting.  So if the hook keeps what it is told of the flags it owns, and
owns none of the built-in ones, the two together keep what they are told of all flags that somebody
owns.

A hook changes with what it is told, and keeping its laws now says nothing about later.  The laws of
a store are therefore laws of all states that writes lead to.

## Main definitions

* `FlagWrite`, `FlagStore.run`: writes, and a store after some of them.
* `FlagStore.Obeys`, `FlagStore.Lawful`: the laws of a store that owns some flags.
* `FlagStore.Delegate`: the slots a map may have: empty, with a hook without flags, with a lawful
  one.
* `FlagStore.Remembers`: what a store answers after some writes.

## Main results

* `FlagStore.Lawful.remembers`: a lawful store answers with what was written last.
* `FlagsOver.lawful`: the built-in flags before a lawful hook are lawful.
* `Hook.lawful_of_holdsFlags`: hooks that hold their flags are lawful.
* `FlagsMap.one_finite_map`: the flags of a map, and the entries of its record.
-/

namespace Rim

/-! ## Writes -/

/-- A write to a flag. -/
inductive FlagWrite where
  | set (flag : Int64) (value : Bool)
  | setTrue (flag : Int64)
  | setFalse (flag : Int64)
  | clear (flag : Int64)
  deriving DecidableEq, Repr

namespace FlagWrite

/-- The flag that is written. -/
def flag : FlagWrite → Int64
  | set flag _ | setTrue flag | setFalse flag | clear flag => flag

/-- The value it is given; none if it is unset. -/
def value : FlagWrite → Option Bool
  | set _ value => some value
  | setTrue _ => some true
  | setFalse _ => some false
  | clear _ => none

/-- The value a flag was last given, if it was written at all. -/
def last? (flag : Int64) (writes : List FlagWrite) : Option (Option Bool) :=
  (writes.reverse.find? (·.flag == flag)).map value

/-- The last write to a flag is the one that counts. -/
theorem last?_concat (flag : Int64) (writes : List FlagWrite) (w : FlagWrite) :
    last? flag (writes ++ [w]) = if w.flag = flag then some w.value else last? flag writes := by
  unfold last?
  rw [List.reverse_append, List.reverse_singleton, List.singleton_append, List.find?_cons]
  by_cases h : w.flag = flag
  · simp [h]
  · simp [h, beq_false_of_ne h]

end FlagWrite

/-! ## Stores -/

namespace FlagStore

variable {S : Type} [FlagStore S] {owns : Int64 → Prop} {s : S}

/-- The store after a write. -/
def apply (s : S) (w : FlagWrite) : S := put s w.flag w.value

/-- The store after some writes. -/
def run (s : S) (writes : List FlagWrite) : S := writes.foldl apply s

@[simp] theorem run_nil (s : S) : run s [] = s := rfl

theorem run_cons (s : S) (w : FlagWrite) (writes : List FlagWrite) :
    run s (w :: writes) = run (apply s w) writes := rfl

theorem run_append (s : S) (writes writes' : List FlagWrite) :
    run s (writes ++ writes') = run (run s writes) writes' := List.foldl_append

/-- Writes are made one after the other. -/
theorem run_concat (s : S) (writes : List FlagWrite) (w : FlagWrite) :
    run s (writes ++ [w]) = apply (run s writes) w := run_append s writes [w]

/-- The laws of a store at one of its states: it ignores flags it does not own, gives back what it
was told of one it owns, leaves the others it owns alone, and says whether any of them has a
value. -/
structure Obeys (owns : Int64 → Prop) (s : S) : Prop where
  get_of_not_owns : ∀ flag, ¬ owns flag → get s flag = none
  put_of_not_owns : ∀ flag value, ¬ owns flag → put s flag value = s
  get_put : ∀ flag value, owns flag → get (put s flag value) flag = value
  get_put_of_ne : ∀ flag value other, owns flag → owns other → other ≠ flag →
    get (put s flag value) other = get s other
  holdsFlag_iff : holdsFlag s = true ↔ ∃ flag, owns flag ∧ (get s flag).isSome

/-- A store obeys the laws whatever is written to it. -/
def Lawful (owns : Int64 → Prop) (s : S) : Prop := ∀ writes, Obeys owns (run s writes)

namespace Lawful

theorem obeys (h : Lawful owns s) : Obeys owns s := h []

theorem run (h : Lawful owns s) (writes : List FlagWrite) : Lawful owns (run s writes) := by
  intro writes'
  rw [← run_append]
  exact h (writes ++ writes')

theorem apply (h : Lawful owns s) (w : FlagWrite) : Lawful owns (apply s w) := h.run [w]

/-- A property that writes keep, and under which a store obeys the laws, makes it lawful. -/
theorem of_invariant {P : S → Prop} (hobeys : ∀ s, P s → Obeys owns s)
    (hput : ∀ s flag value, P s → P (put s flag value)) (h : P s) : Lawful owns s := by
  intro writes
  induction writes generalizing s with
  | nil => exact hobeys s h
  | cons w writes ih => exact ih (hput s w.flag w.value h)

end Lawful

/-- What a store answers after some writes: of an owned flag what was last written, if it was, and
of any other flag nothing; and one write more changes the flag it is about, if that is owned, and
nothing else. -/
structure Remembers (owns : Int64 → Prop) (s : S) (writes : List FlagWrite) : Prop where
  get_run : ∀ flag, owns flag →
    get (run s writes) flag = (FlagWrite.last? flag writes).getD (get s flag)
  get_run_of_not_owns : ∀ flag, ¬ owns flag → get (run s writes) flag = none
  get_apply_of_ne : ∀ (w : FlagWrite) flag, flag ≠ w.flag →
    get (apply (run s writes) w) flag = get (run s writes) flag
  apply_of_not_owns : ∀ w : FlagWrite, ¬ owns w.flag → apply (run s writes) w = run s writes
  holdsFlag_iff : holdsFlag (run s writes) = true ↔ ∃ flag, (get (run s writes) flag).isSome

/-- A write to a lawful store leaves all other flags as they were, owned or not. -/
theorem Lawful.get_apply_of_ne (h : Lawful owns s) {w : FlagWrite} {flag : Int64}
    (hne : flag ≠ w.flag) : get (FlagStore.apply s w) flag = get s flag := by
  by_cases hw : owns w.flag
  · by_cases hflag : owns flag
    · exact h.obeys.get_put_of_ne w.flag w.value flag hw hflag hne
    · rw [(h.apply w).obeys.get_of_not_owns flag hflag, h.obeys.get_of_not_owns flag hflag]
  · exact congrArg (get · flag) (h.obeys.put_of_not_owns w.flag w.value hw)

/-- After some writes a flag has the value last written, or the one it had before. -/
theorem Lawful.get_run (h : Lawful owns s) (writes : List FlagWrite) {flag : Int64}
    (hflag : owns flag) :
    get (FlagStore.run s writes) flag = (FlagWrite.last? flag writes).getD (get s flag) := by
  induction writes using List.reverseRecOn with
  | nil => rfl
  | append_singleton writes w ih =>
    rw [run_concat, FlagWrite.last?_concat]
    by_cases hw : w.flag = flag
    · subst hw
      rw [if_pos rfl]
      exact (h.run writes).obeys.get_put w.flag w.value hflag
    · rw [if_neg hw, (h.run writes).get_apply_of_ne (Ne.symm hw), ih]

/-- A lawful store remembers what was last written to each flag.  One that nobody owns has no value.
-/
theorem Lawful.remembers (h : Lawful owns s) (writes : List FlagWrite) :
    Remembers owns s writes where
  get_run _ hflag := h.get_run writes hflag
  get_run_of_not_owns flag hflag := (h writes).get_of_not_owns flag hflag
  get_apply_of_ne _ _ hne := (h.run writes).get_apply_of_ne hne
  apply_of_not_owns w hw := (h writes).put_of_not_owns w.flag w.value hw
  holdsFlag_iff := by
    rw [(h writes).holdsFlag_iff]
    constructor
    · rintro ⟨flag, -, hsome⟩
      exact ⟨flag, hsome⟩
    · rintro ⟨flag, hsome⟩
      refine ⟨flag, ?_, hsome⟩
      by_contra hflag
      rw [(h writes).get_of_not_owns flag hflag] at hsome
      cases hsome

end FlagStore

/-! ## Built-in flags -/

namespace FlagsBody

/-- The flags that are built in. -/
def IsBuiltin (flag : Int64) : Prop := 0 ≤ flag.toInt ∧ flag.toInt ≤ 9

instance (flag : Int64) : Decidable (IsBuiltin flag) := inferInstanceAs (Decidable (_ ∧ _))

theorem index?_eq_none_iff {flag : Int64} : index? flag = none ↔ ¬ IsBuiltin flag := by
  unfold index? IsBuiltin
  split
  case isTrue h => simp only [reduceCtorEq, false_iff, not_not]; omega
  case isFalse h => simp only [true_iff]; omega

/-- A flag is built in if its number is that of one of the built-in flags. -/
theorem index?_eq_some_iff {flag : Int64} {i : Fin 10} :
    index? flag = some i ↔ flag.toInt = (i.val : Int) := by
  have hi := i.isLt
  unfold index?
  split
  case isTrue h =>
    rw [Option.some.injEq, Fin.ext_iff]
    dsimp only
    omega
  case isFalse h => simp only [reduceCtorEq, false_iff]; omega

theorem exists_index? {flag : Int64} (h : IsBuiltin flag) : ∃ i, index? flag = some i := by
  cases hi : index? flag with
  | some i => exact ⟨i, rfl⟩
  | none => exact absurd h (index?_eq_none_iff.1 hi)

/-- The number of a built-in flag. -/
def number (i : Fin 10) : Int64 := Int64.ofNat i

theorem toInt_number (i : Fin 10) : (number i).toInt = (i.val : Int) := by
  revert i
  decide

theorem index?_number (i : Fin 10) : index? (number i) = some i :=
  index?_eq_some_iff.2 (toInt_number i)

theorem isBuiltin_of_index? {flag : Int64} {i : Fin 10} (h : index? flag = some i) :
    IsBuiltin flag := by
  by_contra hnot
  rw [index?_eq_none_iff.2 hnot] at h
  cases h

/-- Built-in flags of one number are the same. -/
theorem index?_injective {flag other : Int64} {i : Fin 10} (h : index? flag = some i)
    (h' : index? other = some i) : flag = other :=
  Int64.toInt_inj.1 ((index?_eq_some_iff.1 h).trans (index?_eq_some_iff.1 h').symm)

/-- Built-in flags are held if any of them has a value. -/
theorem holdsFlag_eq_true_iff {b : FlagsBody} : b.holdsFlag = true ↔ ∃ i, (b.flag i).isSome := by
  rw [← Bool.not_eq_false, holdsFlag_eq_false_iff, not_forall]
  exact exists_congr fun i => Option.isSome_iff_ne_none.symm

end FlagsBody

/-! ## The built-in flags before a hook -/

namespace FlagStore

variable {H : Type} [FlagStore H] {owns : Int64 → Prop}

/-- A hook that answers for no flag: it reads none, ignores what it is told, and holds none. -/
structure Idle (h : H) : Prop where
  get_eq : ∀ flag, get h flag = none
  put_eq : ∀ flag value, put h flag value = h
  holdsFlag_eq : holdsFlag h = false

/-- The slots behind the built-in flags: an empty one, one with a hook that answers for no flag, and
one with a lawful hook that owns some flags beyond the built-in ones. -/
inductive Delegate (owns : Int64 → Prop) : Option H → Prop
  | empty (hnobody : ∀ flag, ¬ owns flag) : Delegate owns none
  | idle {h : H} (hidle : Idle h) (hnobody : ∀ flag, ¬ owns flag) : Delegate owns (some h)
  | store {h : H} (hlawful : Lawful owns h)
    (hbeyond : ∀ flag, owns flag → ¬ FlagsBody.IsBuiltin flag) : Delegate owns (some h)

/-- Where nobody owns a flag, a store that answers for none obeys the laws. -/
theorem Idle.obeys {h : H} (hidle : Idle h) (hnobody : ∀ flag, ¬ owns flag) : Obeys owns h where
  get_of_not_owns flag _ := hidle.get_eq flag
  put_of_not_owns flag value _ := hidle.put_eq flag value
  get_put flag _ hflag := absurd hflag (hnobody flag)
  get_put_of_ne flag _ _ hflag := absurd hflag (hnobody flag)
  holdsFlag_iff := by
    rw [hidle.holdsFlag_eq]
    constructor
    · intro h
      cases h
    · rintro ⟨flag, hflag, -⟩
      exact absurd hflag (hnobody flag)

/-- A store that answers for no flag is lawful where nobody owns one. -/
theorem Idle.lawful {h : H} (hidle : Idle h) (hnobody : ∀ flag, ¬ owns flag) : Lawful owns h :=
  Lawful.of_invariant (P := Idle) (fun _ hs => hs.obeys hnobody)
    (fun _ flag value hs => (hs.put_eq flag value).symm ▸ hs) hidle

theorem idle_none : Idle (none : Option H) := ⟨fun _ => rfl, fun _ _ => rfl, rfl⟩

theorem run_some (h : H) (writes : List FlagWrite) : run (some h) writes = some (run h writes) := by
  induction writes generalizing h with
  | nil => rfl
  | cons w writes ih => exact ih (apply h w)

/-- A slot obeys the laws as the hook in it does. -/
theorem Lawful.some {h : H} (hlawful : Lawful owns h) : Lawful owns (some h) := by
  intro writes
  rw [run_some]
  have hobeys := hlawful writes
  exact {
    get_of_not_owns := hobeys.get_of_not_owns
    put_of_not_owns := fun flag value hflag =>
      congrArg Option.some (hobeys.put_of_not_owns flag value hflag)
    get_put := hobeys.get_put
    get_put_of_ne := hobeys.get_put_of_ne
    holdsFlag_iff := hobeys.holdsFlag_iff }

/-- A slot that is delegated flags to is lawful for those it owns. -/
theorem Delegate.lawful {slot : Option H} (h : Delegate owns slot) : Lawful owns slot := by
  cases h with
  | empty hnobody => exact idle_none.lawful hnobody
  | idle hidle hnobody => exact (hidle.lawful hnobody).some
  | store hlawful => exact hlawful.some

/-- Flags are delegated only beyond the built-in ones. -/
theorem Delegate.beyond {slot : Option H} (h : Delegate owns slot) {flag : Int64}
    (hflag : owns flag) : ¬ FlagsBody.IsBuiltin flag := by
  cases h with
  | empty hnobody => exact absurd hflag (hnobody flag)
  | idle _ hnobody => exact absurd hflag (hnobody flag)
  | store _ hbeyond => exact hbeyond flag hflag

end FlagStore

namespace FlagsOver

open FlagStore FlagsBody

variable {H : Type} [FlagStore H] {owns : Int64 → Prop} {m : FlagsOver H} {flag : Int64}

/-- A built-in flag is read from the map itself. -/
theorem get_of_index?_eq_some {i : Fin 10} (h : index? flag = some i) :
    FlagStore.get m flag = m.flag i := by
  show FlagsOver.get m flag = _
  rw [FlagsOver.get, h]

/-- Any other flag is read from the hook. -/
theorem get_of_index?_eq_none (h : index? flag = none) :
    FlagStore.get m flag = FlagStore.get m.hook flag := by
  show FlagsOver.get m flag = _
  rw [FlagsOver.get, h]

/-- A built-in flag is written to the map itself. -/
theorem put_of_index?_eq_some {i : Fin 10} (h : index? flag = some i) (value : Option Bool) :
    FlagStore.put m flag value = { m with toFlagsBody := m.withFlag i value } := by
  show FlagsOver.put m flag value = _
  rw [FlagsOver.put, h]

/-- Any other flag is written to the hook. -/
theorem put_of_index?_eq_none (h : index? flag = none) (value : Option Bool) :
    FlagStore.put m flag value = { m with hook := FlagStore.put m.hook flag value } := by
  show FlagsOver.put m flag value = _
  rw [FlagsOver.put, h]

/-- Which hook stands behind the built-in flags makes no difference to them. -/
theorem get_of_isBuiltin (h : IsBuiltin flag) (hook : Option H) :
    FlagStore.get { m with hook } flag = FlagStore.get m flag := by
  obtain ⟨i, hi⟩ := exists_index? h
  rw [get_of_index?_eq_some hi, get_of_index?_eq_some hi]

/-- The hook is told of all writes but those to built-in flags. -/
theorem hook_run (m : FlagsOver H) (writes : List FlagWrite) :
    (run m writes).hook = run m.hook (writes.filter fun w => ¬ IsBuiltin w.flag) := by
  induction writes generalizing m with
  | nil => rfl
  | cons w writes ih =>
    rw [run_cons, ih]
    by_cases hw : IsBuiltin w.flag
    · obtain ⟨i, hi⟩ := exists_index? hw
      rw [List.filter_cons_of_neg (by simpa using hw), apply, put_of_index?_eq_some hi]
    · rw [List.filter_cons_of_pos (by simpa using hw), run_cons, apply,
        put_of_index?_eq_none (index?_eq_none_iff.2 hw)]
      rfl

/-- A write leaves all other flags as they were: both are built in, or both are the hook's, or the
two are in different places. -/
theorem get_put_of_ne (hobeys : Obeys owns m.hook) {other : Int64}
    (hflag : IsBuiltin flag ∨ owns flag) (hother : IsBuiltin other ∨ owns other)
    (hne : other ≠ flag) (value : Option Bool) :
    FlagStore.get (FlagStore.put m flag value) other = FlagStore.get m other := by
  cases hi : index? flag with
  | some i =>
    rw [put_of_index?_eq_some hi]
    cases hj : index? other with
    | some j =>
      rw [get_of_index?_eq_some hj, get_of_index?_eq_some hj]
      refine (flag_withFlag m.toFlagsBody i j value).trans (if_neg ?_)
      rintro rfl
      exact hne (index?_injective hj hi)
    | none => rw [get_of_index?_eq_none hj, get_of_index?_eq_none hj]
  | none =>
    have hhook := hflag.resolve_left (index?_eq_none_iff.1 hi)
    rw [put_of_index?_eq_none hi]
    cases hj : index? other with
    | some j => rw [get_of_index?_eq_some hj, get_of_index?_eq_some hj]
    | none =>
      have hother' := hother.resolve_left (index?_eq_none_iff.1 hj)
      rw [get_of_index?_eq_none hj, get_of_index?_eq_none hj,
        hobeys.get_put_of_ne flag value other hhook hother' hne]

/-- A map holds a flag if one that is built in or owned by the hook has a value. -/
theorem holdsFlag_iff (hobeys : Obeys owns m.hook)
    (hbeyond : ∀ flag, owns flag → ¬ IsBuiltin flag) :
    FlagStore.holdsFlag m = true ↔
      ∃ flag, (IsBuiltin flag ∨ owns flag) ∧ (FlagStore.get m flag).isSome := by
  show (m.toFlagsBody.holdsFlag || FlagStore.holdsFlag m.hook) = true ↔ _
  rw [Bool.or_eq_true, holdsFlag_eq_true_iff, hobeys.holdsFlag_iff]
  constructor
  · rintro (⟨i, hsome⟩ | ⟨flag, hflag, hsome⟩)
    · have hi := index?_number i
      exact ⟨number i, .inl (isBuiltin_of_index? hi), by rwa [get_of_index?_eq_some hi]⟩
    · have hi := index?_eq_none_iff.2 (hbeyond flag hflag)
      exact ⟨flag, .inr hflag, by rwa [get_of_index?_eq_none hi]⟩
  · rintro ⟨flag, hflag, hsome⟩
    cases hi : index? flag with
    | some i => exact .inl ⟨i, by rwa [get_of_index?_eq_some hi] at hsome⟩
    | none =>
      rw [get_of_index?_eq_none hi] at hsome
      exact .inr ⟨flag, hflag.resolve_left (index?_eq_none_iff.1 hi), hsome⟩

/-- The laws hold of the built-in flags and of those the hook owns, if they hold of these. -/
theorem obeys (hobeys : Obeys owns m.hook) (hbeyond : ∀ flag, owns flag → ¬ IsBuiltin flag) :
    Obeys (fun flag => IsBuiltin flag ∨ owns flag) m where
  get_of_not_owns flag hflag := by
    obtain ⟨hbuiltin, hhook⟩ := not_or.1 hflag
    rw [get_of_index?_eq_none (index?_eq_none_iff.2 hbuiltin), hobeys.get_of_not_owns flag hhook]
  put_of_not_owns flag value hflag := by
    obtain ⟨hbuiltin, hhook⟩ := not_or.1 hflag
    rw [put_of_index?_eq_none (index?_eq_none_iff.2 hbuiltin),
      hobeys.put_of_not_owns flag value hhook]
  get_put flag value hflag := by
    cases hi : index? flag with
    | some i =>
      rw [put_of_index?_eq_some hi, get_of_index?_eq_some hi]
      exact (flag_withFlag m.toFlagsBody i i value).trans (if_pos rfl)
    | none =>
      have hhook := hflag.resolve_left (index?_eq_none_iff.1 hi)
      rw [put_of_index?_eq_none hi, get_of_index?_eq_none hi, hobeys.get_put flag value hhook]
  get_put_of_ne _ value _ hflag hother hne := get_put_of_ne hobeys hflag hother hne value
  holdsFlag_iff := holdsFlag_iff hobeys hbeyond

/-- The built-in flags before a slot that may stand behind them make a lawful store. -/
theorem lawful (h : Delegate owns m.hook) : Lawful (fun flag => IsBuiltin flag ∨ owns flag) m := by
  intro writes
  refine obeys ?_ fun flag hflag => h.beyond hflag
  rw [hook_run]
  exact h.lawful _

end FlagsOver

/-! ## Hooks that hold their flags -/

namespace Hook

open FlagStore

variable {B : Type} {h : Hook B} {flag other : Int64}

theorem lookup_filter_ne (hne : other ≠ flag) (held : List (Int64 × Bool)) :
    (held.filter (·.1 != flag)).lookup other = held.lookup other := by
  induction held with
  | nil => rfl
  | cons e held ih =>
    obtain ⟨key, v⟩ := e
    by_cases hkey : key = flag
    · subst hkey
      rw [List.filter_cons_of_neg (by simp), ih, List.lookup_cons, beq_false_of_ne hne]
    · rw [List.filter_cons_of_pos (by simpa using hkey), List.lookup_cons, List.lookup_cons, ih]

theorem lookup_filter_self (flag : Int64) (held : List (Int64 × Bool)) :
    (held.filter (·.1 != flag)).lookup flag = none := by
  rw [List.lookup_eq_none_iff]
  intro e he
  simpa using Ne.symm (by simpa using (List.mem_filter.1 he).2)

/-- A flag that is held has the value it was given. -/
theorem lookup_holdFlag (flag : Int64) (value : Option Bool) (held : List (Int64 × Bool)) :
    (holdFlag flag value held).lookup flag = value := by
  cases value with
  | none => exact lookup_filter_self flag held
  | some v => exact List.lookup_cons_self

/-- Holding one flag leaves what is held of the others. -/
theorem lookup_holdFlag_of_ne (hne : other ≠ flag) (value : Option Bool)
    (held : List (Int64 × Bool)) :
    (holdFlag flag value held).lookup other = held.lookup other := by
  cases value with
  | none => exact lookup_filter_ne hne held
  | some v =>
    show ((flag, v) :: _).lookup other = _
    rw [List.lookup_cons, beq_false_of_ne hne, lookup_filter_ne hne]

/-- A hook that owns some flags and holds the values of them itself: it adds no fields for them to
live in, or none of them names one. -/
structure HoldsFlags (owned : List OwnedFlag) (h : Hook B) : Prop where
  flags : ∃ held, h.flags = some ⟨owned, held⟩
  fieldless : h.fields = none ∨ ∀ o ∈ owned, o.field = none

/-- The flags listed. -/
def Lists (owned : List OwnedFlag) (flag : Int64) : Prop := ∃ o ∈ owned, o.flag = flag

/-- A flag that is listed has an entry, which is about it. -/
theorem exists_owner? {owned : List OwnedFlag} {held : List (Int64 × Bool)}
    (hflags : h.flags = some ⟨owned, held⟩) (hflag : Lists owned flag) :
    ∃ o ∈ owned, h.owner? flag = some o ∧ o.flag = flag := by
  unfold owner?
  rw [hflags]
  have hfound : (owned.find? (·.flag == flag)).isSome := by
    rw [List.find?_isSome]
    simpa [Lists] using hflag
  obtain ⟨o, ho⟩ := Option.isSome_iff_exists.1 hfound
  exact ⟨o, List.mem_of_find?_eq_some ho, ho, by simpa using List.find?_some ho⟩

theorem owner?_eq_none {owned : List OwnedFlag} {held : List (Int64 × Bool)}
    (hflags : h.flags = some ⟨owned, held⟩) (hflag : ¬ Lists owned flag) :
    h.owner? flag = none := by
  unfold owner?
  rw [hflags]
  refine List.find?_eq_none.2 fun o ho => ?_
  simpa using fun heq => hflag ⟨o, ho, heq⟩

section HoldsFlags

variable {owned : List OwnedFlag} {held : List (Int64 × Bool)}

/-- A flag of a hook without fields has the value that the hook holds. -/
theorem getFlag_of_lists (hflags : h.flags = some ⟨owned, held⟩)
    (hfieldless : h.fields = none ∨ ∀ o ∈ owned, o.field = none) (hflag : Lists owned flag) :
    h.getFlag flag = held.lookup flag := by
  obtain ⟨o, ho, howner, rfl⟩ := exists_owner? hflags hflag
  rw [getFlag, howner, Option.bind_some, valueOf]
  rcases hfieldless with hfields | hnone
  · rw [hfields, hflags]
    cases o.field <;> rfl
  · rw [hnone o ho, hflags]
    rfl

theorem putFlag_of_lists (hflags : h.flags = some ⟨owned, held⟩)
    (hfieldless : h.fields = none ∨ ∀ o ∈ owned, o.field = none) (hflag : Lists owned flag)
    (value : Option Bool) :
    h.putFlag flag value = { h with flags := some ⟨owned, holdFlag flag value held⟩ } := by
  obtain ⟨o, ho, howner, rfl⟩ := exists_owner? hflags hflag
  obtain ⟨typeName, constraint, fields, flags⟩ := h
  obtain rfl : flags = some ⟨owned, held⟩ := hflags
  rw [putFlag, howner]
  dsimp only
  rcases hfieldless with hfields | hnone
  · obtain rfl : fields = none := hfields
    cases o.field <;> rfl
  · rw [hnone o ho]
    rfl

/-- Flags that a hook does not list are not written. -/
theorem putFlag_of_not_lists (hflags : h.flags = some ⟨owned, held⟩) (hflag : ¬ Lists owned flag)
    (value : Option Bool) : h.putFlag flag value = h := by
  rw [putFlag, owner?_eq_none hflags hflag]

/-- A hook that holds the flags it owns obeys the laws of stores. -/
theorem HoldsFlags.obeys (hholds : HoldsFlags owned h) : Obeys (Lists owned) h := by
  obtain ⟨⟨held, hflags⟩, hfieldless⟩ := hholds
  constructor
  case get_of_not_owns =>
    intro flag hflag
    show getFlag h flag = none
    rw [getFlag, owner?_eq_none hflags hflag]
    rfl
  case put_of_not_owns => exact fun flag value hflag => putFlag_of_not_lists hflags hflag value
  case get_put =>
    intro flag value hflag
    show getFlag (putFlag h flag value) flag = value
    rw [putFlag_of_lists hflags hfieldless hflag]
    have hget := getFlag_of_lists (h := { h with flags := some ⟨owned, holdFlag flag value held⟩ })
      rfl hfieldless hflag
    rw [hget, lookup_holdFlag]
  case get_put_of_ne =>
    intro flag value other hflag hother hne
    show getFlag (putFlag h flag value) other = getFlag h other
    rw [putFlag_of_lists hflags hfieldless hflag, getFlag_of_lists hflags hfieldless hother]
    have hget := getFlag_of_lists (h := { h with flags := some ⟨owned, holdFlag flag value held⟩ })
      rfl hfieldless hother
    rw [hget, lookup_holdFlag_of_ne hne]
  case holdsFlag_iff =>
    show Hook.holdsFlag h = true ↔ ∃ flag, Lists owned flag ∧ (getFlag h flag).isSome
    rw [Hook.holdsFlag, hflags]
    simp [Lists]

/-- Writing a flag leaves a hook that holds the flags it owns. -/
theorem HoldsFlags.putFlag (hholds : HoldsFlags owned h) (flag : Int64) (value : Option Bool) :
    HoldsFlags owned (h.putFlag flag value) := by
  obtain ⟨⟨held, hflags⟩, hfieldless⟩ := hholds
  by_cases hflag : Lists owned flag
  · rw [putFlag_of_lists hflags hfieldless hflag]
    exact ⟨⟨_, rfl⟩, hfieldless⟩
  · rw [putFlag_of_not_lists hflags hflag]
    exact ⟨⟨held, hflags⟩, hfieldless⟩

/-- A hook that holds its flags is a lawful store of them. -/
theorem lawful_of_holdsFlags (hholds : HoldsFlags owned h) : Lawful (Lists owned) h :=
  Lawful.of_invariant (P := HoldsFlags owned) (fun _ hs => hs.obeys)
    (fun _ flag value hs => hs.putFlag flag value) hholds

end HoldsFlags

/-- A hook without flags answers for none. -/
theorem idle_of_flags_eq_none (hflags : h.flags = none) : Idle h where
  get_eq flag := by
    show getFlag h flag = none
    rw [getFlag, owner?, hflags]
    rfl
  put_eq flag value := by
    show putFlag h flag value = h
    rw [putFlag, owner?, hflags]
    rfl
  holdsFlag_eq := by
    show Hook.holdsFlag h = false
    rw [Hook.holdsFlag, hflags]

end Hook

/-! ## The flags of a map -/

namespace FlagsMap

open FlagStore FlagsBody

variable {m : FlagsMap} {owns : Int64 → Prop}

theorem toOver_injective : Function.Injective toOver := by
  intro m m' h
  exact congrArg ofOver h

/-- The map over a hook goes through the same writes. -/
theorem toOver_run (m : FlagsMap) (writes : List FlagWrite) :
    (run m writes).toOver = run m.toOver writes := by
  induction writes generalizing m with
  | nil => rfl
  | cons w writes ih => exact ih (apply m w)

theorem lawful_of_toOver (h : Lawful owns m.toOver) : Lawful owns m := by
  intro writes
  have hobeys := h writes
  rw [← toOver_run] at hobeys
  exact {
    get_of_not_owns := hobeys.get_of_not_owns
    put_of_not_owns := fun flag value hflag =>
      toOver_injective (hobeys.put_of_not_owns flag value hflag)
    get_put := hobeys.get_put
    get_put_of_ne := hobeys.get_put_of_ne
    holdsFlag_iff := hobeys.holdsFlag_iff }

/-! ### The record of a map -/

theorem encode_flagMember (i : Fin 10) (m : FlagsMap) :
    (flagMember i).encode .cbor m = (m.flag i).map fun b => .ok (.bool b) := by
  show (m.flag i).bind _ = _
  cases m.flag i <;> rfl

/-- The entries of the built-in flags are those of the flags with a value. -/
theorem mem_writtenBy_iff {e : FieldSpec × Cbor} :
    e ∈ writtenBy .cbor m flagsShape.members ↔
      ∃ i b, m.flag i = some b ∧ e = ((flagMember i).spec, .bool b) := by
  have hwritten : ∀ i, (flagMember i).written? .cbor m =
      (m.flag i).map fun b => ((flagMember i).spec, Cbor.bool b) := by
    intro i
    unfold Member.written?
    rw [encode_flagMember]
    cases m.flag i <;> rfl
  show e ∈ ((List.finRange 10).map flagMember).filterMap _ ↔ _
  rw [List.filterMap_map, List.mem_filterMap]
  simp only [List.mem_finRange, true_and, Function.comp_apply, hwritten, Option.map_eq_some_iff]
  simp only [eq_comm]

theorem toNat_key_flagMember (i : Fin 10) : (flagMember i).spec.key.toNat = i.val := by
  revert i
  decide

/-- The entries of the map of a record are the built-in flags that have values. -/
theorem mem_map_keyed_iff {es : List (UInt64 × Cbor)}
    (hes : es.Perm ((writtenBy .cbor m flagsShape.members).map fun e => (e.1.key, e.2)))
    {k v : Cbor} : (k, v) ∈ es.map Cbor.keyed ↔
      ∃ i b, m.flag i = some b ∧ k = .int (i.val : Int) ∧ v = .bool b := by
  constructor
  · intro h
    obtain ⟨e, he, heq⟩ := List.mem_map.1 h
    obtain ⟨e', he', rfl⟩ := List.mem_map.1 (hes.mem_iff.1 he)
    obtain ⟨i, b, hflag, rfl⟩ := mem_writtenBy_iff.1 he'
    obtain ⟨rfl, rfl⟩ := Prod.mk.inj heq
    exact ⟨i, b, hflag, by rw [toNat_key_flagMember], rfl⟩
  · rintro ⟨i, b, hflag, rfl, rfl⟩
    have he := List.mem_map_of_mem (f := fun e : FieldSpec × Cbor => (e.1.key, e.2))
      (mem_writtenBy_iff.2 ⟨i, b, hflag, rfl⟩)
    refine List.mem_map.2 ⟨_, hes.mem_iff.2 he, ?_⟩
    rw [Cbor.keyed, toNat_key_flagMember]

/-- Without a hook exactly the built-in flags have values. -/
theorem get_eq_some_iff (hnone : m.hook = none) {flag : Int64} {b : Bool} :
    m.get flag = some b ↔ ∃ i : Fin 10, flag.toInt = (i.val : Int) ∧ m.flag i = some b := by
  rw [get_eq, hnone]
  cases hi : index? flag with
  | some i =>
    refine ⟨fun h => ⟨i, index?_eq_some_iff.1 hi, h⟩, ?_⟩
    rintro ⟨j, hj, h⟩
    obtain rfl := Option.some.inj (hi.symm.trans (index?_eq_some_iff.2 hj))
    exact h
  | none =>
    refine ⟨nofun, ?_⟩
    rintro ⟨j, hj, -⟩
    cases hi.symm.trans (index?_eq_some_iff.2 hj)

/-- Without a hook a map is written as the record of its flags, and is read from it again. -/
theorem exists_encode (hnone : m.hook = none) :
    ∃ entries, (flagsShape.extended default).encode .cbor m = .ok (.map entries) ∧
      (entries.map (·.1)).Nodup ∧
      (∀ k v, (k, v) ∈ entries ↔
        ∃ flag b, k = .int flag.toInt ∧ v = .bool b ∧ m.get flag = some b) ∧
      ∀ catalogs, (flagsShape.extended default).decode .cbor ⟨catalogs, none⟩ (.map entries) =
        .ok m := by
  have hwrites : ∀ member ∈ flagsShape.members, member.Writes .cbor m := by
    intro member hmember e
    obtain ⟨i, -, rfl⟩ := List.mem_map.1 hmember
    rw [encode_flagMember]
    cases m.flag i <;> simp
  have hencode : (flagsShape.extended default).encode .cbor m =
      .ok (Format.ofEntries .cbor .map (writtenBy .cbor m flagsShape.members)) := by
    show flagsShape.encodeWith .cbor m (Slot.puts .cbor m.hook) = _
    rw [hnone]
    exact (RecordShape.encode_eq_ok_iff sound_flagsShape).2 ⟨hwrites, rfl⟩
  have hapart : ((writtenBy .cbor m flagsShape.members).map (·.1)).Pairwise FieldSpec.Apart :=
    sound_flagsShape.apart.sublist (map_fst_writtenBy_sublist flagsShape.members)
  obtain ⟨es, hes, hperm⟩ := Format.exists_ofEntries_map hapart
  rw [hes] at hencode
  refine ⟨es.map Cbor.keyed, hencode, ?_, ?_, ?_⟩
  · exact Cbor.nodup_map_keyed ((hperm.map (·.1)).nodup_iff.2 (nodup_map_key hapart))
  · intro k v
    simp only [mem_map_keyed_iff hperm, get_eq_some_iff hnone]
    constructor
    · rintro ⟨i, b, hflag, rfl, rfl⟩
      exact ⟨number i, b, by rw [toInt_number], rfl, i, toInt_number i, hflag⟩
    · rintro ⟨flag, b, rfl, rfl, i, hi, hflag⟩
      exact ⟨i, b, hflag, by rw [hi], rfl⟩
  · intro catalogs
    have htravels : (flagsShape.extended default).Travels .cbor ⟨catalogs, none⟩ 1 m m.settled :=
      FlagsMap.travels (Slot.Travels.of_none rfl hnone)
    have hsettled : m.settled = m := by
      obtain ⟨body, hook⟩ := m
      obtain rfl : hook = none := hnone
      rfl
    rw [hsettled] at htravels
    exact htravels.reads _ hencode

/-! ### All flags together -/

/-- A map remembers what was written of the built-in flags and of those the hook owns. -/
theorem remembers (h : Delegate owns m.hook) (writes : List FlagWrite) :
    Remembers (fun flag => IsBuiltin flag ∨ owns flag) m writes :=
  (lawful_of_toOver (FlagsOver.lawful (m := m.toOver) h)).remembers writes

/-- The hook of a map is told of all writes but those to built-in flags. -/
theorem hook_run (m : FlagsMap) (writes : List FlagWrite) :
    (run m writes).hook = run m.hook (writes.filter fun w => ¬ IsBuiltin w.flag) := by
  have hhook := FlagsOver.hook_run m.toOver writes
  rw [← toOver_run] at hhook
  exact hhook

/-- The flags of a map are one finite map over all numbers.  Whatever is written, a built-in flag
and one that the hook owns have the value they were last given, all others have none, a write
changes no other flag, one to a flag that nobody owns changes nothing, and any flag is said to have
a value exactly if one has.  The hook never hears of the built-in flags.  This is so with every type
of hooks, and without one.  A map without a hook is written in the binary form as the record of its
flags, and the record is read as that map. -/
theorem one_finite_map :
    (∀ (m : FlagsMap) (owns : Int64 → Prop) (writes : List FlagWrite), Delegate owns m.hook →
      Remembers (fun flag => IsBuiltin flag ∨ owns flag) m writes ∧
      (run m writes).hook = run m.hook (writes.filter fun w => ¬ IsBuiltin w.flag) ∧
      ∀ flag, IsBuiltin flag → ∀ hook, ({ m with hook } : FlagsMap).get flag = m.get flag) ∧
    (∀ (H : Type) [FlagStore H] (m : FlagsOver H) (owns : Int64 → Prop) (writes : List FlagWrite),
      Delegate owns m.hook →
      Remembers (fun flag => IsBuiltin flag ∨ owns flag) m writes ∧
      (run m writes).hook = run m.hook (writes.filter fun w => ¬ IsBuiltin w.flag) ∧
      ∀ flag, IsBuiltin flag → ∀ hook, ({ m with hook } : FlagsOver H).get flag = m.get flag) ∧
    (∀ hook : Hook FlagsBody, hook.flags = none → Idle hook) ∧
    (∀ (m : FlagsMap) flag value, apply m (.set flag value) = m.set flag value ∧
      apply m (.setTrue flag) = m.set flag true ∧ apply m (.setFalse flag) = m.set flag false ∧
      apply m (.clear flag) = m.clear flag) ∧
    ∀ m : FlagsMap, m.hook = none →
      ∃ entries, (flagsShape.extended default).encode .cbor m = .ok (.map entries) ∧
        (entries.map (·.1)).Nodup ∧
        (∀ k v, (k, v) ∈ entries ↔
          ∃ flag b, k = .int flag.toInt ∧ v = .bool b ∧ m.get flag = some b) ∧
        ∀ catalogs, (flagsShape.extended default).decode .cbor ⟨catalogs, none⟩ (.map entries) =
          .ok m := by
  refine ⟨fun m owns writes h => ?_, fun H _ m owns writes h => ?_,
    fun hook => Hook.idle_of_flags_eq_none, fun m flag value => ⟨rfl, rfl, rfl, rfl⟩,
    fun m => exists_encode⟩
  · exact ⟨remembers h writes, hook_run m writes, fun flag hflag hook =>
      FlagsOver.get_of_isBuiltin (m := m.toOver) hflag hook⟩
  · exact ⟨(FlagsOver.lawful h).remembers writes, FlagsOver.hook_run m writes,
      fun flag hflag hook => FlagsOver.get_of_isBuiltin hflag hook⟩

/-- A map with a hook that holds two flags. -/
def holding : FlagsMap where
  hook := some { typeName := "described", flags := some ⟨[⟨100, none⟩, ⟨-1, none⟩], []⟩ }

/-- Writes to a built-in flag, to both flags of the hook, and to two flags that nobody owns. -/
def fewWrites : List FlagWrite :=
  [.setTrue 3, .set 100 false, .set (-7) true, .setTrue (-1), .clear 3,
    .setTrue 9223372036854775807, .clear (-1), .setFalse 9]

theorem one_finite_map_holding :
    Delegate (Hook.Lists [⟨100, none⟩, ⟨-1, none⟩]) holding.hook ∧
      FlagStore.get (run holding fewWrites) 100 = some false ∧
      FlagStore.get (run holding fewWrites) 9 = some false ∧
      FlagStore.get (run holding fewWrites) 3 = none ∧
      FlagStore.get (run holding fewWrites) (-1) = none ∧
      FlagStore.get (run holding fewWrites) (-7) = none ∧
      FlagStore.holdsFlag (run holding fewWrites) = true := by
  have hlawful : Lawful (Hook.Lists [⟨100, none⟩, ⟨-1, none⟩])
      (HookOf.mk (B := FlagsBody) (V := Datum) "described" none none
        (some ⟨[⟨100, none⟩, ⟨-1, none⟩], []⟩)) :=
    Hook.lawful_of_holdsFlags ⟨⟨_, rfl⟩, .inl rfl⟩
  have hdelegate : Delegate (Hook.Lists [⟨100, none⟩, ⟨-1, none⟩]) holding.hook := by
    refine .store hlawful ?_
    rintro - ⟨o, ho, rfl⟩
    revert o
    decide
  obtain ⟨hremembers, -⟩ := one_finite_map.1 holding _ fewWrites hdelegate
  have hundred : FlagStore.get (run holding fewWrites) 100 = some false :=
    hremembers.get_run 100 (.inr ⟨⟨100, none⟩, by simp, rfl⟩)
  refine ⟨hdelegate, hundred, hremembers.get_run 9 (.inl (by decide)),
    hremembers.get_run 3 (.inl (by decide)), ?_, ?_, ?_⟩
  · exact hremembers.get_run (-1) (.inr ⟨⟨-1, none⟩, by simp, rfl⟩)
  · refine hremembers.get_run_of_not_owns (-7) ?_
    rintro (hbuiltin | ⟨o, ho, hflag⟩)
    · exact absurd hbuiltin (by decide)
    · revert o
      decide
  · exact hremembers.holdsFlag_iff.2 ⟨100, by rw [hundred]; rfl⟩

end FlagsMap

end Rim
