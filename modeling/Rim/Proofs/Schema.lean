import Rim.Proofs.Record.Entries
/-!
# What the check of a schema finds

The check of a schema is a walk: each flattened field is compared with those before it, and for an
array the keys are then counted through in ascending order.  What it finds is a matter of the fields
alone, wherever in the tree they are embedded.  There is no fault exactly if keys and names are
distinct and an array has its positions for keys, and the fault reported is the first there is: a
field that repeats one before it, or else the least key that an array has no position for.  A record
that is embedded twice repeats its own fields, unless it has none.

## Main definitions

* `FieldSpec.Repeats`: what is said of a field that repeats one before it.
* `Schema.Misplaced`: a field without a position in an array.
* `Schema.Separates`, `Schema.Fault`: schemas without a fault, and the fault of one that has any.
* `Schema.Finds`: schemas whose fields are found by name and by key.

## Main results

* `Schema.firstClash?_eq_some_iff`: where the walk over the fields ends.
* `Schema.firstGap?_eq_map_find?`: where counting through the keys ends.
* `Schema.check_exact`: what the check accepts, what it reports, and what it is good for.
-/

namespace Rim

/-! ## Repeated fields -/

namespace FieldSpec

theorem pairwise_apart_iff {l : List FieldSpec} :
    l.Pairwise Apart ↔ (l.map (·.key)).Nodup ∧ (l.map (·.name)).Nodup := by
  rw [List.Nodup, List.Nodup, List.pairwise_map, List.pairwise_map]
  exact List.pairwise_and_iff

/-- What is said of a field that repeats the key of one before it, or else the name. -/
inductive Repeats (entity : String) (earlier : List FieldSpec) (b : FieldSpec) : SchemaFault → Prop
  | key {first : FieldSpec} (mem : first ∈ earlier) (same : first.key = b.key) :
      Repeats entity earlier b (.sharedKey entity b.key first.name b.name)
  | name {first : FieldSpec} (keys : ∀ a ∈ earlier, a.key ≠ b.key) (mem : first ∈ earlier)
      (same : first.name = b.name) : Repeats entity earlier b (.sharedName entity b.name)

theorem repeats_congr {entity : String} {earlier earlier' : List FieldSpec}
    (h : ∀ a, a ∈ earlier ↔ a ∈ earlier') {b : FieldSpec} {e : SchemaFault} :
    Repeats entity earlier b e ↔ Repeats entity earlier' b e := by
  constructor
  · rintro (⟨mem, same⟩ | ⟨keys, mem, same⟩)
    · exact .key ((h _).1 mem) same
    · exact .name (fun a ha => keys a ((h a).2 ha)) ((h _).1 mem) same
  · rintro (⟨mem, same⟩ | ⟨keys, mem, same⟩)
    · exact .key ((h _).2 mem) same
    · exact .name (fun a ha => keys a ((h a).1 ha)) ((h _).2 mem) same

end FieldSpec

namespace Schema

open FieldSpec (Apart Repeats pairwise_apart_iff repeats_congr)

section Clash

variable {entity : String} {seen fields : List FieldSpec} {b : FieldSpec} {e : SchemaFault}

/-- The next field repeats one before it, or it is one of those for the rest.  Keys are distinct so
far, so the field found is the only one to name. -/
theorem firstClash?_cons_eq_some_iff (hseen : (seen.map (·.key)).Nodup) {rest : List FieldSpec} :
    firstClash? entity seen (b :: rest) = some e ↔
      Repeats entity seen b e ∨
        (∀ a ∈ seen, a.Apart b) ∧ firstClash? entity (b :: seen) rest = some e := by
  rw [firstClash?]
  cases hkey : seen.find? (·.key == b.key) with
  | some first =>
    obtain ⟨hfirst, hsame⟩ := (find?_key_eq_some_iff hseen).1 hkey
    constructor
    · intro h
      obtain rfl := Option.some.inj h
      exact .inl (.key hfirst hsame)
    · rintro ((⟨mem, same⟩ | ⟨keys, -, -⟩) | ⟨hall, -⟩)
      · rw [List.inj_on_of_nodup_map hseen mem hfirst (same.trans hsame.symm)]
      · exact absurd hsame (keys first hfirst)
      · exact absurd hsame (hall first hfirst).1
  | none =>
    have hkeys : ∀ a ∈ seen, a.key ≠ b.key := by simpa using hkey
    by_cases hname : seen.any (·.name == b.name) = true
    · obtain ⟨first, hfirst, hsame⟩ : ∃ a ∈ seen, a.name = b.name := by simpa using hname
      rw [if_pos hname]
      constructor
      · intro h
        obtain rfl := Option.some.inj h
        exact .inl (.name hkeys hfirst hsame)
      · rintro ((⟨mem, same⟩ | -) | ⟨hall, -⟩)
        · exact absurd same (hkeys _ mem)
        · rfl
        · exact absurd hsame (hall first hfirst).2
    · have hnames : ∀ a ∈ seen, a.name ≠ b.name := by simpa using hname
      rw [if_neg hname]
      constructor
      · exact fun h => .inr ⟨fun a ha => ⟨hkeys a ha, hnames a ha⟩, h⟩
      · rintro ((⟨mem, same⟩ | ⟨-, mem, same⟩) | ⟨-, h⟩)
        · exact absurd same (hkeys _ mem)
        · exact absurd same (hnames _ mem)
        · exact h

/-- The walk ends at the first field that repeats one before it.  The fields passed are told apart;
they stand in reverse, as the walk keeps them. -/
theorem firstClash?_eq_some_iff (hseen : seen.Pairwise Apart) :
    firstClash? entity seen fields = some e ↔
      ∃ before b after, fields = before ++ b :: after ∧ (before.reverse ++ seen).Pairwise Apart ∧
        Repeats entity (before.reverse ++ seen) b e := by
  induction fields generalizing seen with
  | nil => simp [firstClash?]
  | cons c rest ih =>
    rw [firstClash?_cons_eq_some_iff (pairwise_apart_iff.1 hseen).1]
    constructor
    · rintro (hrepeats | ⟨hall, h⟩)
      · exact ⟨[], c, rest, rfl, hseen, hrepeats⟩
      · have hnext : (c :: seen).Pairwise Apart :=
          List.pairwise_cons.2 ⟨fun a ha => (hall a ha).symm, hseen⟩
        obtain ⟨before, b, after, rfl, hapart, hrepeats⟩ := (ih hnext).1 h
        rw [← reverse_cons_append] at hapart hrepeats
        exact ⟨c :: before, b, after, rfl, hapart, hrepeats⟩
    · rintro ⟨before, b, after, hsplit, hapart, hrepeats⟩
      cases before with
      | nil =>
        obtain ⟨rfl, -⟩ := List.cons.inj hsplit
        exact .inl hrepeats
      | cons d before =>
        obtain ⟨rfl, hrest⟩ := List.cons.inj hsplit
        rw [reverse_cons_append] at hapart hrepeats
        have hnext : (c :: seen).Pairwise Apart := (List.pairwise_append.1 hapart).2.1
        refine .inr ⟨fun a ha => ((List.pairwise_cons.1 hnext).1 a ha).symm, ?_⟩
        exact (ih hnext).2 ⟨before, b, after, hrest, hapart, hrepeats⟩

end Clash

/-! ## Positions

In ascending order of keys a field comes after as many others as have smaller keys. -/

/-- How many fields have a smaller key. -/
def place (fields : List FieldSpec) (b : FieldSpec) : Nat := fields.countP fun a => a.key < b.key

/-- An array has no position for a field that may be absent, nor for one whose key is not its
place. -/
def Misplaced (fields : List FieldSpec) (b : FieldSpec) : Prop :=
  b.key.toNat ≠ place fields b ∨ b.isOptional = true

instance (fields : List FieldSpec) (b : FieldSpec) : Decidable (Misplaced fields b) :=
  inferInstanceAs (Decidable (_ ∨ _))

theorem misplaced_congr {fields fields' : List FieldSpec} (h : fields.Perm fields')
    (b : FieldSpec) : Misplaced fields b ↔ Misplaced fields' b := by
  unfold Misplaced place
  rw [h.countP_eq]

theorem place_of_ascending {before after : List FieldSpec} {b : FieldSpec}
    (h : (before ++ b :: after).Pairwise fun a c => a.key.toNat < c.key.toNat) :
    place (before ++ b :: after) b = before.length := by
  obtain ⟨-, hrest, hbefore⟩ := List.pairwise_append.1 h
  have hbelow : before.countP (fun a => a.key < b.key) = before.length := by
    rw [List.countP_eq_length]
    intro a ha
    exact decide_eq_true (UInt64.lt_iff_toNat_lt.2 (hbefore a ha b List.mem_cons_self))
  have habove : (b :: after).countP (fun a => a.key < b.key) = 0 := by
    rw [List.countP_eq_zero]
    intro a ha
    rw [decide_eq_true_iff, UInt64.lt_iff_toNat_lt]
    rcases List.mem_cons.1 ha with rfl | ha
    · exact Nat.lt_irrefl _
    · exact Nat.lt_asymm ((List.pairwise_cons.1 hrest).1 a ha)
  rw [place, List.countP_append, hbelow, habove, Nat.add_zero]

/-- Counting through ascending keys ends at the first field without a position.  The count is the
number of fields passed, which is the place of the next one. -/
theorem firstGap?_eq_map_find? {entity : String} {before rest : List FieldSpec}
    (h : (before ++ rest).Pairwise fun a c => a.key.toNat < c.key.toNat) :
    firstGap? entity before.length rest =
      (rest.find? fun b => Misplaced (before ++ rest) b).map fun b => .gap entity b.name b.key := by
  induction rest generalizing before with
  | nil => rfl
  | cons c rest ih =>
    have hc : Misplaced (before ++ c :: rest) c ↔
        c.key.toNat ≠ before.length ∨ c.isOptional = true := by
      rw [Misplaced, place_of_ascending h]
    rw [firstGap?]
    by_cases hmis : Misplaced (before ++ c :: rest) c
    · rw [if_pos (hc.1 hmis), List.find?_cons_of_pos (by simpa using hmis)]
      rfl
    · have hpassed : before ++ c :: rest = (before ++ [c]) ++ rest := by simp
      have hcount : before.length + 1 = (before ++ [c]).length := by simp
      rw [if_neg fun hgap => hmis (hc.2 hgap), List.find?_cons_of_neg (by simpa using hmis), hcount,
        ih (hpassed ▸ h), ← hpassed]

/-! ## Schemas with and without a fault -/

/-- Keys and names are distinct, and the keys of an array are its positions, none of which may be
left out. -/
structure Separates (s : Schema FieldSpec) : Prop where
  keys : (s.allFields.map (·.key)).Nodup
  names : (s.allFields.map (·.name)).Nodup
  positions : s.layout = .array → KeysFromZero (s.allFields.map (·.key))
  mandatory : s.layout = .array → ∀ b ∈ s.allFields, b.isOptional = false

/-- The fault of a schema: that of the first field that repeats one before it, or, if none does, of
the least key that an array has no position for. -/
inductive Fault (s : Schema FieldSpec) : SchemaFault → Prop
  | repeated {before after : List FieldSpec} {b : FieldSpec} {e : SchemaFault}
      (fields : s.allFields = before ++ b :: after) (apart : before.Pairwise Apart)
      (repeats : Repeats s.entity before b e) : Fault s e
  | misplaced {b : FieldSpec} (layout : s.layout = .array) (apart : s.allFields.Pairwise Apart)
      (mem : b ∈ s.allFields) (misplaced : Misplaced s.allFields b)
      (least : ∀ a ∈ s.allFields, Misplaced s.allFields a → b.key ≤ a.key) :
      Fault s (.gap s.entity b.name b.key)

/-- The fields are found by name and by key, the one undoing the other, and nothing else is
found. -/
structure Finds (s : Schema FieldSpec) : Prop where
  byName : ∀ b ∈ s.allFields, s.field? b.name = some b
  byKey : ∀ b ∈ s.allFields, s.fieldOfKey? b.key = some b
  inverse : ∀ name key, (s.field? name).map (·.key) = some key ↔
    (s.fieldOfKey? key).map (·.name) = some name
  noName : ∀ name ∉ s.allFields.map (·.name), s.field? name = none
  noKey : ∀ key ∉ s.allFields.map (·.key), s.fieldOfKey? key = none

variable {s : Schema FieldSpec} {e : SchemaFault}

/-- A schema separates its fields if they are apart and, in an array, counted by their keys. -/
theorem separates_iff :
    s.Separates ↔
      s.allFields.Pairwise Apart ∧ (s.layout = .array → Dense 0 (Schema.byKey s.allFields)) := by
  constructor
  · rintro ⟨keys, names, positions, mandatory⟩
    have hapart := pairwise_apart_iff.2 ⟨keys, names⟩
    exact ⟨hapart, fun hlayout =>
      (dense_byKey_iff hapart).2 ⟨positions hlayout, mandatory hlayout⟩⟩
  · rintro ⟨hapart, hdense⟩
    obtain ⟨keys, names⟩ := pairwise_apart_iff.1 hapart
    exact ⟨keys, names, fun hlayout => ((dense_byKey_iff hapart).1 (hdense hlayout)).1,
      fun hlayout => ((dense_byKey_iff hapart).1 (hdense hlayout)).2⟩

theorem firstClash?_allFields_eq_some_iff :
    firstClash? s.entity [] s.allFields = some e ↔
      ∃ before b after, s.allFields = before ++ b :: after ∧ before.Pairwise Apart ∧
        Repeats s.entity before b e := by
  rw [firstClash?_eq_some_iff .nil]
  refine exists_congr fun before => exists_congr fun b => exists_congr fun after =>
    and_congr_right fun _ => ?_
  rw [List.append_nil, before.reverse_perm.pairwise_iff Apart.symm,
    repeats_congr fun a => List.mem_reverse]

theorem firstGap?_byKey_eq_some_iff (h : s.allFields.Pairwise Apart) :
    firstGap? s.entity 0 (Schema.byKey s.allFields) = some e ↔
      ∃ b ∈ s.allFields, Misplaced s.allFields b ∧
        (∀ a ∈ s.allFields, Misplaced s.allFields a → b.key ≤ a.key) ∧
        .gap s.entity b.name b.key = e := by
  have hascend : ([] ++ Schema.byKey s.allFields).Pairwise
      fun a b : FieldSpec => a.key.toNat < b.key.toNat := ascending_byKey h
  have hgap : firstGap? s.entity 0 (Schema.byKey s.allFields) =
      ((Schema.byKey s.allFields).find? fun b => Misplaced (Schema.byKey s.allFields) b).map
        fun b => .gap s.entity b.name b.key :=
    firstGap?_eq_map_find? hascend
  rw [hgap, Option.map_eq_some_iff]
  refine exists_congr fun b => ?_
  rw [find?_eq_some_iff_least (ascending_byKey h)]
  simp only [decide_eq_true_eq, (byKey_perm s.allFields).mem_iff,
    misplaced_congr (byKey_perm s.allFields), UInt64.le_iff_toNat_le, and_assoc]

/-- A check fails with the first fault. -/
theorem check_eq_error_iff : s.check = .error e ↔ s.Fault e := by
  have hsteps : s.check = .error e ↔
      firstClash? s.entity [] s.allFields = some e ∨
        firstClash? s.entity [] s.allFields = none ∧ s.layout = .array ∧
          firstGap? s.entity 0 (Schema.byKey s.allFields) = some e := by
    unfold check
    cases firstClash? s.entity [] s.allFields <;> cases s.layout <;>
      cases firstGap? s.entity 0 (Schema.byKey s.allFields) <;> simp
  have happart : firstClash? s.entity [] s.allFields = none ↔ s.allFields.Pairwise Apart := by
    rw [firstClash?_eq_none_iff]
    simp
  rw [hsteps, happart, firstClash?_allFields_eq_some_iff]
  constructor
  · rintro (⟨before, b, after, fields, apart, repeats⟩ | ⟨apart, layout, hgap⟩)
    · exact .repeated fields apart repeats
    · obtain ⟨b, mem, misplaced, least, rfl⟩ := (firstGap?_byKey_eq_some_iff apart).1 hgap
      exact .misplaced layout apart mem misplaced least
  · rintro (⟨fields, apart, repeats⟩ | ⟨layout, apart, mem, misplaced, least⟩)
    · exact .inl ⟨_, _, _, fields, apart, repeats⟩
    · exact .inr ⟨apart, layout,
        (firstGap?_byKey_eq_some_iff apart).2 ⟨_, mem, misplaced, least, rfl⟩⟩

/-- Fields that are apart are found by name and by key. -/
theorem finds_of_apart (h : s.allFields.Pairwise Apart) : s.Finds := by
  obtain ⟨hkeys, hnames⟩ := pairwise_apart_iff.1 h
  have hname : ∀ name b, s.field? name = some b ↔ b ∈ s.allFields ∧ b.name = name :=
    fun _ _ => find?_key_eq_some_iff hnames
  have hkey : ∀ key b, s.fieldOfKey? key = some b ↔ b ∈ s.allFields ∧ b.key = key :=
    fun _ _ => find?_key_eq_some_iff hkeys
  constructor
  case byName => exact fun b hb => (hname _ b).2 ⟨hb, rfl⟩
  case byKey => exact fun b hb => (hkey _ b).2 ⟨hb, rfl⟩
  case inverse =>
    intro name key
    simp only [Option.map_eq_some_iff, hname, hkey]
    constructor
    · rintro ⟨b, ⟨hb, rfl⟩, rfl⟩
      exact ⟨b, ⟨hb, rfl⟩, rfl⟩
    · rintro ⟨b, ⟨hb, rfl⟩, rfl⟩
      exact ⟨b, ⟨hb, rfl⟩, rfl⟩
  case noName => exact fun _ => find?_key_eq_none
  case noKey => exact fun _ => find?_key_eq_none

/-- The check accepts the schemas whose keys and names are distinct, those of an array being its
positions, and of all others it reports the first fault.  Of a schema it accepts, fields are found
by name and by key. -/
theorem check_exact (s : Schema FieldSpec) :
    (s.check = .ok () ↔ s.Separates) ∧ (∀ e, s.check = .error e ↔ s.Fault e) ∧
      (s.check = .ok () → s.Finds) := by
  refine ⟨check_eq_ok_iff.trans separates_iff.symm, fun _ => check_eq_error_iff, fun h => ?_⟩
  exact finds_of_apart (check_eq_ok_iff.1 h).1

/-- An array whose first item comes from a record that is embedded by an embedded one. -/
def nestedTriple : Schema FieldSpec :=
  .mk "triple" .array [.required "measurements" 1]
    [.mk "subject" .map [] [.flat "environment" .map [.required "environment" 0]]]

theorem check_exact_nestedTriple :
    nestedTriple.check = .ok () ∧ nestedTriple.Separates ∧ nestedTriple.Finds := by
  obtain ⟨haccepts, -, hfinds⟩ := check_exact nestedTriple
  have hfields : nestedTriple.allFields = [.required "measurements" 1, .required "environment" 0] :=
    rfl
  have hseparates : nestedTriple.Separates := by
    constructor
    · decide
    · decide
    · intro _ k
      have hkeys : (∃ key ∈ nestedTriple.allFields.map (·.key), key.toNat = k) ↔ 1 = k ∨ 0 = k := by
        simp [hfields, FieldSpec.required]
      rw [hkeys]
      show 1 = k ∨ 0 = k ↔ k < 2
      omega
    · intro _
      rw [hfields]
      decide
  have hcheck := haccepts.2 hseparates
  exact ⟨hcheck, hseparates, hfinds hcheck⟩

/-- A record embedded twice repeats its own first field. -/
example : (mk "pair" .map []
    [.flat "name" .map [.optional "text" 7], .flat "name" .map [.optional "text" 7]]).check =
      .error (.sharedKey "pair" 7 "text" "text") := rfl

end Schema

end Rim
