import Rim.Proofs.Record.Entries
/-!
# Records are read back

Writing goes through the members of a record type and puts the fields that have something to say;
reading goes through them as well, and each claims the entry of its field.  A member restores a
record when reading, from what it has written of that record, changes any record in a fixed way.
The members of a record type then restore it together: every entry is claimed by the member that
wrote it, in whatever order the entries come, and none is left over.

## Main definitions

* `Member.Restores`: what reading makes of what a member wrote.

## Main results

* `RecordShape.encodeWith_eq_ok_iff`: a record is written exactly if its members are, and what is
  added to them.
* `takeAll_of_perm`: the members of a record claim all it has written.
* `RecordShape.decodeWith_of_encode`, `RecordShape.decode_of_encode`: records are read back.
-/

namespace Rim

/-! ## Claiming entries

Claims go by key.  As keys are distinct, the order of the entries does not matter. -/

namespace Entries

variable {f : Format} {entries rest : Entries f} {spec : FieldSpec} {v : Raw f}

theorem get?_of_perm (h : entries.Perm ((f.keyFor spec, v) :: rest))
    (hrest : ∀ e ∈ rest, e.1 ≠ f.keyFor spec) : entries.get? spec = some v := by
  unfold get?
  cases hfind : List.find? (fun e => e.1 = f.keyFor spec) entries with
  | none =>
    rw [List.find?_eq_none] at hfind
    have hmem : (f.keyFor spec, v) ∈ entries := h.mem_iff.2 List.mem_cons_self
    exact absurd (hfind _ hmem) (by simp)
  | some e =>
    have hkey : e.1 = f.keyFor spec := by simpa using List.find?_some hfind
    rcases List.mem_cons.1 (h.mem_iff.1 (List.mem_of_find?_eq_some hfind)) with rfl | he
    · rfl
    · exact absurd hkey (hrest e he)

theorem get?_of_absent (h : ∀ e ∈ entries, e.1 ≠ f.keyFor spec) : entries.get? spec = none := by
  unfold get?
  rw [List.find?_eq_none.2 (by simpa using h)]
  rfl

theorem without_of_absent (h : ∀ e ∈ entries, e.1 ≠ f.keyFor spec) :
    entries.without spec = entries :=
  List.filter_eq_self.2 (by simpa using h)

theorem without_of_perm (h : entries.Perm ((f.keyFor spec, v) :: rest))
    (hrest : ∀ e ∈ rest, e.1 ≠ f.keyFor spec) : (entries.without spec).Perm rest := by
  have hkeep : List.filter (fun e => decide (e.1 ≠ f.keyFor spec)) rest = rest :=
    List.filter_eq_self.2 (by simpa using hrest)
  have hfilter := h.filter fun e => decide (e.1 ≠ f.keyFor spec)
  rw [List.filter_cons_of_neg (by simp), hkeep] at hfilter
  exact hfilter

end Entries

/-! ## Members -/

namespace Member

variable {R : Type}

/-- What reading makes of any record, given what a member wrote of the record `r`: the change
`change`.  A member of a mandatory field always writes it. -/
structure Restores (m : Member R) (f : Format) (cx : Context) (r : R) (change : R → R) :
    Prop where
  mandatory : m.spec.isOptional = false → m.encode f r ≠ none
  absent : m.encode f r = none → ∀ r₀, m.decode f cx none r₀ = .ok (change r₀)
  present : ∀ v, m.encode f r = some (.ok v) → ∀ r₀, m.decode f cx (some v) r₀ = .ok (change r₀)

/-- The entry a member writes of a record. -/
def written? (m : Member R) (f : Format) (r : R) : Option (FieldSpec × Raw f) :=
  match m.encode f r with
  | some (.ok v) => some (m.spec, v)
  | _ => none

/-- A member writes no error. -/
def Writes (m : Member R) (f : Format) (r : R) : Prop := ∀ e, m.encode f r ≠ some (.error e)

theorem written?_of_none {m : Member R} {f : Format} {r : R} (h : m.encode f r = none) :
    m.written? f r = none := by
  unfold written?
  rw [h]

theorem written?_of_ok {m : Member R} {f : Format} {r : R} {v : Raw f}
    (h : m.encode f r = some (.ok v)) : m.written? f r = some (m.spec, v) := by
  unfold written?
  rw [h]

theorem put?_eq_map_written? {m : Member R} {f : Format} {r : R} (h : m.Writes f r) :
    m.put? f r = (m.written? f r).map Put.ofEntry := by
  unfold put? written?
  cases he : m.encode f r with
  | none => rfl
  | some c =>
    cases c with
    | ok v => rfl
    | error e => exact absurd he (h e)

theorem writes_of_put? {m : Member R} {f : Format} {r : R} {w : Written f}
    (h : ∀ p, m.put? f r = some p → p ∈ w.map Put.ofEntry) : m.Writes f r := by
  intro e he
  have hp : m.put? f r = some ⟨m.spec, .error e⟩ := by
    unfold put?
    rw [he]
    rfl
  obtain ⟨a, -, ha⟩ := List.mem_map.1 (h _ hp)
  cases congrArg Put.value ha

theorem exists_of_written? {m : Member R} {f : Format} {r : R} {e : FieldSpec × Raw f}
    (h : m.written? f r = some e) : ∃ v, m.encode f r = some (.ok v) ∧ e = (m.spec, v) := by
  unfold written? at h
  split at h
  case h_1 v henc => exact ⟨v, henc, (Option.some.inj h).symm⟩
  case h_2 => cases h

theorem spec_of_written? {m : Member R} {f : Format} {r : R} {e : FieldSpec × Raw f}
    (h : m.written? f r = some e) : e.1 = m.spec := by
  obtain ⟨v, -, rfl⟩ := exists_of_written? h
  rfl

end Member

/-! ## The kinds of members

A value that is written is read as some value of its type, not always as itself: what reading makes
of a field is put together from what its codec does. -/

/-- What a codec writes of `a` it reads as `b`. -/
def FieldCodec.Reads {α : Type} (c : FieldCodec α) (f : Format) (cx : Context) (a b : α) : Prop :=
  ∀ v, c.encode f a = .ok v → c.decode f cx v = .ok b

namespace Member

variable {R α : Type} {c : FieldCodec α} {spec : FieldSpec} {f : Format} {cx : Context} {r : R}

theorem decodeClaimed_of_reads {a b : α} (h : c.Reads f cx a b) {v : Raw f}
    (hv : c.encode f a = .ok v) : decodeClaimed c spec f cx (some v) = .ok (some b) := by
  show (Coded.underField spec.name (c.decode f cx v)).map some = _
  rw [h v hv]
  rfl

/-- A field restores what its value is read as. -/
theorem restores_required {get : R → α} {set : α → R → R} {b : α} (ho : spec.isOptional = false)
    (h : c.Reads f cx (get r) b) : (required spec c get set).Restores f cx r (set b) := by
  have henc : (required spec c get set).encode f r = some (c.encode f (get r)) := by
    show encodeUnlessEmpty c spec f (get r) = _
    unfold encodeUnlessEmpty
    rw [ho]
    rfl
  constructor
  · intro _
    rw [henc]
    simp
  · intro hnone
    rw [henc] at hnone
    cases hnone
  · intro v hv r₀
    rw [henc] at hv
    unfold required
    dsimp only
    rw [decodeClaimed_of_reads h (Option.some.inj hv)]
    rfl

/-- An optional field restores its value, unless that is empty. -/
theorem restores_optional {get : R → Option α} {set : Option α → R → R} (norm : α → α)
    (ho : spec.isOptional = true)
    (h : ∀ a, get r = some a → c.isEmpty a = false → c.Reads f cx a (norm a)) :
    (optional spec c get set).Restores f cx r
      (set (((get r).filter fun a => !c.isEmpty a).map norm)) := by
  have henc : (optional spec c get set).encode f r =
      ((get r).filter fun a => !c.isEmpty a).map (c.encode f) := by
    show (get r).bind (encodeUnlessEmpty c spec f) = _
    cases get r with
    | none => rfl
    | some a =>
      show encodeUnlessEmpty c spec f a = _
      unfold encodeUnlessEmpty
      rw [ho, Option.filter_some]
      cases c.isEmpty a <;> rfl
  constructor
  · intro hmandatory
    exact absurd (hmandatory.symm.trans ho) (by simp)
  · intro hnone r₀
    rw [henc, Option.map_eq_none_iff] at hnone
    rw [hnone]
    rfl
  · intro v hv r₀
    rw [henc] at hv
    obtain ⟨a, ha, hv⟩ := Option.map_eq_some_iff.1 hv
    obtain ⟨hget, hempty⟩ := Option.filter_eq_some_iff.1 ha
    have hread := h a hget (by simpa using hempty)
    show (decodeClaimed c spec f cx (some v)).map (fun b => set b r₀) = _
    rw [decodeClaimed_of_reads hread hv, ha]
    rfl

theorem restores_defaulted {absent : α} {get : R → α} {set : α → R → R} {b : α}
    (ho : spec.isOptional = true)
    (h : c.isEmpty (get r) = false → c.Reads f cx (get r) b) :
    (defaulted spec c absent get set).Restores f cx r
      (set (if c.isEmpty (get r) then absent else b)) := by
  have henc : (defaulted spec c absent get set).encode f r =
      if c.isEmpty (get r) then none else some (c.encode f (get r)) := by
    show encodeUnlessEmpty c spec f (get r) = _
    unfold encodeUnlessEmpty
    rw [ho, Bool.true_and]
  constructor
  · intro hmandatory
    exact absurd (hmandatory.symm.trans ho) (by simp)
  · intro hnone r₀
    rw [henc] at hnone
    split at hnone
    · rename_i hempty
      rw [if_pos hempty]
      rfl
    · cases hnone
  · intro v hv r₀
    rw [henc] at hv
    split at hv
    · cases hv
    · rename_i hempty
      rw [if_neg hempty]
      show (decodeClaimed c spec f cx (some v)).map (fun b => set (b.getD absent) r₀) = _
      rw [decodeClaimed_of_reads (h (by simpa using hempty)) (Option.some.inj hv)]
      rfl

/-- The member of an embedded record restores the record that embeds it. -/
theorem Restores.embedded {S : Type} {m : Member R} {change : R → R} {get : S → R}
    {set : R → S → S} {s : S} (h : m.Restores f cx (get s) change) :
    (m.embedded get set).Restores f cx s fun s₀ => set (change (get s₀)) s₀ where
  mandatory := h.mandatory
  absent hnone s₀ := by
    show (m.decode f cx none (get s₀)).map (fun r => set r s₀) = _
    rw [h.absent hnone]
    rfl
  present v hv s₀ := by
    show (m.decode f cx (some v) (get s₀)).map (fun r => set r s₀) = _
    rw [h.present v hv]
    rfl

end Member

/-- The entries that members write of a record. -/
def writtenBy {R : Type} (f : Format) (r : R) (members : List (Member R)) : Written f :=
  members.filterMap fun m => m.written? f r

section Taking

variable {R : Type} {f : Format} {cx : Context} {r : R}

theorem writtenBy_cons (m : Member R) (rest : List (Member R)) :
    writtenBy f r (m :: rest) = (m.written? f r).toList ++ writtenBy f r rest := by
  unfold writtenBy
  rw [List.filterMap_cons]
  cases m.written? f r <;> rfl

theorem map_fst_writtenBy_sublist (members : List (Member R)) :
    ((writtenBy f r members).map (·.1)).Sublist (members.map (·.spec)) := by
  induction members with
  | nil => exact .slnil
  | cons m rest ih =>
    rw [writtenBy_cons]
    cases he : m.written? f r with
    | none => exact ih.cons _
    | some e =>
      have hspec := Member.spec_of_written? he
      show (e.1 :: (writtenBy f r rest).map (·.1)).Sublist _
      rw [hspec, List.map_cons]
      exact ih.cons_cons _

/-- One claim: what the first member wrote is there and goes, or it wrote nothing.  A member that
wrote nothing finds nothing, as no other member has its key. -/
theorem takeAll_cons {m : Member R} {change : R → R} (hm : m.Restores f cx r change)
    (hw : m.Writes f r) {entries rest : Entries f}
    (h : entries.Perm (((m.written? f r).toList.map fun e => (f.keyFor e.1, e.2)) ++ rest))
    (hrest : ∀ e ∈ rest, e.1 ≠ f.keyFor m.spec) (members : List (Member R)) (r₀ : R) :
    ∃ left : Entries f, left.Perm rest ∧
      takeAll cx (m :: members) r₀ entries = takeAll cx members (change r₀) left := by
  have hstep : takeAll cx (m :: members) r₀ entries =
      (m.decode f cx (entries.get? m.spec) r₀).bind fun r₁ =>
        takeAll cx members r₁ (entries.without m.spec) := rfl
  cases he : m.encode f r with
  | none =>
    rw [Member.written?_of_none he] at h
    have habsent : ∀ e ∈ entries, e.1 ≠ f.keyFor m.spec := fun e hmem => hrest e (h.mem_iff.1 hmem)
    refine ⟨entries, h, ?_⟩
    rw [hstep, Entries.get?_of_absent habsent, Entries.without_of_absent habsent, hm.absent he]
    rfl
  | some c =>
    cases c with
    | error e => exact absurd he (hw e)
    | ok v =>
      rw [Member.written?_of_ok he] at h
      refine ⟨entries.without m.spec, Entries.without_of_perm h hrest, ?_⟩
      rw [hstep, Entries.get?_of_perm h hrest, hm.present v he]
      rfl

/-- The members of a record claim all it has written, in whatever order it comes and among whatever
entries of other fields, and leave those.  The entries of the other members are under other keys, so
the claim takes none of them. -/
theorem takeAll_of_perm {plan : List (Member R × (R → R))}
    (hplan : ∀ p ∈ plan, p.1.Restores f cx r p.2) (hwrites : ∀ p ∈ plan, p.1.Writes f r)
    (hapart : (plan.map (·.1.spec)).Pairwise FieldSpec.Apart) {entries others : Entries f}
    (h : entries.Perm
      (((writtenBy f r (plan.map (·.1))).map fun e => (f.keyFor e.1, e.2)) ++ others))
    (hothers : ∀ p ∈ plan, ∀ e ∈ others, e.1 ≠ f.keyFor p.1.spec) (r₀ : R) :
    ∃ left : Entries f, left.Perm others ∧
      takeAll cx (plan.map (·.1)) r₀ entries =
        .ok (plan.foldl (fun acc p => p.2 acc) r₀, left) := by
  induction plan generalizing entries r₀ with
  | nil => exact ⟨entries, h, rfl⟩
  | cons p plan ih =>
    obtain ⟨hp, hplan⟩ := List.forall_mem_cons.1 hplan
    obtain ⟨hpw, hwrites⟩ := List.forall_mem_cons.1 hwrites
    obtain ⟨hpo, hothers⟩ := List.forall_mem_cons.1 hothers
    obtain ⟨hfirst, hapart⟩ := List.pairwise_cons.1 hapart
    rw [List.map_cons, writtenBy_cons, List.map_append, List.append_assoc] at h
    have hrest : ∀ e ∈
        ((writtenBy f r (plan.map (·.1))).map fun e => (f.keyFor e.1, e.2)) ++ others,
        e.1 ≠ f.keyFor p.1.spec := by
      intro e he
      rcases List.mem_append.1 he with he | he
      · obtain ⟨a, ha, rfl⟩ := List.mem_map.1 he
        have hspec : a.1 ∈ plan.map (·.1.spec) := by
          have := (map_fst_writtenBy_sublist (f := f) (r := r) (plan.map (·.1))).subset
            (List.mem_map_of_mem ha)
          rwa [List.map_map] at this
        exact ((hfirst _ hspec).keyFor_ne f).symm
      · exact hpo e he
    obtain ⟨left, hleft, hstep⟩ := takeAll_cons hp hpw h hrest (plan.map (·.1)) r₀
    obtain ⟨last, hlast, hall⟩ := ih hplan hwrites hapart hleft hothers (p.2 r₀)
    refine ⟨last, hlast, ?_⟩
    rw [List.map_cons, hstep, hall]
    rfl

end Taking

/-! ## Records

The fields of the members are those of the schema, in any order.  An array leaves no field out, so
its positions are the keys of the schema. -/

/-- The members of a record type write and read the fields of its schema, which tells them apart. -/
structure RecordShape.Sound {R : Type} (s : RecordShape R) : Prop where
  check : s.schema.check = .ok ()
  fields : (s.members.map (·.spec)).Perm s.schema.allFields

namespace RecordShape

variable {R : Type} {s : RecordShape R} {f : Format} {cx : Context} {r : R}

/-- The fields of a sound record are apart. -/
theorem Sound.apart (h : s.Sound) : (s.members.map (·.spec)).Pairwise FieldSpec.Apart :=
  (h.fields.pairwise_iff FieldSpec.Apart.symm).2 (Schema.check_eq_ok_iff.1 h.check).1

/-- The order of its fields does not make a record sound. -/
theorem Sound.of_perm {members : List (Member R)} (h : s.Sound) (hp : members.Perm s.members) :
    (RecordShape.mk s.schema members).Sound where
  check := h.check
  fields := (hp.map _).trans h.fields

theorem map_fst_writtenBy {members : List (Member R)}
    (hmandatory : ∀ m ∈ members, m.encode f r ≠ none) (hwrites : ∀ m ∈ members, m.Writes f r) :
    (writtenBy f r members).map (·.1) = members.map (·.spec) := by
  induction members with
  | nil => rfl
  | cons m rest ih =>
    obtain ⟨hm, hmandatory⟩ := List.forall_mem_cons.1 hmandatory
    obtain ⟨hmw, hwrites⟩ := List.forall_mem_cons.1 hwrites
    have hentry : ∃ v, m.written? f r = some (m.spec, v) := by
      cases he : m.encode f r with
      | none => exact absurd he hm
      | some c =>
        cases c with
        | ok v => exact ⟨v, Member.written?_of_ok he⟩
        | error e => exact absurd he (hmw e)
    obtain ⟨v, hv⟩ := hentry
    unfold writtenBy
    rw [List.filterMap_cons, hv]
    exact congrArg (m.spec :: ·) (ih hmandatory hwrites)

theorem Sound.writtenBy_fits (h : s.Sound)
    (hmandatory : ∀ m ∈ s.members, m.spec.isOptional = false → m.encode f r ≠ none)
    (hwrites : ∀ m ∈ s.members, m.Writes f r) :
    (writtenBy f r s.members).Fits s.schema.layout := by
  constructor
  · exact h.apart.sublist (map_fst_writtenBy_sublist s.members)
  · intro hlayout
    have hdense := (Schema.check_eq_ok_iff.1 h.check).2 hlayout
    have hall : ∀ m ∈ s.members, m.encode f r ≠ none := by
      intro m hm
      refine hmandatory m hm ?_
      have hmem : m.spec ∈ s.schema.allFields := h.fields.subset (List.mem_map_of_mem hm)
      exact (Schema.dense_iff.1 hdense).2 _ ((Schema.byKey_perm _).mem_iff.2 hmem)
    rwa [map_fst_writtenBy hall hwrites, Schema.byKey_eq_of_perm h.fields h.apart]

/-- What the fields of a record write are entries if nothing fails. -/
theorem puts_eq {members : List (Member R)} (hwrites : ∀ m ∈ members, m.Writes f r) :
    members.filterMap (fun m => m.put? f r) = (writtenBy f r members).map Put.ofEntry := by
  induction members with
  | nil => rfl
  | cons m rest ih =>
    obtain ⟨hm, hrest⟩ := List.forall_mem_cons.1 hwrites
    unfold writtenBy at ih ⊢
    rw [List.filterMap_cons, List.filterMap_cons, Member.put?_eq_map_written? hm, ih hrest]
    cases m.written? f r <;> rfl

/-- A record is written with some more fields after its own exactly if all its members write without
an error, and if the fields added have values and clash with none.  What was written came from
fields with values, so no member had an error to put. -/
theorem encodeWith_eq_ok_iff {more : List (Put f)} {v : Raw f} :
    s.encodeWith f r more = .ok v ↔
      (∀ m ∈ s.members, m.Writes f r) ∧
        ∃ added : Written f, more = added.map Put.ofEntry ∧
          ((writtenBy f r s.members ++ added).map (·.1)).Pairwise FieldSpec.Apart ∧
          v = f.ofEntries s.schema.layout (writtenBy f r s.members ++ added) := by
  unfold encodeWith
  constructor
  · intro hv
    obtain ⟨w, hw, rfl⟩ := exists_of_map_eq_ok hv
    obtain ⟨all, hputs, rfl, -, hpair⟩ := writeAll_eq_ok_iff.1 hw
    obtain ⟨own, added, rfl, hown, hadded⟩ := List.map_eq_append_iff.1 hputs.symm
    have hwrites : ∀ m ∈ s.members, m.Writes f r := by
      intro m hm
      apply Member.writes_of_put? (w := own)
      intro p hp
      rw [hown]
      exact List.mem_filterMap.2 ⟨m, hm, hp⟩
    have hwritten : own = writtenBy f r s.members := by
      apply (List.map_inj_right Put.ofEntry_inj).1
      rw [hown, ← puts_eq hwrites]
      rfl
    rw [hwritten] at hpair ⊢
    exact ⟨hwrites, added, hadded.symm, hpair, rfl⟩
  · rintro ⟨hwrites, added, rfl, hpair, rfl⟩
    have hputs : s.puts f r ++ added.map Put.ofEntry =
        (writtenBy f r s.members ++ added).map Put.ofEntry := by
      rw [List.map_append, ← puts_eq hwrites]
      rfl
    have hw : writeAll s.schema.entity [] (s.puts f r ++ added.map Put.ofEntry) =
        .ok (writtenBy f r s.members ++ added) :=
      writeAll_eq_ok_iff.2 ⟨_, hputs, rfl, by simp, hpair⟩
    rw [hw]
    rfl

/-- A record is written exactly if all its members write without an error. -/
theorem encode_eq_ok_iff (h : s.Sound) {v : Raw f} :
    s.encode f r = .ok v ↔
      (∀ m ∈ s.members, m.Writes f r) ∧
        v = f.ofEntries s.schema.layout (writtenBy f r s.members) := by
  unfold encode
  rw [encodeWith_eq_ok_iff]
  refine and_congr_right fun _ => ⟨?_, ?_⟩
  · rintro ⟨added, hadded, -, rfl⟩
    obtain rfl := List.map_eq_nil_iff.1 hadded.symm
    rw [List.append_nil]
  · rintro rfl
    refine ⟨[], rfl, ?_, ?_⟩ <;> rw [List.append_nil]
    exact h.apart.sublist (map_fst_writtenBy_sublist s.members)

/-- The members take back what they have written, in any order of their own, and leave the entries
of other fields to `claim`.  The record is taken apart into what was written, and the members claim
what is theirs. -/
theorem decodeWith_of_entries (h : s.Sound) {plan : List (Member R × (R → R))}
    (hmembers : (plan.map (·.1)).Perm s.members)
    (hplan : ∀ p ∈ plan, p.1.Restores f cx r p.2) (hwrites : ∀ m ∈ s.members, m.Writes f r)
    {added : Written f} (hfits : (writtenBy f r s.members ++ added).Fits s.schema.layout)
    (hothers : ∀ m ∈ s.members, ∀ e ∈ added, m.spec.Apart e.1) (r₀ : R) :
    ∃ left : Entries f, left.Perm (added.map fun e => (f.keyFor e.1, e.2)) ∧
      ∀ {S : Type} (claim : R → Entries f → Coded (S × Entries f)),
        (RecordShape.mk s.schema (plan.map (·.1))).decodeWith f cx r₀ claim
            (f.ofEntries s.schema.layout (writtenBy f r s.members ++ added)) =
          (claim (plan.foldl (fun acc p => p.2 acc) r₀) left).bind fun x =>
            (Entries.finish s.schema.entity x.2).map fun _ => x.1 := by
  obtain ⟨entries, hentries, hperm⟩ := Format.toEntries_ofEntries hfits
  rw [List.map_append] at hperm
  have hwritten : (writtenBy f r s.members).Perm (writtenBy f r (plan.map (·.1))) :=
    (hmembers.filterMap _).symm
  have hapart : (plan.map (·.1.spec)).Pairwise FieldSpec.Apart := by
    have := (h.of_perm hmembers).apart
    rwa [List.map_map] at this
  have hmem : ∀ p ∈ plan, p.1 ∈ s.members := fun p hp =>
    hmembers.mem_iff.1 (List.mem_map_of_mem hp)
  have hforeign : ∀ p ∈ plan, ∀ e ∈ added.map fun e => (f.keyFor e.1, e.2),
      e.1 ≠ f.keyFor p.1.spec := by
    intro p hp e he
    obtain ⟨a, ha, rfl⟩ := List.mem_map.1 he
    exact ((hothers _ (hmem p hp) a ha).keyFor_ne f).symm
  obtain ⟨left, hleft, htake⟩ := takeAll_of_perm hplan (fun p hp => hwrites _ (hmem p hp)) hapart
    (hperm.trans ((hwritten.map _).append_right _)) hforeign r₀
  refine ⟨left, hleft, fun claim => ?_⟩
  unfold decodeWith
  rw [hentries]
  show (takeAll cx (plan.map (·.1)) r₀ entries).bind _ = _
  rw [htake]
  rfl

/-- The members take a written record back, in any order of their own; what `claim` makes of the
entries after them is that of none. -/
theorem decodeWith_of_encode (h : s.Sound) {plan : List (Member R × (R → R))}
    (hmembers : (plan.map (·.1)).Perm s.members)
    (hplan : ∀ p ∈ plan, p.1.Restores f cx r p.2) {v : Raw f} (hv : s.encode f r = .ok v)
    {S : Type} (claim : R → Entries f → Coded (S × Entries f)) (r₀ : R) :
    (RecordShape.mk s.schema (plan.map (·.1))).decodeWith f cx r₀ claim v =
      (claim (plan.foldl (fun acc p => p.2 acc) r₀) []).bind fun x =>
        (Entries.finish s.schema.entity x.2).map fun _ => x.1 := by
  obtain ⟨hwrites, rfl⟩ := (encode_eq_ok_iff h).1 hv
  have hmandatory : ∀ m ∈ s.members, m.spec.isOptional = false → m.encode f r ≠ none := by
    intro m hm
    obtain ⟨p, hp, rfl⟩ := List.mem_map.1 (hmembers.mem_iff.2 hm)
    exact (hplan p hp).mandatory
  have hfits := h.writtenBy_fits hmandatory hwrites
  rw [← List.append_nil (writtenBy f r s.members)] at hfits ⊢
  obtain ⟨left, hleft, hread⟩ :=
    decodeWith_of_entries h hmembers hplan hwrites hfits (by simp) r₀
  obtain rfl := hleft.eq_nil
  exact hread claim

/-- A written record is read back as what the changes of its members make of the record that reading
starts from. -/
theorem decode_of_encode (h : s.Sound) {plan : List (Member R × (R → R))}
    (hmembers : (plan.map (·.1)).Perm s.members)
    (hplan : ∀ p ∈ plan, p.1.Restores f cx r p.2) {v : Raw f} (hv : s.encode f r = .ok v) (r₀ : R) :
    (RecordShape.mk s.schema (plan.map (·.1))).decode f cx r₀ v =
      .ok (plan.foldl (fun acc p => p.2 acc) r₀) :=
  decodeWith_of_encode h hmembers hplan hv _ r₀

end RecordShape

end Rim
