import Rim.Proofs.Record.Travels
/-!
# Records read through documents

A document need not hold what was written: it holds the raw value that its bytes are read as, in
which numbers may have changed.  Lists and records are read part by part, so a record is read back
through a document if the values under its fields are, though none of them need be plain.

A record whose members write what is read of them is written as what is read of the record.  This
turns reading through a document into reading what was written.

## Main definitions

* `FieldCodec.Returns`, `Member.Returns`, `RecordShape.Returns`: values, fields and records that
  come back from a document.
* `RecordShape.rereading`: the record type whose members write what is read of them.

## Main results

* `Format.reread?_ofList`, `Format.reread?_ofEntries`: lists and records are read part by part.
* `RecordShape.Returns.decodeWith`: records come back from a document if their fields do.
-/

namespace Rim

/-! ## Lists and records -/

/-- What is read of the document of a raw value; the raw value itself if its document is refused. -/
def Format.reread (f : Format) (v : Raw f) : Raw f := (f.reread? v).getD v

namespace Format

variable {f : Format}

theorem reread_eq {v w : Raw f} (h : f.reread? v = some w) : f.reread v = w := by
  rw [reread, h]
  rfl

theorem reread?_ofList {vs : List (Raw f)} {g : Raw f → Raw f}
    (h : ∀ v ∈ vs, f.reread? v = some (g v)) :
    f.reread? (f.ofList vs) = some (f.ofList (vs.map g)) := by
  cases f with
  | cbor => exact Cbor.reread?_array h
  | json => exact Json.reread?_array h

/-- A record is read entry by entry. -/
theorem reread?_ofEntries {layout : Layout} {w : Written f} {g : Raw f → Raw f}
    (hapart : (w.map (·.1)).Pairwise FieldSpec.Apart) (h : ∀ e ∈ w, f.reread? e.2 = some (g e.2)) :
    f.reread? (f.ofEntries layout w) = some (f.ofEntries layout (w.map fun e => (e.1, g e.2))) := by
  have hkeys := nodup_keys_of_apart hapart f
  rw [List.map_map] at hkeys
  cases f with
  | json =>
    have hmembers : ∀ e' ∈ w.map (fun e => (e.1.name, e.2)),
        Json.reread? e'.2 = some (g e'.2) := by
      intro e' he'
      obtain ⟨e, he, rfl⟩ := List.mem_map.1 he'
      exact h e he
    have hread := Json.reread?_object (by rwa [List.map_map]) hmembers
    rw [List.map_map] at hread
    show Json.reread? (.object _) = some (.object _)
    rw [hread, List.map_map]
    rfl
  | cbor =>
    cases layout with
    | array =>
      have hitems : ∀ v ∈ (w.mergeSort fun a b => a.1.key.toNat ≤ b.1.key.toNat).map (·.2),
          Cbor.reread? v = some (g v) := by
        intro v hv
        obtain ⟨e, he, rfl⟩ := List.mem_map.1 hv
        exact h e (List.mem_mergeSort.1 he)
      have hread := Cbor.reread?_array hitems
      have hsorted : (w.mergeSort fun a b => a.1.key.toNat ≤ b.1.key.toNat).map
          (fun e => (e.1, g e.2)) = (w.map fun e => (e.1, g e.2)).mergeSort fun a b =>
            a.1.key.toNat ≤ b.1.key.toNat :=
        List.map_mergeSort fun _ _ _ _ => rfl
      rw [List.map_map] at hread
      show Cbor.reread? (.array _) = some (.array _)
      rw [hread, ← hsorted, List.map_map]
      rfl
    | map =>
      have hentries : ∀ e' ∈ w.map (fun e => (e.1.key, e.2)),
          Cbor.reread? e'.2 = some (g e'.2) := by
        intro e' he'
        obtain ⟨e, he, rfl⟩ := List.mem_map.1 he'
        exact h e he
      have hread := Cbor.reread?_mapOf (nodup_map_key hapart) hentries
      rw [List.map_map, List.map_map, List.map_map] at hread
      show Cbor.reread? (Cbor.mapOf _) = some (Cbor.mapOf _)
      rw [List.map_map]
      exact hread

theorem depth_ofList_le {n : Nat} {vs : List (Raw f)} (h : ∀ v ∈ vs, f.depth v ≤ n) :
    f.depth (f.ofList vs) ≤ n + 1 := by
  cases f with
  | cbor => exact Nat.succ_le_succ (Cbor.depthItems_le_iff.2 h)
  | json => exact Nat.succ_le_succ (Json.depthItems_le_iff.2 h)

theorem depth_ofEntries_le {n : Nat} {layout : Layout} {w : Written f}
    (hapart : (w.map (·.1)).Pairwise FieldSpec.Apart) (h : ∀ e ∈ w, f.depth e.2 ≤ n) :
    f.depth (f.ofEntries layout w) ≤ n + 1 := by
  cases f with
  | json =>
    refine Nat.succ_le_succ (Json.depthMembers_le_iff.2 fun e' he' => ?_)
    obtain ⟨e, he, rfl⟩ := List.mem_map.1 he'
    exact h e he
  | cbor =>
    cases layout with
    | array =>
      refine Nat.succ_le_succ (Cbor.depthItems_le_iff.2 fun v hv => ?_)
      obtain ⟨e, he, rfl⟩ := List.mem_map.1 hv
      exact h e (List.mem_mergeSort.1 he)
    | map =>
      obtain ⟨es, hes, hperm⟩ := exists_ofEntries_map hapart
      rw [hes]
      refine Nat.succ_le_succ (Cbor.depthEntries_le_iff.2 fun e' he' => ?_)
      obtain ⟨e, he, rfl⟩ := List.mem_map.1 he'
      obtain ⟨a, ha, rfl⟩ := List.mem_map.1 (hperm.mem_iff.1 he)
      exact ⟨Nat.zero_le _, h a ha⟩

end Format

/-! ## Values under a field -/

variable {f : Format} {cx : Context} {n : Nat}

namespace FieldCodec

variable {α : Type} {c : FieldCodec α} {a b : α}

/-- What is written of `a` nests at most `n` deep and is read as `b` from a document that holds
it. -/
structure Returns (c : FieldCodec α) (f : Format) (cx : Context) (n : Nat) (a b : α) : Prop where
  reads : ∀ v, c.encode f a = .ok v → ∃ w, f.reread? v = some w ∧ c.decode f cx w = .ok b
  depth_le : ∀ v, c.encode f a = .ok v → f.depth v ≤ n

/-- The codec that writes what is read of the documents of its values. -/
def rereading (c : FieldCodec α) : FieldCodec α :=
  { c with encode := fun f a => (c.encode f a).map f.reread }

theorem Returns.reread?_eq (h : c.Returns f cx n a b) {v : Raw f} (hv : c.encode f a = .ok v) :
    f.reread? v = some (f.reread v) := by
  obtain ⟨w, hw, -⟩ := h.reads v hv
  rw [hw, Format.reread_eq hw]

theorem Returns.reads_rereading (h : c.Returns f cx n a b) : c.rereading.Reads f cx a b := by
  intro w hw
  obtain ⟨v, hv, rfl⟩ := exists_of_map_eq_ok hw
  obtain ⟨w, hw, hread⟩ := h.reads v hv
  rw [Format.reread_eq hw]
  exact hread

theorem Travels.returns (h : c.Travels f cx n a b) : c.Returns f cx n a b where
  reads v hv := ⟨v, (h.plain v hv).reread?_eq, h.reads v hv⟩
  depth_le v hv := (h.plain v hv).depth_le

theorem encodeItems_rereading {index : Nat} {l : List α} {vs : List (Raw f)}
    (h : encodeItems (c.encode f) index l = .ok vs) :
    encodeItems (c.rereading.encode f) index l = .ok (vs.map f.reread) := by
  induction l generalizing index vs with
  | nil =>
    obtain rfl := Except.ok.inj h
    rfl
  | cons a l ih =>
    obtain ⟨v, vs, hv, hvs, rfl⟩ := exists_of_encodeItems_cons h
    have hfirst : c.rereading.encode f a = .ok (f.reread v) := congrArg (Except.map f.reread) hv
    rw [encodeItems, hfirst, ih hvs]
    rfl

/-- A list comes back item by item. -/
theorem returns_list {l : List α} (norm : α → α) (h : ∀ a ∈ l, c.Returns f cx n a (norm a)) :
    (list c).Returns f cx (n + 1) l (l.map norm) where
  reads v hv := by
    obtain ⟨vs, hvs, rfl⟩ := exists_of_encode_list hv
    refine ⟨_, Format.reread?_ofList (g := f.reread) fun v hv => ?_, ?_⟩
    · obtain ⟨a, ha, hav⟩ := mem_encodeItems hvs v hv
      exact (h a ha).reread?_eq hav
    · show (do encodeItems (c.decode f cx) 0 (← f.toList (f.ofList (vs.map f.reread)))) = _
      rw [toList_ofList]
      exact encodeItems_of_encodeItems 0 (fun a ha => (h a ha).reads_rereading)
        (encodeItems_rereading hvs)
  depth_le v hv := by
    obtain ⟨vs, hvs, rfl⟩ := exists_of_encode_list hv
    refine Format.depth_ofList_le fun v hv => ?_
    obtain ⟨a, ha, hav⟩ := mem_encodeItems hvs v hv
    exact (h a ha).depth_le v hav

/-- A list whose items come back as themselves comes back as itself. -/
theorem returns_items {l : List α} (h : ∀ a ∈ l, c.Returns f cx n a a) :
    (list c).Returns f cx (n + 1) l l := by
  have hid : (list c).Returns f cx (n + 1) l (l.map id) := returns_list id h
  rwa [List.map_id] at hid

end FieldCodec

/-! ## Fields -/

namespace Member

variable {R α : Type} {c : FieldCodec α} {spec : FieldSpec} {r : R}

/-- The member that writes what is read of the documents of what it wrote. -/
def rereading (m : Member R) : Member R :=
  { m with encode := fun f r => (m.encode f r).map (Except.map f.reread) }

/-- What a member writes of `r` nests at most `n` deep, and reading it from a document that holds it
changes any record by `change`. -/
structure Returns (m : Member R) (f : Format) (cx : Context) (n : Nat) (r : R) (change : R → R) :
    Prop where
  restores : m.rereading.Restores f cx r change
  reread?_eq : ∀ v, m.encode f r = some (.ok v) → f.reread? v = some (f.reread v)
  depth_le : ∀ v, m.encode f r = some (.ok v) → f.depth v ≤ n

theorem map_encodeUnlessEmpty (f : Format) (a : α) :
    (encodeUnlessEmpty c spec f a).map (Except.map f.reread) =
      encodeUnlessEmpty c.rereading spec f a := by
  unfold encodeUnlessEmpty
  show _ = if spec.isOptional && c.isEmpty a then none else some ((c.encode f a).map f.reread)
  split <;> rfl

theorem rereading_required (get : R → α) (set : α → R → R) :
    (required spec c get set).rereading = required spec c.rereading get set := by
  unfold rereading required
  congr 1
  funext f r
  exact map_encodeUnlessEmpty f (get r)

theorem rereading_optional (get : R → Option α) (set : Option α → R → R) :
    (optional spec c get set).rereading = optional spec c.rereading get set := by
  unfold rereading optional
  congr 1
  funext f r
  dsimp only
  cases get r with
  | none => rfl
  | some a => exact map_encodeUnlessEmpty f a

theorem returns_required {get : R → α} {set : α → R → R} {b : α} (ho : spec.isOptional = false)
    (h : c.Returns f cx n (get r) b) : (required spec c get set).Returns f cx n r (set b) where
  restores := rereading_required get set ▸ restores_required ho h.reads_rereading
  reread?_eq _ hv := h.reread?_eq (encode_of_encodeUnlessEmpty hv)
  depth_le v hv := h.depth_le v (encode_of_encodeUnlessEmpty hv)

/-- An optional field whose values are never empty keeps them. -/
theorem returns_kept {get : R → Option α} {set : Option α → R → R} (ho : spec.isOptional = true)
    (hne : ∀ a, c.isEmpty a = false) (h : ∀ a, get r = some a → c.Returns f cx n a a) :
    (optional spec c get set).Returns f cx n r (set (get r)) where
  restores := by
    have hfilter : ((get r).filter fun a => !c.rereading.isEmpty a).map id = get r := by
      cases get r <;> simp [FieldCodec.rereading, hne]
    have hall : (optional spec c.rereading get set).Restores f cx r
        (set (((get r).filter fun a => !c.rereading.isEmpty a).map id)) :=
      restores_optional id ho fun a ha _ => (h a ha).reads_rereading
    rw [rereading_optional]
    rwa [hfilter] at hall
  reread?_eq v hv := by
    obtain ⟨a, ha, hav⟩ := Option.bind_eq_some_iff.1 (show (get r).bind _ = _ from hv)
    exact (h a ha).reread?_eq (encode_of_encodeUnlessEmpty hav)
  depth_le v hv := by
    obtain ⟨a, ha, hav⟩ := Option.bind_eq_some_iff.1 (show (get r).bind _ = _ from hv)
    exact (h a ha).depth_le v (encode_of_encodeUnlessEmpty hav)

theorem Travels.returns {m : Member R} {change : R → R} (h : m.Travels f cx n r change) :
    m.Returns f cx n r change where
  restores := {
    mandatory := fun ho hnone => h.restores.mandatory ho (Option.map_eq_none_iff.1 hnone)
    absent := fun hnone => h.restores.absent (Option.map_eq_none_iff.1 hnone)
    present := fun w hw r₀ => by
      obtain ⟨_ | v, henc, hv⟩ := Option.map_eq_some_iff.1 hw
      · cases hv
      obtain rfl := Except.ok.inj hv
      have hplain := h.plain v henc
      show m.decode f cx (some (f.reread v)) r₀ = _
      rw [Format.reread_eq hplain.reread?_eq]
      exact h.restores.present v henc r₀ }
  reread?_eq v hv := by
    have hplain := (h.plain v hv).reread?_eq
    rw [hplain, Format.reread_eq hplain]
  depth_le v hv := (h.plain v hv).depth_le

end Member

/-! ## Records -/

namespace RecordShape

variable {R : Type} {s : RecordShape R} {r : R}

/-- The record type whose members write what is read of the documents of what they wrote. -/
def rereading (s : RecordShape R) : RecordShape R where
  schema := s.schema
  members := s.members.map Member.rereading

theorem takeAll_rereading (cx : Context) (members : List (Member R)) (r : R) (entries : Entries f) :
    takeAll cx (members.map Member.rereading) r entries = takeAll cx members r entries := by
  induction members generalizing r entries with
  | nil => rfl
  | cons m members ih =>
    show (m.decode f cx (entries.get? m.spec) r).bind _ =
      (m.decode f cx (entries.get? m.spec) r).bind _
    congr 1
    funext r
    exact ih r _

theorem decodeWith_rereading {S : Type} (claim : R → Entries f → Coded (S × Entries f))
    (v : Raw f) :
    s.rereading.decodeWith f cx r claim v = s.decodeWith f cx r claim v := by
  unfold decodeWith rereading
  simp only [takeAll_rereading]

theorem Sound.rereading (h : s.Sound) : s.rereading.Sound where
  check := h.check
  fields := by
    show ((s.members.map Member.rereading).map (·.spec)).Perm _
    rw [List.map_map]
    exact h.fields

theorem writtenBy_rereading (members : List (Member R)) :
    writtenBy f r (members.map Member.rereading) =
      (writtenBy f r members).map fun e => (e.1, f.reread e.2) := by
  unfold writtenBy
  rw [List.filterMap_map, List.map_filterMap]
  refine List.filterMap_congr fun m _ => ?_
  show (m.rereading.written? f r) = _
  unfold Member.written? Member.rereading
  dsimp only
  rcases m.encode f r with _ | _ | v <;> rfl

/-- What is read of the document of a record is what members write that write what is read. -/
theorem encode_rereading (h : s.Sound) {v : Raw f} (hv : s.encode f r = .ok v)
    (hreturns : ∀ m ∈ s.members, ∀ v, m.encode f r = some (.ok v) →
      f.reread? v = some (f.reread v)) :
    f.reread? v = some (f.reread v) ∧ s.rereading.encode f r = .ok (f.reread v) := by
  obtain ⟨hwrites, rfl⟩ := (encode_eq_ok_iff h).1 hv
  have hentries : ∀ e ∈ writtenBy f r s.members, f.reread? e.2 = some (f.reread e.2) := by
    intro e he
    obtain ⟨m, hm, hentry⟩ := List.mem_filterMap.1 he
    obtain ⟨v, hv, rfl⟩ := Member.exists_of_written? hentry
    exact hreturns m hm v hv
  have hread : f.reread? (f.ofEntries s.schema.layout _) = some (f.ofEntries s.schema.layout _) :=
    Format.reread?_ofEntries (h.apart.sublist (map_fst_writtenBy_sublist s.members)) hentries
  rw [Format.reread_eq hread]
  refine ⟨hread, (encode_eq_ok_iff h.rereading).2 ⟨?_, ?_⟩⟩
  · intro m' hm' e he
    obtain ⟨m, hm, rfl⟩ := List.mem_map.1 hm'
    obtain ⟨_ | v, henc, he⟩ := Option.map_eq_some_iff.1 he
    · exact hwrites m hm _ henc
    · cases he
  · show _ = f.ofEntries s.schema.layout (writtenBy f r (s.members.map Member.rereading))
    rw [writtenBy_rereading]

/-- The members of a record type and its schema belong together, and they come back. -/
structure Returns (s : RecordShape R) (f : Format) (cx : Context) (n : Nat) (r blank result : R) :
    Prop where
  sound : s.Sound
  members : Chain (fun m change => m.Returns f cx n r change) s.members blank result

variable {blank result : R} {v : Raw f}

theorem Returns.depth_le (h : s.Returns f cx n r blank result) (hv : s.encode f r = .ok v) :
    f.depth v ≤ n + 1 := by
  obtain ⟨plan, hmembers, hplan, -⟩ := h.members.exists_plan
  obtain ⟨-, rfl⟩ := (encode_eq_ok_iff h.sound).1 hv
  have hapart := h.sound.apart.sublist (map_fst_writtenBy_sublist (f := f) (r := r) s.members)
  refine Format.depth_ofEntries_le hapart fun e he => ?_
  obtain ⟨m, hm, hentry⟩ := List.mem_filterMap.1 he
  obtain ⟨v, hv, rfl⟩ := Member.exists_of_written? hentry
  rw [← hmembers] at hm
  obtain ⟨p, hp, rfl⟩ := List.mem_map.1 hm
  exact (hplan p hp).depth_le v hv

/-- A record comes back from a document if its fields do; what `claim` makes of the entries after
them is that of none. -/
theorem Returns.decodeWith (h : s.Returns f cx n r blank result) (hv : s.encode f r = .ok v) :
    ∃ w, f.reread? v = some w ∧
      ∀ {S : Type} (claim : R → Entries f → Coded (S × Entries f)),
        s.decodeWith f cx blank claim w = (claim result []).bind fun x =>
          (Entries.finish s.schema.entity x.2).map fun _ => x.1 := by
  obtain ⟨plan, hmembers, hplan, rfl⟩ := h.members.exists_plan
  have hreturns : ∀ m ∈ s.members, ∀ v, m.encode f r = some (.ok v) →
      f.reread? v = some (f.reread v) := by
    rw [← hmembers]
    intro m hm
    obtain ⟨p, hp, rfl⟩ := List.mem_map.1 hm
    exact (hplan p hp).reread?_eq
  obtain ⟨hreread, henc⟩ := encode_rereading h.sound hv hreturns
  have hshape : (plan.map fun p => (p.1.rereading, p.2)).map (·.1) = s.rereading.members := by
    show _ = s.members.map Member.rereading
    rw [← hmembers, List.map_map, List.map_map]
    rfl
  have hrestores : ∀ p ∈ plan.map fun p => (p.1.rereading, p.2), p.1.Restores f cx r p.2 := by
    intro p' hp'
    obtain ⟨p, hp, rfl⟩ := List.mem_map.1 hp'
    exact (hplan p hp).restores
  refine ⟨_, hreread, fun claim => ?_⟩
  have hread := decodeWith_of_encode h.sound.rereading (.of_eq hshape) hrestores henc claim blank
  rw [hshape, List.foldl_map] at hread
  rw [← decodeWith_rereading]
  exact hread

end RecordShape

end Rim
