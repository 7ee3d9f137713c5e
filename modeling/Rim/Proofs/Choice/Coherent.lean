import Rim.Proofs.Choice.Catalogs
/-!
# The two indexes of a catalog

A catalog finds the tag of a name in one index and the entry of a tag in another.  Registering and
unregistering change both at once, so that the two always undo one another.

## Main definitions

* `Catalog.Coherent`: the two indexes list the same names and tags, and none twice.
* `Catalog.Bijective`: what this means for the look-ups.

## Main results

* `Catalog.Coherent.insert`, `Catalog.Coherent.unregister`: the indexes stay coherent.
* `Catalog.Coherent.bijective`: coherent indexes undo one another.
* `Catalog.insert_comm`: two entries may be inserted in any order.
-/

namespace Rim

/-! ## Coherent indexes

Both indexes are lists with distinct keys, so what is looked up is what is listed. -/

namespace Catalog

variable {T : Type} {g g' : Catalog T} {e : CatalogEntry T} {name : String} {tag : UInt64}

/-- The two indexes list the same names and tags, and no name or tag twice. -/
structure Coherent (g : Catalog T) : Prop where
  paired : g.byName.Perm g.toList
  names : (g.byName.map (·.1)).Nodup
  tags : (g.byTag.map (·.tag)).Nodup

/-- The empty catalog is coherent. -/
theorem coherent_empty : (empty : Catalog T).Coherent := ⟨.refl _, .nil, .nil⟩

/-- Unregistering leaves the entries under other names. -/
theorem byName_unregister (g : Catalog T) (name : String) :
    (g.unregister name).1.byName = g.byName.filter (·.1 != name) := by
  unfold unregister
  split
  case h_1 hnone =>
    refine (List.filter_eq_self.2 fun p hp => bne_iff_ne.2 ?_).symm
    rintro rfl
    simp only [tagOf?, Option.map_eq_none_iff, List.find?_eq_none] at hnone
    exact hnone p hp BEq.rfl
  case h_2 tag hsome => rfl

namespace Coherent

/-- What is found under a tag is the entry of that tag. -/
theorem findTag?_eq_some_iff (h : g.Coherent) :
    g.findTag? tag = some e ↔ e ∈ g.byTag ∧ e.tag = tag :=
  find?_key_eq_some_iff h.tags

/-- The tag of a name is that of the entry of the name. -/
theorem tagOf?_eq_some_iff (h : g.Coherent) :
    g.tagOf? name = some tag ↔ ∃ e ∈ g.byTag, e.name = name ∧ e.tag = tag := by
  have hlisted : g.tagOf? name = some tag ↔ (name, tag) ∈ g.byName := by
    simp [tagOf?, find?_key_eq_some_iff h.names]
  rw [hlisted, h.paired.mem_iff]
  simp [toList]

/-- The names of the entries are distinct, as the index of names is. -/
theorem entry_names (h : g.Coherent) : (g.byTag.map (·.name)).Nodup := by
  have hnames := (h.paired.map Prod.fst).nodup_iff.1 h.names
  simpa [toList, Function.comp_def] using hnames

theorem hasName_of_mem (h : g.Coherent) (he : e ∈ g.byTag) : g.hasName e.name = true := by
  rw [hasName, h.tagOf?_eq_some_iff.2 ⟨e, he, rfl, rfl⟩]
  rfl

/-- A catalog stays coherent when an entry is inserted. -/
theorem insert [TypeChoice T] (h : g.Coherent) (hinsert : g.insert e = .ok g') :
    g'.Coherent := by
  obtain ⟨hname, htag, rfl⟩ := insert_eq_ok_iff.1 hinsert
  rw [hasName_eq_any, List.any_eq_false] at hname
  rw [hasTag_eq_any, List.any_eq_false] at htag
  refine ⟨?_, ?_, ?_⟩
  · -- Each index gains the new pair and nothing else.
    have hentries := (perm_insertBy (·.tag) e g.byTag).map fun e => (e.name, e.tag)
    exact (perm_insertBy _ _ _).trans ((h.paired.cons _).trans hentries.symm)
  · refine ((perm_insertBy _ _ _).map _).nodup_iff.2 (List.nodup_cons.2 ⟨?_, h.names⟩)
    rintro hmem
    obtain ⟨p, hp, hpname⟩ := List.mem_map.1 hmem
    exact hname p hp (beq_iff_eq.2 hpname)
  · refine ((perm_insertBy _ _ _).map _).nodup_iff.2 (List.nodup_cons.2 ⟨?_, h.tags⟩)
    rintro hmem
    obtain ⟨e', he', hetag⟩ := List.mem_map.1 hmem
    exact htag e' he' (beq_iff_eq.2 hetag)

/-- Under the tag of a name there is no entry of another name. -/
theorem name_eq_iff (h : g.Coherent) (hfound : g.tagOf? name = some tag) (he : e ∈ g.byTag) :
    e.name = name ↔ e.tag = tag := by
  constructor
  · rintro rfl
    have htag := h.tagOf?_eq_some_iff.2 ⟨e, he, rfl, rfl⟩
    exact Option.some.inj (htag.symm.trans hfound)
  · rintro rfl
    obtain ⟨e', he', hname, htag⟩ := h.tagOf?_eq_some_iff.1 hfound
    rw [← List.inj_on_of_nodup_map h.tags he' he htag, hname]

/-- The entries but that of one name, whether the name is registered or not.  The entry is removed
by its tag, and no other entry has this tag. -/
theorem byTag_unregister (h : g.Coherent) (name : String) :
    (g.unregister name).1.byTag = g.byTag.filter (·.name != name) := by
  unfold unregister
  split
  case h_1 hnone =>
    refine (List.filter_eq_self.2 fun e he => bne_iff_ne.2 ?_).symm
    rintro rfl
    have hsome := h.hasName_of_mem he
    rw [hasName, hnone] at hsome
    cases hsome
  case h_2 tag hsome =>
    refine List.filter_congr fun e he => ?_
    rw [Bool.eq_iff_iff, bne_iff_ne, bne_iff_ne, ne_eq, ne_eq, h.name_eq_iff hsome he]

theorem unregister (h : g.Coherent) (name : String) : (g.unregister name).1.Coherent := by
  refine ⟨?_, ?_, ?_⟩
  · rw [toList, h.byTag_unregister, byName_unregister]
    have hpaired := h.paired.filter (·.1 != name)
    rwa [toList, List.filter_map] at hpaired
  · rw [byName_unregister]
    exact h.names.sublist (List.filter_sublist.map _)
  · rw [h.byTag_unregister]
    exact h.tags.sublist (List.filter_sublist.map _)

/-- Unregistering frees a name together with its tag. -/
theorem free_unregister (h : g.Coherent) (hfound : g.tagOf? name = some tag) :
    (g.unregister name).1.hasName name = false ∧ (g.unregister name).1.hasTag tag = false := by
  constructor
  · rw [hasName_eq_any, List.any_eq_false, byName_unregister]
    simp
  · rw [hasTag_eq_any, List.any_eq_false, h.byTag_unregister]
    intro e he
    obtain ⟨he, hname⟩ := List.mem_filter.1 he
    rw [beq_iff_eq, ← h.name_eq_iff hfound he]
    exact bne_iff_ne.1 hname

/-- A registered pair is built by the builder of its entry, by name and by tag. -/
theorem build_of_mem [TypeChoice T] (h : g.Coherent) (he : e ∈ g.byTag) (input : PayloadSource) :
    g.buildNamed e.name input = e.build input ∧ g.buildTagged e.tag input = e.build input := by
  have htagged : g.buildTagged e.tag input = e.build input := by
    rw [buildTagged, h.findTag?_eq_some_iff.2 ⟨he, rfl⟩]
  refine ⟨?_, htagged⟩
  rw [buildNamed, h.tagOf?_eq_some_iff.2 ⟨e, he, rfl, rfl⟩]
  exact htagged

end Coherent

/-- The two indexes of a catalog undo one another, and no two entries share a name or a tag. -/
structure Bijective (g : Catalog T) : Prop where
  names : (g.byName.map (·.1)).Nodup
  entryNames : (g.byTag.map (·.name)).Nodup
  entryTags : (g.byTag.map (·.tag)).Nodup
  inverse : ∀ name tag, g.tagOf? name = some tag ↔
    ∃ e, g.findTag? tag = some e ∧ e.name = name ∧ e.tag = tag

/-- In a coherent catalog names and tags correspond one to one. -/
theorem Coherent.bijective (h : g.Coherent) : g.Bijective where
  names := h.names
  entryNames := h.entry_names
  entryTags := h.tags
  inverse name tag := by
    rw [h.tagOf?_eq_some_iff]
    constructor
    · rintro ⟨e, he, hname, htag⟩
      exact ⟨e, h.findTag?_eq_some_iff.2 ⟨he, htag⟩, hname, htag⟩
    · rintro ⟨e, hfound, hname, htag⟩
      exact ⟨e, (h.findTag?_eq_some_iff.1 hfound).1, hname, htag⟩

/-! ## The order of insertions -/

/-- Two entries that are inserted one after the other may be inserted in the other order. -/
theorem insert_comm [TypeChoice T] {e' : CatalogEntry T} {g'' : Catalog T}
    (h : g.insert e = .ok g') (h' : g'.insert e' = .ok g'') :
    ∃ s, g.insert e' = .ok s ∧ s.insert e = .ok g'' := by
  have hname' := (insert_eq_ok_iff.1 h').1
  have htag' := (insert_eq_ok_iff.1 h').2.1
  rw [hasName_insert h, Bool.or_eq_false_iff, beq_eq_false_iff_ne] at hname'
  rw [hasTag_insert h, Bool.or_eq_false_iff, beq_eq_false_iff_ne] at htag'
  obtain ⟨s, hs⟩ : ∃ s, g.insert e' = .ok s :=
    ⟨_, insert_eq_ok_iff.2 ⟨hname'.2, htag'.2, rfl⟩⟩
  refine ⟨s, hs, insert_eq_ok_iff.2 ⟨?_, ?_, ?_⟩⟩
  · rw [hasName_insert hs, (insert_eq_ok_iff.1 h).1, Bool.or_false, beq_eq_false_iff_ne]
    exact hname'.1.symm
  · rw [hasTag_insert hs, (insert_eq_ok_iff.1 h).2.1, Bool.or_false, beq_eq_false_iff_ne]
    exact htag'.1.symm
  · -- The two indexes are ordered by different keys, and in each of them the keys differ.
    obtain ⟨-, -, rfl⟩ := insert_eq_ok_iff.1 h
    obtain ⟨-, -, rfl⟩ := insert_eq_ok_iff.1 h'
    obtain ⟨-, -, rfl⟩ := insert_eq_ok_iff.1 hs
    have total : ∀ x y : String, x ≠ y → x < y ∨ y < x := by
      intro x y hne
      by_cases hlt : x < y
      · exact .inl hlt
      · exact .inr (String.not_le.1 fun hle => hne (String.le_antisymm hle (String.not_lt.1 hlt)))
    have hbyTag : insertBy (·.tag) e' (insertBy (·.tag) e g.byTag) =
        insertBy (·.tag) e (insertBy (·.tag) e' g.byTag) :=
      insertBy_comm (fun _ _ _ => UInt64.lt_trans) (fun _ _ => UInt64.lt_asymm)
        (fun _ _ => UInt64.lt_or_lt_of_ne) htag'.1.symm _
    have hbyName :
        insertBy (·.1) (e'.name, e'.tag) (insertBy (·.1) (e.name, e.tag) g.byName) =
          insertBy (·.1) (e.name, e.tag) (insertBy (·.1) (e'.name, e'.tag) g.byName) := by
      apply insertBy_comm (fun _ _ _ => String.lt_trans) (fun _ _ => String.lt_asymm) total
      exact hname'.1.symm
    dsimp only
    rw [hbyTag, hbyName]

end Catalog

end Rim
