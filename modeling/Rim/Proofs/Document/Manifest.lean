import Rim.Proofs.Document.RoundTrip
import Rim.Proofs.Record.Reading
/-!
# Manifests are read with the hooks of the profile they declare

A manifest is read in two passes.  The first finds the profile it declares and the second reads the
whole of it with the hooks of that profile.  Both passes find the same profile, so the hooks of the
manifest and of its entities are those of the profile that it holds.

## Main definitions

* `Session.Unreadable`: manifests that are written within the limit but not read back.

## Main results

* `Session.decodeCorim_eq_ok_iff`: what a manifest was read from.
* `Session.profile_of_decodeAttached`: both passes find the same profile.
* `Session.decodeCorim_of_unregistered`: without a registered profile, profiles do not matter.
* `Session.decodeCorim_hooks`: which hooks a manifest has.
-/

namespace Rim

/-! ## The fields of a manifest -/

section Fields

variable {f : Format} {cx : Context} {d d' : Corim} {entries left : Entries f}

/-- The fields of a manifest leave its slot alone. -/
theorem keepsSlot_corim : ∀ m ∈ corimShape.members, m.KeepsSlot := by
  intro m hm
  simp only [corimShape, RecordShape.flat, List.mem_cons, List.not_mem_nil, or_false] at hm
  rcases hm with rfl | rfl | rfl | rfl
  · exact Member.keepsSlot_required fun _ _ => rfl
  · exact Member.keepsSlot_required fun _ _ => rfl
  · exact Member.keepsSlot_optional fun _ _ => rfl
  · exact Member.keepsSlot_defaulted fun _ _ => rfl

theorem keepsSlot_corimEntity : ∀ m ∈ corimEntityShape.members, m.KeepsSlot := by
  intro m hm
  simp only [corimEntityShape, identityShape, RecordShape.flat, List.map_cons, List.map_nil,
    List.cons_append, List.nil_append, List.mem_cons, List.not_mem_nil, or_false] at hm
  rcases hm with rfl | rfl | rfl
  · exact Member.keepsSlot_embedded fun _ _ => rfl
  · exact Member.keepsSlot_embedded fun _ _ => rfl
  · exact Member.keepsSlot_required fun _ _ => rfl

/-- The entities are read one by one. -/
theorem Corim.entities_of_takeAll
    (h : takeAll cx corimShape.members d entries = .ok (d', left)) :
    ∀ e ∈ d'.entities, ∃ v, (corimEntityShape.extended default).decode f cx v = .ok e := by
  obtain ⟨d₁, -, h⟩ := takeAll_cons_eq_ok_iff.1 h
  obtain ⟨d₂, -, h⟩ := takeAll_cons_eq_ok_iff.1 h
  obtain ⟨d₃, -, h⟩ := takeAll_cons_eq_ok_iff.1 h
  obtain ⟨d₄, hentities, h⟩ := takeAll_cons_eq_ok_iff.1 h
  obtain ⟨o, hclaimed, rfl⟩ := Member.decode_defaulted_eq_ok_iff.1 hentities
  obtain ⟨rfl, -⟩ := Prod.mk.inj (Except.ok.inj h)
  intro e he
  rcases Member.decodeClaimed_eq_ok_iff.1 hclaimed with ⟨-, rfl⟩ | ⟨v, a, -, hread, rfl⟩
  · cases he
  · obtain ⟨items, -, hread⟩ := exists_of_bind_eq_ok hread
    obtain ⟨v, -, hv⟩ := mem_encodeItems hread e he
    exact ⟨v, hv⟩

/-- The entities and the own hook of a manifest may be exchanged for such that are written alike. -/
theorem Corim.encode_mapEntities {g : CorimEntity → CorimEntity} {slot : Slot CorimBody}
    (hentities : ∀ e ∈ d.entities,
      corimEntityShape.encodeExtended f (g e) = corimEntityShape.encodeExtended f e)
    (hslot : Slot.puts f slot = Slot.puts f d.hook) :
    Document.encode f { d with entities := d.entities.map g, hook := slot } =
      Document.encode f d := by
  have hlist : (FieldCodec.list (corimEntityShape.extended default)).encode f (d.entities.map g) =
      (FieldCodec.list (corimEntityShape.extended default)).encode f d.entities :=
    congrArg (Except.map f.ofList) (encodeItems_map hentities 0)
  have hempty : (d.entities.map g).isEmpty = d.entities.isEmpty := List.isEmpty_map
  have hputs : corimShape.puts f { d with entities := d.entities.map g, hook := slot } =
      corimShape.puts f d := by
    refine List.filterMap_congr fun m hm => ?_
    simp only [corimShape, RecordShape.flat, List.mem_cons, List.not_mem_nil, or_false] at hm
    rcases hm with rfl | rfl | rfl | rfl
    · rfl
    · rfl
    · rfl
    · unfold Member.put? Member.defaulted Member.encodeUnlessEmpty
      dsimp only
      rw [hlist]
      show Option.map _ (if _ && (d.entities.map g).isEmpty then _ else _) = _
      rw [hempty]
      rfl
  show corimShape.encodeWith f _ (Slot.puts f slot) = corimShape.encodeWith f d (Slot.puts f d.hook)
  unfold RecordShape.encodeWith
  rw [hputs, hslot]

end Fields

namespace Session

variable {s : Session} {f : Format} {bytes : List UInt8} {c : Corim}

/-! ## The two passes -/

/-- A manifest is read in two passes, the first for its profile. -/
theorem decodeCorim_eq (s : Session) (f : Format) (bytes : List UInt8) :
    s.decodeCorim f bytes = (s.parse f bytes).bind fun v =>
      (Error.lift .record (Corim.declaredProfile f (s.context none) v)).bind fun profile =>
        (s.build profile).bind fun root =>
          Error.lift .record (corimShape.decodeAttached f (s.context profile) root v) := rfl

/-- What a manifest was read from: a profile found in the raw value, and the whole of it read into
a blank manifest with the hooks of that profile. -/
theorem decodeCorim_eq_ok_iff :
    s.decodeCorim f bytes = .ok c ↔
      ∃ v profile root, s.parse f bytes = .ok v ∧
        Corim.declaredProfile f (s.context none) v = .ok profile ∧
        s.build profile = .ok root ∧
        corimShape.decodeAttached f (s.context profile) root v = .ok c := by
  unfold decodeCorim
  constructor
  · intro h
    obtain ⟨v, hparse, h⟩ := exists_of_bind_eq_ok h
    obtain ⟨profile, hprofile, h⟩ := exists_of_bind_eq_ok h
    obtain ⟨root, hroot, h⟩ := exists_of_bind_eq_ok h
    exact ⟨v, profile, root, hparse, Error.of_lift hprofile, hroot, Error.of_lift h⟩
  · rintro ⟨v, profile, root, hparse, hprofile, hroot, hread⟩
    rw [hparse]
    show (Error.lift .record (Corim.declaredProfile f (s.context none) v)).bind _ = _
    rw [hprofile]
    show (s.build profile : Except Error Corim).bind _ = _
    rw [hroot]
    show Error.lift .record _ = _
    rw [hread]
    rfl

/-- Both passes find the same profile. -/
theorem profile_of_decodeAttached {v : Raw f} {profile : Option ProfileId} {root : Corim}
    (hdeclared : Corim.declaredProfile f (s.context none) v = .ok profile)
    (hread : corimShape.decodeAttached f (s.context profile) root v = .ok c) :
    c.profile = profile :=
  Except.ok.inj ((Corim.declaredProfile_of_decodeAttached rfl hread).symm.trans hdeclared)

/-! ## Hooks -/

/-- A fresh manifest of a registered profile has the hook of the profile.  A fresh manifest holds no
entities yet, so only its own hook is attached. -/
theorem hookFor_of_build {id : Option ProfileId} {p : Profile} {root : Corim}
    (hp : s.profiles.named? id = some p) (h : s.build id = .ok root) :
    p.bundle.hookFor .corim .corim = .ok root.hook := by
  obtain ⟨root', hattach, rfl⟩ := (build_eq_ok_iff hp).1 h
  have hown : (p.hooks.attachOwn (default : Corim)).toExcept = .ok root' := by
    rw [← Corim.attach_default]
    exact hattach
  obtain ⟨slot, hfor, rfl⟩ := (HookSource.attach_eq_ok_iff rfl).1
    ((Attached.toExcept_ofExcept _ _).symm.trans hown)
  exact hfor

/-- The hook of a manifest is that of the bundle. -/
theorem serves_corim {id : Option ProfileId} {p : Profile} {root : Corim} {cx : Context}
    {v : Raw f} (hp : s.profiles.named? id = some p) (hroot : s.build id = .ok root)
    (hread : corimShape.decodeAttached f cx root v = .ok c) :
    p.bundle.Serves .corim .corim c.hook :=
  ⟨root.hook, hookFor_of_build hp hroot,
    RecordShape.sameHook_of_decodeAttached keepsSlot_corim hread⟩

/-- An entity that is read has the hook of the profile, as far as the context has hooks. -/
theorem sameHook_of_corimEntity {cx : Context} {v : Raw f} {e : CorimEntity}
    (h : (corimEntityShape.extended default).decode f cx v = .ok e) :
    ∃ e₀ : CorimEntity, cx.attach default = .ok e₀ ∧ Slot.SameHook e₀.hook e.hook := by
  obtain ⟨e₀, hattach, hread⟩ := RecordShape.decode_extended_eq_ok_iff.1 h
  exact ⟨e₀, hattach, RecordShape.sameHook_of_decodeAttached keepsSlot_corimEntity hread⟩

theorem serves_corimEntity {id : Option ProfileId} {p : Profile} {v : Raw f} {e : CorimEntity}
    (hp : s.profiles.named? id = some p)
    (h : (corimEntityShape.extended default).decode f (s.context id) v = .ok e) :
    p.bundle.Serves .corimEntity .corimEntity e.hook := by
  obtain ⟨e₀, hattach, hsame⟩ := sameHook_of_corimEntity h
  have hown : p.hooks.attach (default : CorimEntity) = .ok e₀ := by
    unfold context at hattach
    rw [hp] at hattach
    exact (Attached.toExcept_ofExcept _ _).symm.trans hattach
  obtain ⟨slot, hfor, rfl⟩ := (HookSource.attach_eq_ok_iff rfl).1 hown
  exact ⟨slot, hfor, hsame⟩

/-- Without a hook in the bundle the entities have none. -/
theorem hook_corimEntity_eq_none {id : Option ProfileId} {v : Raw f} {e : CorimEntity}
    (hid : s.profiles.named? id = none)
    (h : (corimEntityShape.extended default).decode f (s.context id) v = .ok e) :
    e.hook = none := by
  obtain ⟨e₀, hattach, hsame⟩ := sameHook_of_corimEntity h
  unfold context at hattach
  rw [hid] at hattach
  obtain rfl := Except.ok.inj hattach
  exact hsame.eq_none_of_left

theorem named?_empty (profile : Option ProfileId) : ProfileIndex.empty.named? profile = none := by
  cases profile <;> rfl

/-- Without a registered profile the second pass is that of a session without profiles. -/
theorem decodeCorim_of_unregistered
    (h : ∀ v profile, s.parse f bytes = .ok v →
      Corim.declaredProfile f (s.context none) v = .ok profile →
      s.profiles.named? profile = none) :
    s.decodeCorim f bytes = decodeCorim { s with profiles := .empty } f bytes := by
  have hequal : ∀ profile, s.profiles.named? profile = none →
      s.context profile = context { s with profiles := .empty } profile ∧
        (s.build profile : Except Error Corim) = build { s with profiles := .empty } profile := by
    intro profile hnone
    refine ⟨?_, (build_eq hnone).trans (build_eq (named?_empty profile)).symm⟩
    show Context.ofBundle s.catalogs ((s.profiles.named? profile).map (·.bundle)) =
      Context.ofBundle s.catalogs ((ProfileIndex.empty.named? profile).map (·.bundle))
    rw [hnone, named?_empty]
  have hparse : parse { s with profiles := .empty } f bytes = s.parse f bytes := rfl
  have hpeek : context { s with profiles := .empty } none = s.context none :=
    (hequal none rfl).1.symm
  rw [decodeCorim_eq, decodeCorim_eq, hparse, hpeek]
  cases hv : s.parse f bytes with
  | error e => rw [Except.bind, Except.bind]
  | ok v =>
    rw [Except.bind, Except.bind]
    cases hprofile : Corim.declaredProfile f (s.context none) v with
    | error e => rw [Error.lift, Except.bind, Except.bind]
    | ok profile =>
      obtain ⟨hcontext, hbuild⟩ := hequal profile (h v profile hv hprofile)
      rw [Error.lift, Except.bind, Except.bind, hcontext, hbuild]

/-- A manifest that is read holds the profile that the first pass found, and it and its entities
have the hooks of that profile and no others.  Whatever else the first pass finds, the outcome is
that of a session without profiles. -/
theorem decodeCorim_hooks (s : Session) (f : Format) (bytes : List UInt8) :
    (∀ c, s.decodeCorim f bytes = .ok c →
      (∃ v, s.parse f bytes = .ok v ∧
        Corim.declaredProfile f (s.context none) v = .ok c.profile) ∧
      (∀ p, s.profiles.named? c.profile = some p →
        c.hook.isSome = p.bundle.contains .corim ∧ p.bundle.Serves .corim .corim c.hook ∧
          ∀ e ∈ c.entities, e.hook.isSome = p.bundle.contains .corimEntity ∧
            p.bundle.Serves .corimEntity .corimEntity e.hook) ∧
      (s.profiles.named? c.profile = none → c.hook = none ∧ ∀ e ∈ c.entities, e.hook = none)) ∧
    ((∀ v profile, s.parse f bytes = .ok v →
        Corim.declaredProfile f (s.context none) v = .ok profile →
        s.profiles.named? profile = none) →
      s.decodeCorim f bytes = decodeCorim { s with profiles := .empty } f bytes) := by
  refine ⟨fun c hc => ?_, decodeCorim_of_unregistered⟩
  obtain ⟨v, profile, root, hparse, hdeclared, hroot, hread⟩ := decodeCorim_eq_ok_iff.1 hc
  obtain rfl : c.profile = profile := profile_of_decodeAttached hdeclared hread
  have hentities : ∀ e ∈ c.entities, ∃ v,
      (corimEntityShape.extended default).decode f (s.context c.profile) v = .ok e := by
    obtain ⟨entries, r, left, slot, -, htake, -, rfl⟩ :=
      RecordShape.decodeAttached_eq_ok_iff.1 hread
    intro e he
    exact Corim.entities_of_takeAll htake e he
  refine ⟨⟨v, hparse, hdeclared⟩, fun p hp => ?_, fun hnone => ?_⟩
  · have hserves := serves_corim hp hroot hread
    refine ⟨hserves.isSome_eq, hserves, fun e he => ?_⟩
    obtain ⟨v, hv⟩ := hentities e he
    have hserves := serves_corimEntity hp hv
    exact ⟨hserves.isSome_eq, hserves⟩
  · constructor
    · obtain rfl := Except.ok.inj ((build_eq hnone).symm.trans hroot)
      exact (RecordShape.sameHook_of_decodeAttached keepsSlot_corim hread).eq_none_of_left
    · intro e he
      obtain ⟨v, hv⟩ := hentities e he
      exact hook_corimEntity_eq_none hnone hv

/-- A session that knows a profile with hooks for manifests and their entities. -/
def hookedSession : Session where
  profiles := ⟨[⟨.oid ⟨[2, 999, 3]⟩,
    ⟨[⟨.corim, .corim, .inert⟩, ⟨.corimEntity, .corimEntity, .inert⟩]⟩⟩]⟩

/-- The binary form of a manifest of that profile, with one entity. -/
def hookedBytes : List UInt8 :=
  [164, 0, 97, 109, 1, 129, 217, 1, 250, 65, 0, 3, 216, 111, 67, 136, 55, 3,
    5, 129, 162, 0, 100, 65, 67, 77, 69, 2, 129, 1]

theorem decodeCorim_hooks_hooked :
    (∃ c, hookedSession.decodeCorim .cbor hookedBytes = .ok c ∧ c.hook.isSome = true ∧
      c.entities ≠ [] ∧ ∀ e ∈ c.entities, e.hook.isSome = true) ∧
    hookedSession.decodeCorim .cbor [] =
      decodeCorim { hookedSession with profiles := .empty } .cbor [] := by
  constructor
  · obtain ⟨c, hc, htest⟩ := exists_of_any_toOption
      (show (hookedSession.decodeCorim .cbor hookedBytes).toOption.any (fun c =>
        (hookedSession.profiles.named? c.profile).any (fun p =>
          p.bundle.contains .corim && p.bundle.contains .corimEntity) &&
        !c.entities.isEmpty) = true by decide +kernel)
    obtain ⟨hp, hsome⟩ := Bool.and_eq_true_iff.1 htest
    obtain ⟨p, hp, hcontains⟩ := (Option.any_eq_true _ _).1 hp
    obtain ⟨hcorim, hentity⟩ := Bool.and_eq_true_iff.1 hcontains
    obtain ⟨-, hregistered, -⟩ := (decodeCorim_hooks hookedSession .cbor hookedBytes).1 c hc
    obtain ⟨hslot, -, hentities⟩ := hregistered p hp
    refine ⟨c, hc, hslot.trans hcorim, ?_, fun e he => (hentities e he).1.trans hentity⟩
    intro hnil
    rw [hnil] at hsome
    cases hsome
  · apply (decodeCorim_hooks hookedSession .cbor []).2
    intro v profile hparse
    have hfails : (hookedSession.parse .cbor []).isOk = false := by decide +kernel
    rw [hparse] at hfails
    cases hfails

/-! ## Manifests that are not read back -/

/-- A manifest is written within the limit but not read back. -/
def Unreadable (s : Session) (f : Format) (m : Corim) : Prop :=
  ∃ bytes, s.encode f m = .ok bytes ∧ bytes.length ≤ s.config.maxInputBytes ∧
    ∃ e, s.decodeCorim f bytes = .error e

theorem unreadable_of_any {s : Session} {f : Format} {m : Corim}
    (h : (s.encode f m).toOption.any (fun bytes =>
      decide (bytes.length ≤ s.config.maxInputBytes) && !(s.decodeCorim f bytes).isOk) = true) :
    s.Unreadable f m := by
  obtain ⟨bytes, hbytes, htest⟩ := exists_of_any_toOption h
  obtain ⟨hlen, hfails⟩ := Bool.and_eq_true_iff.1 htest
  refine ⟨bytes, hbytes, of_decide_eq_true hlen, ?_⟩
  cases hread : s.decodeCorim f bytes with
  | error e => exact ⟨e, rfl⟩
  | ok m' =>
    rw [hread] at hfails
    cases hfails

end Session

end Rim
