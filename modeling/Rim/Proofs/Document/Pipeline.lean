import Rim.Proofs.Document.Manifest
import Rim.Proofs.Hook.Silent
import Rim.Proofs.Record.Reread
/-!
# Module identifiers within manifests

A manifest holds module identifiers among its tags, each as the bytes of its binary form, and may
hold tags of third parties between them.  Whatever a manifest is put together from, and whichever
format it is written in, the bytes of the tags come through, so reading a written manifest and then
its tags gives the module identifiers that were added, in order and in their normal form.

Reading attaches no hooks unless the profile of the manifest is registered.  A field that a hook has
written is then one that nobody claims, so the hooks of the manifest must not have written any.

## Main definitions

* `Corim.unhooked`: a manifest without its hooks.
* `FieldCodec.Returns`: choices that come back from a manifest.
* `ManifestStep`, `Session.compose`: a manifest put together step by step.
* `Session.added`: the module identifiers that some steps add.

## Main results

* `Corim.encode_unhooked`: hooks that hold no values leave no trace.
* `Session.decodeCorim_encode_returns`: a manifest whose choices come back is read back.
* `Session.compose_eq`: steps append tags and do nothing else.
* `Session.comids_of_composed`: the module identifiers of a manifest that was put together, written
  and read.
-/

namespace Rim

/-! ## Hooks that hold no values -/

section Silent

variable {f : Format}

/-- An entity of a manifest without its hook. -/
def CorimEntity.unhooked (e : CorimEntity) : CorimEntity := { e with hook := none }

/-- A manifest without its hooks. -/
def Corim.unhooked (d : Corim) : Corim :=
  { d with entities := d.entities.map CorimEntity.unhooked, hook := none }

theorem Corim.hooks_unhooked (d : Corim) : Slotted.hooks d.unhooked = [] := by
  refine Corim.hooks_eq_nil_iff.2 ⟨rfl, fun e he => ?_⟩
  obtain ⟨e, -, rfl⟩ := List.mem_map.1 he
  rfl

theorem CorimEntity.encode_unhooked {e : CorimEntity} (h : Slot.holdsValues e.hook = false) :
    corimEntityShape.encodeExtended f e.unhooked = corimEntityShape.encodeExtended f e := by
  show corimEntityShape.encodeWith f e [] = corimEntityShape.encodeWith f e (Slot.puts f e.hook)
  rw [Slot.puts_of_holdsValues h]

/-- Hooks that hold no values leave no trace in what is written of a manifest. -/
theorem Corim.encode_unhooked {d : Corim} (h : d.EverySlot fun _ slot => slot.holdsValues = false) :
    Document.encode f d.unhooked = Document.encode f d :=
  Corim.encode_mapEntities (fun e he => CorimEntity.encode_unhooked (h.entities e he))
    (Slot.puts_of_holdsValues h.own).symm

end Silent

/-! ## Choices that come back

A reader goes 127 levels deep, two of which are those of the manifest and of the list of its tags.
What a reader makes of a third party's payload need not be what was written: a number may have
changed, or the entries of a map may come in another order. -/

/-- A manifest without hooks comes back if its tags and its profile do. -/
theorem Corim.returns {f : Format} {cx : Context} {d : Corim}
    (hid : Validate.validate d.id = .ok ())
    (htags : ∀ t ∈ d.tags, (FieldCodec.choice .conciseTag).Returns f cx 125 t t)
    (hprofile : ∀ p ∈ d.profile, (FieldCodec.choice .profileId).Returns f cx 126 p p)
    (hslots : d.EverySlot fun _ slot => slot.Travels f cx 123) (blank : Corim) :
    corimShape.Returns f cx 126 d blank { d.settled with hook := blank.hook } := by
  have htagId : FieldCodec.tagId.Returns f cx 126 d.id d.id := (TagId.travels hid).returns
  have hentities : (FieldCodec.list (corimEntityShape.extended default)).Travels f cx 126 d.entities
      (d.entities.map CorimEntity.settled) :=
    FieldCodec.travels_list CorimEntity.settled fun e he =>
      CorimEntity.travels ((hslots.entities e he).mono (by omega))
  refine ⟨RecordShape.sound_flat rfl, ?_⟩
  refine .cons (Member.returns_required rfl htagId) ?_
  refine .cons (Member.returns_required rfl (FieldCodec.returns_items htags)) ?_
  refine .cons (Member.returns_kept rfl (fun _ => rfl) hprofile) ?_
  refine .cons (Member.Travels.returns (Member.travels_list _ rfl (fun _ => rfl) hentities)) ?_
  exact .nil rfl

namespace Session

variable {s : Session} {f : Format} {bytes : List UInt8}

/-- A choice is one of its family's own variants, or what is written of it nests at most `n` deep
and is read back from a document that holds it. -/
def Returns (s : Session) (f : Format) (n : Nat) (family : Family) (x : family.Value) : Prop :=
  TypeChoice.IsOwn x ∨ (FieldCodec.choice family).Returns f (s.context none) n x x

/-- A choice comes back if its payload does. -/
theorem Returns.choice {n : Nat} {family : Family} {x : family.Value}
    (h : s.Returns f (n + 2) family x) (hcatalogs : s.catalogs.Includes .standard)
    (hvalid : TypeChoice.validity x = .ok ()) :
    (FieldCodec.choice family).Returns f (s.context none) (n + 2) x x := by
  rcases h with hown | hreturns
  · exact (TypeChoice.travels hcatalogs family hown hvalid).returns
  · exact hreturns

/-- A written manifest is read back in its normal form, without its hooks, if its choices come back
and its hooks hold no values.  What is written of the manifest is what is written of it without its
hooks. -/
theorem decodeCorim_encode_returns (hcatalogs : s.catalogs.Includes .standard)
    (hconfig : s.config.maxInputBytes < 18446744073709551616) {d : Corim}
    (hprofile : s.profiles.named? d.profile = none)
    (hsilent : d.EverySlot fun _ slot => slot.holdsValues = false)
    (htag : ∀ t ∈ d.tags, s.Returns f 125 .conciseTag t)
    (hid : ∀ p ∈ d.profile, s.Returns f 126 .profileId p)
    (henc : s.encode f d = .ok bytes) (hlen : bytes.length ≤ s.config.maxInputBytes) :
    s.decodeCorim f bytes = .ok d.unhooked.normalized := by
  obtain ⟨hvalid, v, hv, hbytes⟩ := encode_eq_ok_iff.1 henc
  obtain ⟨hvalidId, -, htags, hprofiles, -⟩ := Corim.validate_eq_ok_iff.1 hvalid
  have hcx : s.context d.profile = s.context none :=
    (context_eq hprofile).trans (context_eq rfl).symm
  have hslots : d.unhooked.EverySlot fun _ slot => slot.Travels f (s.context none) 123 :=
    Corim.everySlot_of_hookless (fun _ => .of_none rfl rfl) d.hooks_unhooked
  have hv' : corimShape.encode f d.unhooked = .ok v := (Corim.encode_unhooked hsilent).trans hv
  have hreturns := Corim.returns (d := d.unhooked) hvalidId
    (fun t ht => (htag t ht).choice hcatalogs (htags t ht))
    (fun p hp => (hid p hp).choice hcatalogs (hprofiles p hp)) hslots default
  obtain ⟨w, hw, hread⟩ := hreturns.decodeWith hv'
  have hparse := parse_of_reread? hw (hreturns.depth_le hv') hconfig hbytes hlen
  rw [← Corim.settled_eq_normalized d.hooks_unhooked]
  refine decodeCorim_of_parse (build_eq hprofile) hparse ?_
  show corimShape.decodeAttached f (s.context d.profile) default w = _
  rw [hcx]
  exact hread fun e entries => do
    let (slot, entries) ← Slot.take (Datum.decode f (s.context none)) (Hookable.slot e) entries
    return (Hookable.withSlot e slot, entries)

/-- Without a registered profile, a module identifier is read as under no profile. -/
theorem decodeComid_of_unregistered {id : Option ProfileId} (hid : s.profiles.named? id = none) :
    s.decodeComid f id bytes = s.decodeComid f none bytes := by
  unfold decodeComid
  rw [build_eq hid, build_eq rfl, context_eq hid, context_eq rfl]

end Session

/-! ## Manifests put together

A step appends a tag or leaves the tags as they are. -/

/-- What is done to a manifest that is put together: a module identifier is added, or a tag. -/
inductive ManifestStep where
  | comid (d : Comid)
  | tag (t : ConciseTag)

/-- A manifest with some tags appended. -/
def Corim.addTags (m : Corim) (tags : List ConciseTag) : Corim :=
  { m with tags := m.tags ++ tags }

theorem Corim.addTags_nil (m : Corim) : m.addTags [] = m := by
  show { m with tags := m.tags ++ [] } = m
  rw [List.append_nil]

namespace Session

variable {s : Session}

/-- A manifest after one step; a module identifier that cannot be added leaves it as it was. -/
def extend (s : Session) (m : Corim) : ManifestStep → Corim
  | .comid d => (s.addComid m d).toOption.getD m
  | .tag t => m.addTag t

/-- A manifest after some steps in turn. -/
def compose (s : Session) (m : Corim) (steps : List ManifestStep) : Corim := steps.foldl s.extend m

/-- The tag that a step appends, if it appends one. -/
def appended? (s : Session) : ManifestStep → Option ConciseTag
  | .comid d => (s.encode .cbor d).toOption.map fun bytes => .comid ⟨bytes⟩
  | .tag t => some t

/-- The module identifier that a step adds, if it adds one. -/
def added? (s : Session) : ManifestStep → Option Comid
  | .comid d => if (s.encode .cbor d).isOk then some d else none
  | .tag _ => none

/-- The module identifiers that some steps add, in turn. -/
def added (s : Session) (steps : List ManifestStep) : List Comid := steps.filterMap s.added?

/-- A step appends the tag that it makes, if it makes one. -/
theorem extend_eq (m : Corim) (step : ManifestStep) :
    s.extend m step = m.addTags (s.appended? step).toList := by
  cases step with
  | tag t => rfl
  | comid d =>
    show ((s.encode .cbor d).map fun bytes => m.addTag (.comid ⟨bytes⟩)).toOption.getD m =
      m.addTags (s.appended? (.comid d)).toList
    unfold appended?
    dsimp only
    cases s.encode .cbor d with
    | ok bytes => rfl
    | error e => exact m.addTags_nil.symm

/-- Steps append their tags, in turn, and do nothing else to a manifest. -/
theorem compose_eq (m : Corim) (steps : List ManifestStep) :
    s.compose m steps = m.addTags (steps.filterMap s.appended?) := by
  unfold compose
  induction steps generalizing m with
  | nil => exact m.addTags_nil.symm
  | cons step rest ih =>
    rw [List.foldl_cons, ih, extend_eq, List.filterMap_cons]
    cases s.appended? step with
    | none => rw [Option.toList_none, Corim.addTags_nil]
    | some t => simp [Corim.addTags]

/-! ## The module identifiers of a composed manifest -/

/-- A step of the kind that the round trip is about: a module identifier without hooks, of own
variants, with a binary form no longer than allowed; or a tag of a third party that comes back. -/
def Admits (s : Session) (f : Format) : ManifestStep → Prop
  | .comid d => d.IsOwn ∧ Slotted.hooks d = [] ∧
      ∀ bytes, s.encode .cbor d = .ok bytes → bytes.length ≤ s.config.maxInputBytes
  | .tag t => TypeChoice.isForeign t = true ∧ s.Returns f 125 .conciseTag t

/-- Whatever tag such a step appends comes back. -/
theorem Admits.returns {f : Format} {step : ManifestStep} (h : s.Admits f step) :
    ∀ t ∈ s.appended? step, s.Returns f 125 .conciseTag t := by
  intro t ht
  cases step with
  | tag u =>
    obtain rfl := Option.some.inj ht
    exact h.2
  | comid d =>
    obtain ⟨bytes, -, rfl⟩ := Option.map_eq_some_iff.1 ht
    exact .inl rfl

/-- The module identifiers of tags that are appended come after the others. -/
theorem comids_addTags (m : Corim) (tags : List ConciseTag) :
    s.comids (m.addTags tags) =
      (s.comids m).bind fun before => (s.comids { m with tags }).map (before ++ ·) := by
  have htags : comidTags (m.addTags tags) =
      comidTags m ++ comidTags { m with tags } :=
    List.filterMap_append
  unfold comids
  rw [htags, List.mapM_append]
  rfl

/-- The tags that such steps append hold the module identifiers that they add, in their normal form.
A tag of a third party is no module identifier. -/
theorem comids_appended (hcatalogs : s.catalogs.Includes .standard)
    (hconfig : s.config.maxInputBytes < 18446744073709551616) {f : Format} {m : Corim}
    (hprofile : s.profiles.named? m.profile = none) {steps : List ManifestStep}
    (hsteps : ∀ step ∈ steps, s.Admits f step) :
    s.comids { m with tags := steps.filterMap s.appended? } =
      .ok ((s.added steps).map Comid.normalized) := by
  induction steps with
  | nil => rfl
  | cons step rest ih =>
    obtain ⟨hstep, hrest⟩ := List.forall_mem_cons.1 hsteps
    have hrest := ih hrest
    cases step with
    | tag t =>
      cases t with
      | comid tag => cases hstep.1
      | registered v => exact hrest
    | comid d =>
      obtain ⟨hown, hnone, hlen⟩ := hstep
      cases henc : s.encode .cbor d with
      | error e =>
        have happended : s.appended? (.comid d) = none := by
          simp [appended?, henc, Except.toOption]
        have hadded : s.added? (.comid d) = none := by
          simp [added?, henc, Except.isOk, Except.toBool]
        rw [added, List.filterMap_cons_none happended, List.filterMap_cons_none hadded]
        exact hrest
      | ok bytes =>
        have happended : s.appended? (.comid d) = some (.comid ⟨bytes⟩) := by
          simp [appended?, henc, Except.toOption]
        have hadded : s.added? (.comid d) = some d := by
          simp [added?, henc, Except.isOk, Except.toBool]
        have hread : s.decodeComid .cbor m.profile bytes = .ok d.normalized :=
          (decodeComid_of_unregistered hprofile).trans
            (decodeComid_encode hcatalogs hconfig hown hnone henc (hlen bytes henc))
        rw [added, List.filterMap_cons_some happended, List.filterMap_cons_some hadded]
        show List.mapM _ (_ :: comidTags { m with tags := rest.filterMap s.appended? }) = _
        rw [List.mapM_cons, hread]
        show (s.comids { m with tags := rest.filterMap s.appended? }).bind _ = _
        rw [hrest]
        rfl

/-- The module identifiers within a manifest survive whatever way it takes.  A manifest of an
unregistered profile is put together from module identifiers and from tags of third parties; some
module identifiers may be refused on the way.  If it is written at all, in either format, and read
again, then its tags hold what they held before, and after that the module identifiers that were
added, all of them, once each, in order and in their normal form.  The composed manifest differs
from the first one in its tags, and all of these come back. -/
theorem comids_of_composed (s : Session) (hcatalogs : s.catalogs.Includes .standard)
    (hconfig : s.config.maxInputBytes < 18446744073709551616) (f : Format) (m : Corim)
    (hprofile : s.profiles.named? m.profile = none)
    (hsilent : m.EverySlot fun _ slot => slot.holdsValues = false)
    (htags : ∀ t ∈ m.tags, s.Returns f 125 .conciseTag t)
    (hid : ∀ p ∈ m.profile, s.Returns f 126 .profileId p)
    (steps : List ManifestStep) (hsteps : ∀ step ∈ steps, s.Admits f step) (bytes : List UInt8)
    (henc : s.encode f (s.compose m steps) = .ok bytes)
    (hlen : bytes.length ≤ s.config.maxInputBytes) :
    ∃ m', s.decodeCorim f bytes = .ok m' ∧
      s.comids m' = (s.comids m).map (· ++ (s.added steps).map Comid.normalized) ∧
      (comidTags m = [] → s.comids m' = .ok ((s.added steps).map Comid.normalized)) := by
  rw [compose_eq] at henc
  have hall : ∀ t ∈ m.tags ++ steps.filterMap s.appended?, s.Returns f 125 .conciseTag t := by
    intro t ht
    rcases List.mem_append.1 ht with ht | ht
    · exact htags t ht
    · obtain ⟨step, hstep, ht⟩ := List.mem_filterMap.1 ht
      exact (hsteps step hstep).returns t ht
  have hslots : (m.addTags (steps.filterMap s.appended?)).EverySlot fun _ slot =>
      slot.holdsValues = false :=
    ⟨hsilent.own, hsilent.entities⟩
  have hread := decodeCorim_encode_returns (d := m.addTags (steps.filterMap s.appended?)) hcatalogs
    hconfig hprofile hslots hall hid henc hlen
  have hcomids := s.comids_addTags m (steps.filterMap s.appended?)
  rw [comids_appended hcatalogs hconfig hprofile hsteps] at hcomids
  refine ⟨_, hread, hcomids, fun hnone => ?_⟩
  have hbefore : s.comids m = .ok [] := by
    unfold comids
    rw [hnone]
    rfl
  rw [hbefore] at hcomids
  exact hcomids

/-! ## A manifest with the tag of a third party -/

/-- The binary form of a module identifier with one triple of keys. -/
def keyedBytes : List UInt8 :=
  [163, 1, 161, 0, 97, 116, 2, 129, 162, 0, 100, 65, 67, 77, 69, 2, 129, 1, 4, 161, 2, 129, 130,
    161, 0, 161, 1, 100, 65, 67, 77, 69, 129, 217, 2, 46, 65, 1]

/-- What is written of a module identifier with one triple of keys. -/
theorem encode_keyedComid (s : Session) : s.encode .cbor (keyedComid "ACME") = .ok keyedBytes := by
  refine encode_eq_ok_iff.2 ⟨rfl, .map [(.int 1, .map [(.int 0, .text "t")]),
    (.int 2, .array [.map [(.int 0, .text "ACME"), (.int 2, .array [.int 1])]]),
    (.int 4, .map [(.int 2, .array [.array [.map [(.int 0, .map [(.int 1, .text "ACME")])],
      .array [.tag 558 (.bytes [1])]]])])], ?_, rfl⟩
  show Except.ok (Cbor.map [(_, _), (_, _), (_, .map [(_, .array [.array
    (List.map _ (List.mergeSort [_, _] _))])])]) = _
  rw [List.mergeSort_of_pairwise (List.pairwise_pair.2 rfl)]
  rfl

/-- Serial numbers of a vendor, each under a label of its own. -/
def labelledPayload : PayloadType String where
  typeName := "acme.labelled"
  tag := 90002
  sentinel := ""
  display := id
  bytes := Utf8.encode
  check _ := .ok ()
  toCbor serial := .ok (.map [(.text "serial", .text serial)])
  toJson serial := .ok (.object [("serial", .string serial)])
  ofText := .ok
  ofCbor
    | .map [(.text "serial", .text serial)] => .ok serial
    | _ => .error (.wrongInput "acme.labelled" "map")
  ofJson
    | .object [("serial", .string serial)] => .ok serial
    | _ => .error (.wrongInput "acme.labelled" "object")
  origin := .vendor

/-- A session that knows these serial numbers as tags. -/
def labelledSession : Session where
  catalogs := (Catalogs.standard.modify .conciseTag fun g => g.registerForeign labelledPayload).1

/-- The serial number of a vendor as a tag. -/
def labelledTag : ConciseTag := .registered (labelledPayload.variant "S-1")

/-- A manifest of a profile that nobody registered, without tags and with hooks that hold
nothing. -/
def quietCorim : Corim where
  id := .text "m"
  profile := some (.oid ⟨[2, 999, 3]⟩)
  entities := [{ identity := { name := "ACME" }, roles := [.other 1], hook := some .inert }]
  hook := some .inert

/-- A module identifier before and after the serial number of a vendor and one that is not valid. -/
def labelledSteps : List ManifestStep :=
  [.comid (keyedComid "ACME"), .tag labelledTag, .comid {}, .comid (keyedComid "ACME")]

theorem appended_labelledSteps (s : Session) : labelledSteps.filterMap s.appended? =
    [.comid ⟨keyedBytes⟩, labelledTag, .comid ⟨keyedBytes⟩] := by
  have hinvalid : s.appended? (.comid {}) = none := rfl
  have hkeyed : s.appended? (.comid (keyedComid "ACME")) = some (.comid ⟨keyedBytes⟩) := by
    simp [appended?, encode_keyedComid, Except.toOption]
  simp only [labelledSteps, List.filterMap_cons, List.filterMap_nil, hinvalid, hkeyed]
  rfl

theorem added_labelledSteps (s : Session) :
    s.added labelledSteps = [keyedComid "ACME", keyedComid "ACME"] := by
  have hinvalid : s.added? (.comid {}) = none := rfl
  have hkeyed : s.added? (.comid (keyedComid "ACME")) = some (keyedComid "ACME") := by
    simp [added?, encode_keyedComid, Except.isOk, Except.toBool]
  simp only [added, labelledSteps, List.filterMap_cons, List.filterMap_nil, hinvalid, hkeyed]
  rfl

theorem admits_keyedComid {s : Session} (f : Format)
    (hlimit : keyedBytes.length ≤ s.config.maxInputBytes) :
    s.Admits f (.comid (keyedComid "ACME")) := by
  refine ⟨isOwn_keyedComid "ACME", rfl, fun bytes henc => ?_⟩
  obtain rfl := Except.ok.inj ((encode_keyedComid _).symm.trans henc)
  exact hlimit

theorem admits_labelledSteps : ∀ step ∈ labelledSteps, labelledSession.Admits .cbor step := by
  have hlabelled : labelledSession.Admits .cbor (.tag labelledTag) := by
    refine ⟨rfl, .inr ⟨fun v hv => ?_, fun v hv => ?_⟩⟩
    all_goals obtain rfl := Except.ok.inj hv
    · exact ⟨_, rfl, rfl⟩
    · decide
  have hinvalid : labelledSession.Admits .cbor (.comid {}) := by
    refine ⟨⟨List.forall_mem_nil _, List.forall_mem_nil _, List.forall_mem_nil _,
      List.forall_mem_nil _⟩, rfl, fun bytes henc => ?_⟩
    cases henc
  have hkeyed := admits_keyedComid (s := labelledSession) .cbor (by decide)
  intro step hstep
  simp only [labelledSteps, List.mem_cons, List.not_mem_nil, or_false] at hstep
  rcases hstep with rfl | rfl | rfl | rfl
  · exact hkeyed
  · exact hlabelled
  · exact hinvalid
  · exact hkeyed

theorem comids_of_composed_labelled :
    ∃ bytes m', labelledSession.encode .cbor (labelledSession.compose quietCorim labelledSteps) =
        .ok bytes ∧
      labelledSession.decodeCorim .cbor bytes = .ok m' ∧
      labelledSession.comids m' =
        .ok [(keyedComid "ACME").normalized, (keyedComid "ACME").normalized] := by
  obtain ⟨bytes, henc, hlen⟩ : ∃ bytes,
      labelledSession.encode .cbor (labelledSession.compose quietCorim labelledSteps) = .ok bytes ∧
        bytes.length ≤ 1048576 := by
    rw [compose_eq, appended_labelledSteps]
    exact ⟨_, rfl, by decide +kernel⟩
  obtain ⟨m', hread, -, hcomids⟩ := comids_of_composed labelledSession
    (Catalogs.includes_registerForeign labelledPayload (.refl _)) (by decide) .cbor quietCorim rfl
    ⟨rfl, fun e he => by obtain rfl := List.mem_singleton.1 he; rfl⟩ (List.forall_mem_nil _)
    (fun p hp => by obtain rfl := Option.some.inj hp; exact .inl rfl) labelledSteps
    admits_labelledSteps bytes henc hlen
  refine ⟨bytes, m', henc, hread, ?_⟩
  rw [hcomids rfl, added_labelledSteps]
  rfl

/-! ## Manifests that do not come through -/

/-- A manifest of no profile with a hook whose field holds a value. -/
def annotatedCorim : Corim where
  id := .text "m"
  hook := some { typeName := "note", fields := some [⟨⟨.optional "note" 100, .string, false⟩,
    some (.string "x")⟩] }

/-- Lists within each other. -/
def nest : Nat → Cbor
  | 0 => .array []
  | n + 1 => .array [nest n]

theorem plain_nest (n : Nat) : (nest n).Plain (n + 1) := by
  induction n with
  | zero => exact .array (List.forall_mem_nil _)
  | succ n ih =>
    refine .array fun x hx => ?_
    obtain rfl := List.mem_singleton.1 hx
    exact ih

/-- A payload that nests as deep as a reader goes, its tag and the list of tags aside. -/
def deepPayload : PayloadType Unit where
  typeName := "acme.deep"
  tag := 90003
  sentinel := ()
  display _ := "deep"
  bytes _ := []
  check _ := .ok ()
  toCbor _ := .ok (nest 124)
  toJson _ := .ok (.string "deep")
  ofText _ := .ok ()
  ofCbor _ := .ok ()
  origin := .vendor

/-- A session that knows this payload as a tag. -/
def deepSession : Session where
  catalogs := (Catalogs.standard.modify .conciseTag fun g => g.registerForeign deepPayload).1

/-- What comes through a manifest has its limits.  A field that a hook has written is one that
nobody claims when no profile attaches the hook again; a session may lack the catalogs; a tag that
is read back by itself may nest too deep within a manifest; a tag that a manifest held before may be
of a type that nobody registered; and the module identifiers that it held before are there beside
those added. -/
theorem composed_comids_differ :
    ((keyedComid "ACME").IsOwn ∧ Slotted.hooks (keyedComid "ACME") = [] ∧
      encode {} .cbor (keyedComid "ACME") = .ok keyedBytes ∧ keyedBytes.length ≤ 1048576) ∧
    Unreadable {} .cbor (compose {} annotatedCorim [.comid (keyedComid "ACME")]) ∧
    Unreadable { catalogs := .empty } .cbor
      (compose { catalogs := .empty } quietCorim [.comid (keyedComid "ACME")]) ∧
    (deepSession.Returns .cbor 126 .conciseTag (.registered (deepPayload.variant ())) ∧
      deepSession.Unreadable .cbor
        (deepSession.compose quietCorim [.tag (.registered (deepPayload.variant ()))])) ∧
    Unreadable {} .cbor
      (compose {} { quietCorim with tags := [labelledTag] } [.comid (keyedComid "ACME")]) ∧
    ∃ bytes m', encode {} .cbor (compose {} { quietCorim with tags := [.comid ⟨keyedBytes⟩] } []) =
        .ok bytes ∧
      decodeCorim {} .cbor bytes = .ok m' ∧
      comids {} m' ≠ .ok ((added {} []).map Comid.normalized) := by
  have hkeyed : ∀ s, [ManifestStep.comid (keyedComid "ACME")].filterMap (appended? s) =
      [.comid ⟨keyedBytes⟩] := by
    intro s
    simp [appended?, encode_keyedComid, Except.toOption]
  refine ⟨⟨isOwn_keyedComid "ACME", rfl, encode_keyedComid _, by decide⟩, ?_, ?_,
    ⟨.inr ⟨?_, ?_⟩, ?_⟩, ?_, ?_⟩
  · rw [compose_eq, hkeyed]
    exact unreadable_of_any (by decide +kernel)
  · rw [compose_eq, hkeyed]
    exact unreadable_of_any (by decide +kernel)
  · intro v hv
    obtain rfl := Except.ok.inj hv
    exact ⟨_, (Cbor.Plain.tag 90003 (plain_nest 124)).reread?_eq, rfl⟩
  · intro v hv
    obtain rfl := Except.ok.inj hv
    exact (Cbor.Plain.tag 90003 (plain_nest 124)).depth_le
  · exact unreadable_of_any (by decide +kernel)
  · rw [compose_eq, hkeyed]
    exact unreadable_of_any (by decide +kernel)
  · have hbefore : compose {} { quietCorim with tags := [.comid ⟨keyedBytes⟩] } [] =
        { quietCorim with tags := [.comid ⟨keyedBytes⟩] } := rfl
    rw [hbefore]
    obtain ⟨bytes, hbytes, htest⟩ := exists_of_any_toOption
      (show (encode {} .cbor { quietCorim with tags := [.comid ⟨keyedBytes⟩] }).toOption.any
        (fun bytes => (decodeCorim {} .cbor bytes).toOption.any fun m' =>
          (comids {} m').toOption.any fun held => !held.isEmpty) = true by decide +kernel)
    obtain ⟨m', hm', htest⟩ := exists_of_any_toOption htest
    obtain ⟨held, hheld, hsome⟩ := exists_of_any_toOption htest
    refine ⟨bytes, m', hbytes, hm', fun heq => ?_⟩
    obtain rfl := Except.ok.inj (hheld.symm.trans heq)
    cases hsome

end Session

end Rim
